/-!
The tone of the beeper: a square wave of 440 periods a second, in single precision. The phase runs
through one period from 0 to 1; the first half of a period is high and the second half low.
-/

namespace Chip8.Console

structure Tone where
  /-- How far the phase moves on from sample to sample. -/
  increment : Float32
  phase : Float32
  volume : Float32

namespace Tone

/-- Periods in a second. -/
def pitch : Float32 := 440.0

/-- A tone for a device that takes `frequency` samples a second. -/
def ofFrequency (frequency : Int32) (phase volume : Float32) : Tone :=
  ⟨pitch / frequency.toFloat32, phase, volume⟩

def beep (frequency : Int32) : Tone := ofFrequency frequency 0.0 0.2

/-- What a number has beyond its whole part. It has the number's sign, also when it is zero. -/
def fraction (value : Float32) : Float32 :=
  let whole := if value < 0.0 then value.ceil else value.floor
  let rest := (value - whole).abs
  Float32.ofBits (rest.toBits ||| (value.toBits &&& 0x80000000))

def sample (t : Tone) : Float32 := if t.phase ≤ 0.5 then t.volume else -t.volume

def next (t : Tone) : Tone := { t with phase := fraction (t.phase + t.increment) }

def samples (t : Tone) (count : Nat) : Tone × List Float32 :=
  let (tone, reversed) := count.fold
    (fun _ _ (tone, reversed) => (tone.next, tone.sample :: reversed))
    (t, [])
  (tone, reversed.reverse)

end Tone

end Chip8.Console
