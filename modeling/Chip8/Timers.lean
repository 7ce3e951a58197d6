/-!
The delay and the sound timer. Elapsed milliseconds are gathered until they exceed a sixtieth of a
second; then both timers go down by one, not below zero, and the gathering starts again from
nothing, so one call makes at most one tick and what it has over is lost.
-/

namespace Chip8

/-- The two timers and the milliseconds gathered since their last tick. -/
structure Timers where
  delay : UInt8
  sound : UInt8
  gathered : Nat
  deriving DecidableEq, Repr

namespace Timers

/-- Ticks in a second. -/
abbrev rate : Nat := 60

def zero : Timers := ⟨0, 0, 0⟩

def down (value : UInt8) : UInt8 := if value = 0 then 0 else value - 1

def ticks (t : Timers) (elapsed : UInt32) : Bool := (t.gathered + elapsed.toNat) * rate > 1000

/-- Lets time pass. The second part says whether the sound timer ran out, that is, went from one to
zero. -/
def advance (t : Timers) (elapsed : UInt32) : Timers × Bool :=
  if t.ticks elapsed then
    (⟨down t.delay, down t.sound, 0⟩, t.sound == 1)
  else
    ({ t with gathered := t.gathered + elapsed.toNat }, false)

/-- What is gathered without a tick is at most a sixtieth of a second. -/
theorem advance_gathered_le (t : Timers) (elapsed : UInt32) :
    (t.advance elapsed).1.gathered ≤ 16 := by
  unfold advance
  split
  · simp
  · rename_i hno
    simp only [ticks, rate, decide_eq_true_eq] at hno
    simp only
    omega

end Timers

end Chip8
