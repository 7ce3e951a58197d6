/-!
The beeper: a tone that lasts 120 milliseconds from the last beep on. The device is opened once and
waits; a beep lets it play, and the first look at the clock after the time is over pauses it.
-/

namespace Chip8.Console

structure AudioFormat where
  /-- Samples in a second. -/
  frequency : Nat
  channels : Nat
  /-- The size of a buffer, if one is asked for. -/
  bufferSize? : Option Nat
  deriving DecidableEq, Repr

def AudioFormat.beeper : AudioFormat := ⟨44100, 1, none⟩

inductive AudioCall where
  | openDevice (format : AudioFormat)
  | resume
  | pause
  deriving DecidableEq, Repr

/-- The beeper: when the tone that sounds was started, if one sounds. -/
structure Beeper where
  started? : Option Nat
  deriving DecidableEq, Repr

namespace Beeper

abbrev duration : Nat := 120

def silent : Beeper := ⟨none⟩

def openingCalls : List AudioCall := [.openDevice .beeper]

/-- Starts a tone, or starts the one that sounds anew. -/
def beep (_ : Beeper) (now : Nat) : Beeper × List AudioCall := (⟨some now⟩, [.resume])

/-- Ends the tone if it has lasted long enough. A clock that does not count milliseconds has
`length` in its own units. -/
def update (b : Beeper) (now : Nat) (length : Nat := duration) : Beeper × List AudioCall :=
  match b.started? with
  | none => (b, [])
  | some started => if now - started ≥ length then (silent, [.pause]) else (b, [])

end Beeper

end Chip8.Console
