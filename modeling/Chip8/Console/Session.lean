import Chip8.Console.Beeper
import Chip8.Console.Keyboard
import Chip8.Console.Notice
import Chip8.Machine.Step

/-!
A session: a machine with keyboard, window and beeper, from opening the window to its end. A session
goes on in turns. A turn looks at the keyboard, steps the machine if it has not halted and more than
two whole milliseconds have passed since its last step, sees to the beeper, and shows the screen.
-/

namespace Chip8.Console

/-- What a turn finds: the keyboard, the clock, and a random byte. -/
structure Turn where
  poll : Poll
  now : Nat
  random : UInt8
  deriving DecidableEq, Repr

inductive Ending where
  | quit
  | failed (fault : Fault)
  deriving DecidableEq, Repr

structure Session where
  machine : Machine
  halted : Bool
  /-- How much of the clock is a millisecond. -/
  unit : Nat
  /-- When the machine was last stepped. -/
  lastStep : Nat
  beeper : Beeper
  /-- The screen that the window shows; nothing was shown yet right after opening. -/
  shown? : Option Screen

structure TurnResult where
  session : Session
  ending? : Option Ending
  notices : List Notice
  calls : List AudioCall

namespace Session

/-- Milliseconds that have to be exceeded between two steps. -/
abbrev stepInterval : Nat := 2

def start (machine : Machine) (now : Nat) (unit : Nat := 1) : Session :=
  ⟨machine, false, unit, now, .silent, none⟩

/-- The whole milliseconds since the machine was last stepped. -/
def elapsed (s : Session) (now : Nat) : Nat := (now - s.lastStep) / s.unit

def isDue (s : Session) (now : Nat) : Bool := !s.halted && s.elapsed now > stepInterval

/-- The input of a step. Time that does not fit is cut to the longest time that does. -/
def stepInput (s : Session) (pad : Keypad) (turn : Turn) : Input :=
  ⟨pad, UInt32.ofNat (min (s.elapsed turn.now) (UInt32.size - 1)), turn.random⟩

/-- The end of a turn: the beeper is seen to, and the screen is shown. -/
def refresh (s : Session) (now : Nat) (notices : List Notice) (calls : List AudioCall) :
    TurnResult :=
  let (beeper, more) := s.beeper.update now (Beeper.duration * s.unit)
  ⟨{ s with beeper, shown? := some s.machine.screen }, none, notices, calls ++ more⟩

def haltNotices (halted : Bool) : List Notice := if halted then [.halted] else []

/-- A turn that steps the machine. A fault ends the session at once. -/
def stepTurn (s : Session) (pad : Keypad) (turn : Turn) : TurnResult :=
  let outcome := s.machine.step (s.stepInput pad turn)
  let stepped := { s with machine := outcome.machine }
  let notices := outcome.events.map .machine
  match outcome.result with
  | .error fault => ⟨stepped, some (.failed fault), notices, []⟩
  | .ok halted =>
    let (beeper, calls) :=
      if outcome.machine.beep then s.beeper.beep turn.now else (s.beeper, [])
    { stepped with halted, lastStep := turn.now, beeper }.refresh turn.now
      (notices ++ haltNotices halted) calls

def turn (s : Session) (t : Turn) : TurnResult :=
  match t.poll with
  | .quit => ⟨s, some .quit, [], []⟩
  | .keys pad => if s.isDue t.now then s.stepTurn pad t else s.refresh t.now [] []

/-- Turns, up to the one that ends the session. -/
def run (s : Session) : List Turn → TurnResult
  | [] => ⟨s, none, [], []⟩
  | t :: rest =>
    let result := s.turn t
    match result.ending? with
    | some _ => result
    | none =>
      let later := result.session.run rest
      { later with
        notices := result.notices ++ later.notices
        calls := result.calls ++ later.calls }

end Session

end Chip8.Console
