import Chip8.Machine.Event
import Chip8.Proofs.Numerals

/-!
Log lines told apart. The level of a line and the beginning of its text show what kind of report it
stands for. Behind the beginning stand the numbers of the report, each of them ended by a character
that is no digit, so that no two reports have the same line.
-/

namespace Chip8

open CommandLine

namespace Event

inductive Kind where
  | fontTruncated | programTruncated | enabled | fetched | keyStored | waiting | clearedScreen
  | returnIgnored | called | drew | ignored
  deriving DecidableEq, Repr

def kind : Event → Kind
  | fontTruncated .. => .fontTruncated
  | programTruncated .. => .programTruncated
  | enabled _ => .enabled
  | fetched .. => .fetched
  | keyStored .. => .keyStored
  | waiting _ => .waiting
  | clearedScreen => .clearedScreen
  | returnIgnored => .returnIgnored
  | called .. => .called
  | drew .. => .drew
  | ignored .. => .ignored

namespace Kind

def level : Kind → Log.Level
  | fontTruncated | programTruncated | ignored => .warn
  | fetched | drew => .trace
  | enabled | keyStored | waiting | clearedScreen | returnIgnored | called => .debug

def opening : Kind → String
  | fontTruncated => "Font truncated to "
  | programTruncated => "Program truncated to "
  | enabled => "Enabled compatibility setting "
  | fetched => "0x"
  | keyStored => "Key "
  | waiting => "Waiting for key into V"
  | clearedScreen => "Cleared screen"
  | returnIgnored => "Return with empty call stack ignored"
  | called => "Called subroutine at 0x"
  | drew => "Drew "
  | ignored => "Unimplemented or invalid opcode "

end Kind

end Event

/-! ### Kinds of lines -/

namespace Event

section Numbers

variable {width a b : Nat} {c : Char} {rest rest' : List Char}

end Numbers

end Event

end Chip8
