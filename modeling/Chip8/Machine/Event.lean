import Chip8.Instruction.Decode
import Chip8.Instruction.Text
import Chip8.Keypad
import Chip8.Log
import Chip8.Text.Hex

/-!
What a machine reports while it is built and while it runs, and the log line of each report.
-/

namespace Chip8

/-- An alternative behaviour that programs may ask for. -/
inductive Setting where
  /-- Storing and loading registers leaves the index where it was. -/
  | loadStore
  /-- Shifts work on the first register in place of the second. -/
  | shift
  deriving DecidableEq, Repr

def Setting.name : Setting → String
  | .loadStore => "LoadStore"
  | .shift => "Shift"

inductive Event where
  | fontTruncated (written size : Nat)
  | programTruncated (written size : Nat)
  | enabled (setting : Setting)
  | fetched (address word : UInt16)
  | keyStored (key : Key) (x : Register)
  | waiting (x : Register)
  | clearedScreen
  /-- A return found no call under way. -/
  | returnIgnored
  /-- A call succeeded; `depth` calls are now under way. -/
  | called (target : Address) (depth : Nat)
  /-- A sprite was drawn to its last row. -/
  | drew (rows x y : Nat)
  /-- A word was no instruction. -/
  | ignored (word address : UInt16)
  deriving DecidableEq, Repr

namespace Event

def level : Event → Log.Level
  | fontTruncated .. | programTruncated .. | ignored .. => .warn
  | fetched .. | drew .. => .trace
  | enabled _ | keyStored .. | waiting _ | clearedScreen | returnIgnored | called .. => .debug

def text : Event → String
  | fontTruncated written size => s!"Font truncated to {written} of {size} bytes"
  | programTruncated written size => s!"Program truncated to {written} of {size} bytes"
  | enabled setting => "Enabled compatibility setting " ++ setting.name
  | fetched address word =>
    Text.hexMarked 3 address.toNat ++ ": " ++ Text.hex 4 word.toNat ++ " " ++
      (Instruction.decode word).text
  | keyStored key x => "Key " ++ Text.hex 1 key.val ++ " pressed, stored in V" ++ Text.hex 1 x.val
  | waiting x => "Waiting for key into V" ++ Text.hex 1 x.val
  | clearedScreen => "Cleared screen"
  | returnIgnored => "Return with empty call stack ignored"
  | called target depth =>
    "Called subroutine at " ++ Text.hexMarked 3 target.val ++ s!" (depth {depth})"
  | drew rows x y => s!"Drew {rows} row sprite at ({x}, {y})"
  | ignored word address =>
    "Unimplemented or invalid opcode " ++ Text.hex 4 word.toNat ++ " at " ++
      Text.hexMarked 3 address.toNat ++ ", ignoring"

def line (event : Event) : Log.Line := ⟨event.level, event.text⟩

end Event

end Chip8
