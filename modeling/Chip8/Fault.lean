import Chip8.Text.Hex
import Chip8.Text.Record

/-!
The faults of a running machine. A fault ends the step that meets it, and the machine stays usable.
-/

namespace Chip8

inductive Fault where
  /-- A call found every slot of the call stack taken, `depth` of them. -/
  | stackOverflow (depth : Nat)
  /-- A byte was wanted at an address outside memory. -/
  | memoryFault (address : Nat)
  deriving DecidableEq, Repr

namespace Fault

def message : Fault → String
  | stackOverflow depth => s!"Stack overflow: subroutine call at maximum depth {depth}"
  | memoryFault address =>
    "Memory access out of bounds at address " ++ Text.hexMarked 4 address

/-- The fault by name with its number, as the last line of a failed run shows it. -/
def detail : Fault → String
  | stackOverflow depth => Text.record "StackOverflow" [("depth", toString depth)]
  | memoryFault address => Text.record "MemoryFault" [("address", toString address)]

end Fault

end Chip8
