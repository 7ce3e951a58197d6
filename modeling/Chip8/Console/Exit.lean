import Chip8.Console.Launch
import Chip8.Console.Session

/-!
What a run leaves to its caller: an exit code, and for a failure a line that names it.
-/

namespace Chip8.Console

def errorLine (detail : String) : String := "Error: " ++ detail

structure Exit where
  code : Nat
  error? : Option String
  deriving DecidableEq, Repr

namespace Exit

def success : Exit := ⟨0, none⟩

def failure (detail : String) : Exit := ⟨1, some (errorLine detail)⟩

def ofStop : CommandLine.Stop → Exit
  | .help | .version => success
  | .refused _ => ⟨2, none⟩

def ofEnding : Ending → Exit
  | .quit => success
  | .failed fault => failure fault.detail

end Exit

/-- The exit of a launch that does not open a window. -/
def Launch.exit? : Launch → Option Exit
  | .stopped stop => some (.ofStop stop)
  | .failed error => some (.failure error.detail)
  | .ready _ => none

end Chip8.Console
