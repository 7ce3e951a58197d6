import Chip8.Machine.Step

/-!
Runs: one step after the other, each with its own input, whatever the results of the steps.
-/

namespace Chip8.Machine

def outcomes (m : Machine) : List Input → List Outcome
  | [] => []
  | input :: rest =>
    let outcome := m.step input
    outcome :: outcome.machine.outcomes rest

def run (m : Machine) (inputs : List Input) : Machine :=
  inputs.foldl (fun machine input => (machine.step input).machine) m

end Chip8.Machine
