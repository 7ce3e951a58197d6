import Chip8.Instruction.Decode
import Chip8.Machine.Execute

/-!
One step of the machine: a key for a register that waits for one, then time for the timers, then one
instruction. A machine that waits while no key is held does nothing at all, and its timers stand
still.
-/

namespace Chip8

/-- What a step leaves behind. A step that succeeds says whether the machine has halted. -/
structure Outcome where
  machine : Machine
  result : Except Fault Bool
  events : List Event

namespace Machine

def tick (m : Machine) (elapsed : UInt32) : Machine :=
  let (timers, expired) := m.timers.advance elapsed
  { m with timers, beep := expired }

def takeKey (m : Machine) (x : Register) (key : Key) : Machine :=
  { m with registers := m.registers.set x (UInt8.ofNat key.val), waiting? := none }

def runInstruction (m : Machine) (input : Input) : Outcome :=
  match m.memory.readWord m.pc.toNat with
  | .error fault => ⟨m, .error fault, []⟩
  | .ok word =>
    let effect := m.advance.execute input (Instruction.decode word)
    let result :=
      match effect.fault? with
      | some fault => .error fault
      | none => .ok effect.machine.isHalted
    ⟨effect.machine, result, .fetched m.pc word :: effect.events⟩

def step (m : Machine) (input : Input) : Outcome :=
  let m := { m with keys := input.keys, beep := false }
  match m.waiting? with
  | none => (m.tick input.elapsed).runInstruction input
  | some x =>
    match m.keys.lowest? with
    | none => ⟨m, .ok false, []⟩
    | some key =>
      let outcome := ((m.takeKey x key).tick input.elapsed).runInstruction input
      { outcome with events := .keyStored key x :: outcome.events }

end Machine

end Chip8
