import Chip8.Proofs.Encoding
import Chip8.Proofs.Execute
import Chip8.Proofs.LogLines
import Chip8.Proofs.Passage
import Chip8.Proofs.Stuck

/-!
What a step reports. First comes the key for a register that waits, then the instruction that is
fetched, and then at most one thing that the instruction itself has to say. All of it is told by the
step as others see it: by the machine before it, its input, its result, and the machine after it.
-/

namespace Chip8

/-! ### What a step has to report -/

namespace Stage

variable (s : Stage)

def outcome : Outcome := s.machine.step s.input

def word? : Option UInt16 :=
  if s.machine.Idle s.input then none else (s.machine.memory.readWord s.machine.pc.toNat).toOption

/-- The registers as the instruction finds them: one that waited has its key. -/
def registers : Registers := (s.machine.receive s.input.keys).registers

/-- The instruction that the step executes, if it succeeds. -/
def completed? : Option Instruction :=
  match s.outcome.result with
  | .ok _ => s.word?.map Instruction.decode
  | .error _ => none

def fetched? : Option Event := s.word?.map (.fetched s.machine.pc)

end Stage

/-! ### What an instruction reports -/

namespace Machine

/-- What an instruction that succeeds reports. The program counter already points behind it. -/
def report? (m : Machine) : Instruction → Option Event
  | .clearScreen => some .clearedScreen
  | .ret => if m.stack.frames = [] then some .returnIgnored else none
  | .call nnn => some (.called nnn (m.stack.depth + 1))
  | .draw x y n =>
    some (.drew n.val ((m.registers.get x).toNat % Screen.width)
      ((m.registers.get y).toNat % Screen.height))
  | .waitKey x => some (.waiting x)
  | .unknown word => some (.ignored word (m.pc - 2))
  | _ => none

section Execute

variable (m : Machine) (input : Input) (i : Instruction)

theorem draw_events (x y : Register) (n : Fin 16) :
    (m.draw x y n.val).events =
      if (m.draw x y n.val).fault? = none then (m.report? (.draw x y n)).toList else [] := by
  rw [draw_fault?, ← m.memory.readRun_fault?]
  unfold draw
  dsimp only
  split
  · rename_i fault hfault
    simp [hfault]
  · rename_i hfault
    simp [hfault, Effect.reporting, report?]

/-- An instruction that fails reports nothing, and one that succeeds at most one thing. -/
theorem execute_events :
    (m.execute input i).events =
      if (m.execute input i).fault? = none then (m.report? i).toList else [] := by
  cases i with
  | ret =>
      simp only [execute, report?]
      cases hframes : m.stack.frames with
      | nil => simp [ret_of_nil hframes, Effect.reporting]
      | cons address rest => simp [ret_of_cons hframes, Effect.silent]
  | call nnn =>
      simp only [execute, report?]
      by_cases hroom : m.stack.depth < CallStack.capacity
      · simp [call_of_lt nnn hroom, Effect.reporting]
      · simp [call_of_le nnn (Nat.not_lt.mp hroom)]
  | draw x y n => exact m.draw_events x y n
  | storeDecimal x | storeRegisters x | loadRegisters x =>
      exact (ite_self _).symm
  | _ => rfl

end Execute

end Machine

/-! ### The reports of a step -/

namespace Stage

variable (s : Stage)

def report? : Option Event := s.completed?.bind (s.machine.ready s.input).advance.report?

section Fetch

variable {s} {word : UInt16}

theorem word?_eq_some_iff : s.word? = some word ↔ s.machine.Fetches s.input word := by
  unfold word? Machine.Fetches
  by_cases hidle : s.machine.Idle s.input
  · simp [hidle]
  · cases hfetch : s.machine.memory.readWord s.machine.pc.toNat <;>
      simp [hidle, Except.toOption]

theorem outcome_of_word (h : s.word? = some word) :
    s.outcome =
      ⟨(s.machine.effect s.input word).machine, (s.machine.effect s.input word).answer,
        s.machine.keyEvents s.input.keys ++
          .fetched s.machine.pc word :: (s.machine.effect s.input word).events⟩ :=
  Machine.step_of_fetches (word?_eq_some_iff.mp h)

/-- A step that does not get as far as an instruction reports at most a key. -/
theorem events_of_no_word (h : s.word? = none) :
    s.outcome.events = s.machine.keyEvents s.input.keys := by
  obtain hidle | ⟨hawake, hpc⟩ | ⟨word, hfetch⟩ := s.machine.step_trichotomy s.input
  · rw [outcome, Machine.step_of_idle hidle]
    simp [Machine.keyEvents, Keypad.lowest?_eq_none_iff.mpr hidle.2]
  · rw [outcome, Machine.step_of_fault hawake (s.machine.memory.readWord_of_le hpc)]
  · rw [word?_eq_some_iff.mpr hfetch] at h
    contradiction

theorem completed?_of_word (h : s.word? = some word) :
    s.completed? =
      if (s.machine.effect s.input word).fault? = none then some (Instruction.decode word)
      else none := by
  rw [completed?, outcome_of_word h, h]
  cases hfault : (s.machine.effect s.input word).fault? <;> simp [Effect.answer, hfault]

theorem completed?_of_no_word (h : s.word? = none) : s.completed? = none := by
  rw [completed?, h]
  split <;> rfl

end Fetch

theorem events_effect_of_word {word : UInt16} (h : s.word? = some word) :
    (s.machine.effect s.input word).events = s.report?.toList := by
  rw [report?, completed?_of_word h, Machine.effect, Machine.execute_events]
  split <;> rfl

theorem events_eq :
    s.outcome.events =
      s.machine.keyEvents s.input.keys ++ (s.fetched?.toList ++ s.report?.toList) := by
  cases hword : s.word? with
  | none =>
      rw [events_of_no_word hword, fetched?, report?, completed?_of_no_word hword, hword]
      exact (List.append_nil _).symm
  | some word =>
      rw [outcome_of_word hword, s.events_effect_of_word hword, fetched?, hword]
      rfl

/-! ### The reports of one kind -/

section Unknown

variable {s} {word : UInt16}

end Unknown

end Stage

end Chip8
