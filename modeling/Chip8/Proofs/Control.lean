import Chip8.Proofs.Execute
import Chip8.Proofs.Step

/-!
Control is the program counter together with the call stack. It changes by moves of five kinds, and
a step is a short list of them: an advance behind the instruction, and then what the instruction
asks for. Only a call can fail as a move. An array with an index can stand for control as well, and
makes the same moves.
-/

namespace Chip8

structure Control where
  pc : UInt16
  stack : CallStack
  deriving DecidableEq, Repr

inductive Move where
  /-- On to the next instruction. -/
  | advance
  /-- Over the next instruction. -/
  | skip
  | jump (target : UInt16)
  | call (target : Address)
  | ret
  deriving DecidableEq, Repr

namespace Control

def initial : Control := ⟨0x200, .empty⟩

/-- The control after a move, and the fault of a call that finds no place. -/
def move (c : Control) : Move → Control × Option Fault
  | .advance | .skip => ({ c with pc := c.pc + 2 }, none)
  | .jump target => ({ c with pc := target }, none)
  | .call target =>
    match c.stack.push c.pc with
    | .ok stack => (⟨target.toWord, stack⟩, none)
    | .error fault => (c, some fault)
  | .ret =>
    match c.stack.pop? with
    | some (address, stack) => (⟨address, stack⟩, none)
    | none => (c, none)

def follow (c : Control) (moves : List Move) : Control :=
  moves.foldl (fun control move => (control.move move).1) c

@[simp] theorem follow_nil (c : Control) : c.follow [] = c := rfl

@[simp] theorem follow_cons (c : Control) (move : Move) (rest : List Move) :
    c.follow (move :: rest) = (c.move move).1.follow rest := rfl

theorem follow_append (c : Control) (moves rest : List Move) :
    c.follow (moves ++ rest) = (c.follow moves).follow rest :=
  List.foldl_append

theorem move_call_of_lt {c : Control} (target : Address)
    (h : c.stack.depth < CallStack.capacity) :
    c.move (.call target) = (⟨target.toWord, ⟨c.pc :: c.stack.frames⟩⟩, none) := by
  simp [move, CallStack.push, h]

theorem move_call_of_le {c : Control} (target : Address)
    (h : CallStack.capacity ≤ c.stack.depth) :
    c.move (.call target) = (c, some (.stackOverflow c.stack.depth)) := by
  simp [move, CallStack.push, Nat.not_lt.mpr h]

theorem move_ret_of_nil {c : Control} (h : c.stack.frames = []) : c.move .ret = (c, none) := by
  simp [move, CallStack.pop?, h]

theorem move_ret_of_cons {c : Control} {address : UInt16} {rest : List UInt16}
    (h : c.stack.frames = address :: rest) : c.move .ret = (⟨address, ⟨rest⟩⟩, none) := by
  simp [move, CallStack.pop?, h]

/-- A return leads to the newest return address, if there is one. -/
theorem pc_move_ret (c : Control) : (c.move .ret).1.pc = c.stack.frames.head?.getD c.pc := by
  cases hframes : c.stack.frames with
  | nil => rw [move_ret_of_nil hframes]; rfl
  | cons address rest => rw [move_ret_of_cons hframes]; rfl

end Control

/-! ### The same control in one array -/

/-- The slot at the index holds the program counter, and the slots below it the return addresses.
What earlier calls left above the index never matters. -/
structure Slots where
  values : Vector UInt16 255
  top : Fin 255

namespace Slots

/-- Programs start at 0x200, with the index at the first slot. -/
def initial : Slots := ⟨(Vector.replicate 255 0).set 0 0x200, 0⟩

/-- The program counter. -/
def live (s : Slots) : UInt16 := s.values[s.top]

/-- The return addresses, the oldest first. -/
def saved (s : Slots) : List UInt16 := s.values.toList.take s.top

def put (s : Slots) (value : UInt16) : Slots := { s with values := s.values.set s.top value }

theorem succ_top_lt {s : Slots} (h : s.top.val ≠ 254) : s.top.val + 1 < 255 := by
  have htop := s.top.isLt
  omega

theorem pred_top_lt (s : Slots) : s.top.val - 1 < 255 :=
  Nat.lt_of_le_of_lt (Nat.sub_le _ _) s.top.isLt

def overflows (s : Slots) : Move → Bool
  | .call _ => s.top.val == 254
  | _ => false

/-- The slots after a move. A call that overflows leaves them as they are, and so does a return at
the first slot. -/
def move (s : Slots) : Move → Slots
  | .advance | .skip => s.put (s.live + 2)
  | .jump target => s.put target
  | .call target =>
    if h : s.top.val = 254 then s
    else
      { values := s.values.set (s.top.val + 1) target.toWord (succ_top_lt h)
        top := ⟨s.top.val + 1, succ_top_lt h⟩ }
  | .ret =>
    if s.top.val = 0 then s
    else { s with top := ⟨s.top.val - 1, s.pred_top_lt⟩ }

def follow (s : Slots) (moves : List Move) : Slots := moves.foldl move s

/-- Whether one of the moves is a call that overflows when its turn comes. -/
def overflowsIn (s : Slots) : List Move → Bool
  | [] => false
  | move :: rest => s.overflows move || (s.move move).overflowsIn rest

end Slots

/-! ### The moves of a machine -/

namespace Machine

def control (m : Machine) : Control := ⟨m.pc, m.stack⟩

/-- The move that an instruction asks for. -/
def move? (m : Machine) : Instruction → Option Move
  | .ret => some .ret
  | .jump nnn => some (.jump nnn.toWord)
  | .jumpOffset nnn => some (.jump (nnn.toWord + (m.registers.get .offset).toUInt16))
  | .call nnn => some (.call nnn)
  | .skipIf condition => if m.holds condition then some .skip else none
  | _ => none

def moves (m : Machine) (input : Input) : List Move :=
  if m.Idle input then []
  else
    match m.memory.readWord m.pc.toNat with
    | .error _ => []
    | .ok word => .advance :: ((m.ready input).move? (Instruction.decode word)).toList

def runMoves (m : Machine) : List Input → List Move
  | [] => []
  | input :: rest => m.moves input ++ (m.step input).machine.runMoves rest

/-! ### What a step does to control -/

theorem control_call (m : Machine) (nnn : Address) :
    (m.call nnn).machine.control = (m.control.move (.call nnn)).1 := by
  simp only [call, Control.move, control]
  cases m.stack.push m.pc <;> rfl

theorem control_ret (m : Machine) : m.ret.machine.control = (m.control.move .ret).1 := by
  simp only [ret, Control.move, control]
  cases m.stack.pop? <;> rfl

/-- An instruction changes control by the move that it asks for. -/
theorem control_execute (m : Machine) (input : Input) (i : Instruction) :
    (m.execute input i).machine.control = m.control.follow (m.move? i).toList := by
  cases i with
  | ret => exact m.control_ret
  | call nnn => exact m.control_call nnn
  | skipIf condition =>
      simp only [execute, Effect.silent, move?]
      split <;> rfl
  | draw x y n =>
      simp only [execute]
      rw [draw_frame]
      rfl
  | storeRegisters x =>
      simp only [execute]
      rw [storeRegisters_frame]
      rfl
  | loadRegisters x =>
      simp only [execute]
      rw [loadRegisters_frame]
      rfl
  | _ => rfl

theorem overrun?_ne_stackOverflow (address count depth : Nat) :
    Memory.overrun? address count ≠ some (.stackOverflow depth) := by
  unfold Memory.overrun?
  split <;> simp

/-- An instruction overflows the stack exactly if it asks for a call when the stack is full. -/
theorem execute_overflow_iff (m : Machine) (input : Input) (i : Instruction) (depth : Nat) :
    (m.execute input i).fault? = some (.stackOverflow depth) ↔
      (∃ target, m.move? i = some (.call target)) ∧
        CallStack.capacity ≤ m.stack.depth ∧ m.stack.depth = depth := by
  rw [execute_fault?]
  cases i with
  | call nnn => simp [Instruction.need, unmet?, move?]
  | skipIf condition =>
      simp only [Instruction.need, unmet?, move?]
      split <;> simp
  | _ => simp [Instruction.need, unmet?, move?, overrun?_ne_stackOverflow]

/-- What an instruction asks for does not depend on where it stands. -/
theorem advance_move? (m : Machine) (i : Instruction) : m.advance.move? i = m.move? i := by
  cases i <;> rfl

theorem moves_of_idle {m : Machine} {input : Input} (h : m.Idle input) : m.moves input = [] :=
  if_pos h

theorem moves_of_fault {m : Machine} {input : Input} (hpc : Memory.size ≤ m.pc.toNat + 1) :
    m.moves input = [] := by
  simp [moves, m.memory.readWord_of_le hpc]

theorem moves_of_fetches {m : Machine} {input : Input} {word : UInt16} (h : m.Fetches input word) :
    m.moves input = .advance :: ((m.ready input).move? (Instruction.decode word)).toList := by
  simp [moves, h.1, h.2]

theorem control_ready (m : Machine) (input : Input) : (m.ready input).control = m.control := by
  simp [control]

theorem control_step (m : Machine) (input : Input) :
    (m.step input).machine.control = m.control.follow (m.moves input) := by
  obtain hidle | ⟨hawake, hpc⟩ | ⟨word, hfetch⟩ := m.step_trichotomy input
  · rw [step_of_idle hidle, moves_of_idle hidle]
    rfl
  · rw [step_of_fault hawake (m.memory.readWord_of_le hpc), moves_of_fault hpc]
    exact m.control_ready input
  · rw [step_of_fetches hfetch, moves_of_fetches hfetch]
    rw [effect, control_execute, advance_move?, Control.follow_cons, ← control_ready m input]
    rfl

theorem control_run (m : Machine) (inputs : List Input) :
    (m.run inputs).control = m.control.follow (m.runMoves inputs) := by
  induction inputs generalizing m with
  | nil => rfl
  | cons input rest ih =>
      rw [runMoves, Control.follow_append, ← control_step]
      exact ih (m.step input).machine

end Machine

end Chip8
