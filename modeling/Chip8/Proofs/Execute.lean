import Chip8.Machine.Execute
import Chip8.Proofs.Memory

/-!
What an instruction does to the control of the machine, that is, to its program counter and its call
stack, and how it can fail. Both are said for all instructions at once.
-/

namespace Chip8

inductive Need where
  /-- A free place on the call stack. -/
  | place
  /-- So many bytes of memory from the index on. -/
  | bytes (count : Nat)

def Instruction.need : Instruction → Need
  | .call _ => .place
  | .draw _ _ n => .bytes n.val
  | .storeDecimal _ => .bytes 3
  | .storeRegisters x | .loadRegisters x => .bytes (x.val + 1)
  | _ => .bytes 0

theorem Instruction.need_eq_place_iff {i : Instruction} :
    i.need = .place ↔ ∃ nnn, i = .call nnn := by
  cases i <;> simp [need]

theorem Registers.length_upTo (r : Registers) (x : Register) : (r.upTo x).length = x.val + 1 := by
  rw [upTo, List.length_take, Vector.length_toList]
  exact Nat.min_eq_left x.isLt

namespace Machine

/-- The fault of an instruction whose need is not met. -/
def unmet? (m : Machine) : Need → Option Fault
  | .place =>
    if m.stack.depth < CallStack.capacity then none else some (.stackOverflow m.stack.depth)
  | .bytes count => Memory.overrun? m.index.toNat count

/-- The ways in which an instruction hands on control. The program counter of the first machine
already points behind the instruction. -/
inductive Transfer (m : Machine) : Machine → Prop where
  | next {m' : Machine} (hpc : m'.pc = m.pc) (hstack : m'.stack = m.stack) : Transfer m m'
  | skip {m' : Machine} (hpc : m'.pc = m.pc + 2) (hstack : m'.stack = m.stack) : Transfer m m'
  | jump {m' : Machine} (nnn : Address) (hpc : m'.pc = nnn.toWord)
      (hstack : m'.stack = m.stack) : Transfer m m'
  | jumpOffset {m' : Machine} (nnn : Address)
      (hpc : m'.pc = nnn.toWord + (m.registers.get .offset).toUInt16)
      (hstack : m'.stack = m.stack) : Transfer m m'
  | call {m' : Machine} (nnn : Address) (hroom : m.stack.depth < CallStack.capacity)
      (hpc : m'.pc = nnn.toWord) (hstack : m'.stack = ⟨m.pc :: m.stack.frames⟩) : Transfer m m'
  | ret {m' : Machine} {address : UInt16} {rest : List UInt16}
      (hframes : m.stack.frames = address :: rest)
      (hpc : m'.pc = address) (hstack : m'.stack = ⟨rest⟩) : Transfer m m'

/-! ### Calls and returns -/

theorem call_of_lt {m : Machine} (nnn : Address) (h : m.stack.depth < CallStack.capacity) :
    m.call nnn =
      .reporting { m with stack := ⟨m.pc :: m.stack.frames⟩, pc := nnn.toWord }
        (.called nnn (m.stack.depth + 1)) := by
  have hpush : m.stack.push m.pc = .ok ⟨m.pc :: m.stack.frames⟩ := by simp [CallStack.push, h]
  simp only [call, hpush]
  rfl

theorem call_of_le {m : Machine} (nnn : Address) (h : CallStack.capacity ≤ m.stack.depth) :
    m.call nnn = ⟨m, some (.stackOverflow m.stack.depth), []⟩ := by
  simp [call, CallStack.push, Nat.not_lt.mpr h]

theorem ret_of_nil {m : Machine} (h : m.stack.frames = []) :
    m.ret = .reporting m .returnIgnored := by
  simp [ret, CallStack.pop?, h]

theorem ret_of_cons {m : Machine} {address : UInt16} {rest : List UInt16}
    (h : m.stack.frames = address :: rest) :
    m.ret = .silent { m with stack := ⟨rest⟩, pc := address } := by
  simp [ret, CallStack.pop?, h]

theorem call_frame (m : Machine) (nnn : Address) :
    (m.call nnn).machine =
      { m with stack := (m.call nnn).machine.stack, pc := (m.call nnn).machine.pc } := by
  unfold call
  split <;> rfl

theorem ret_frame (m : Machine) :
    m.ret.machine = { m with stack := m.ret.machine.stack, pc := m.ret.machine.pc } := by
  unfold ret
  split <;> rfl

/-! ### Instructions that work on memory -/

section Access

variable (m : Machine) (x y : Register)

theorem passRegisters_frame :
    m.passRegisters x = { m with index := (m.passRegisters x).index } := by
  unfold passRegisters
  split <;> rfl

theorem draw_frame (n : Nat) :
    (m.draw x y n).machine =
      { m with
        registers := (m.draw x y n).machine.registers
        screen := (m.draw x y n).machine.screen } := by
  unfold draw
  dsimp only
  split <;> rfl

/-- Drawing writes the flag register and no other. -/
theorem draw_registers (n : Nat) :
    ∃ flag, (m.draw x y n).machine.registers = m.registers.set .flag flag := by
  unfold draw
  dsimp only
  split <;> exact ⟨_, rfl⟩

theorem draw_fault? (n : Nat) : (m.draw x y n).fault? = Memory.overrun? m.index.toNat n := by
  rw [← m.memory.readRun_fault?]
  unfold draw
  dsimp only
  split <;> simp [*, Effect.reporting]

theorem storeRegisters_frame :
    (m.storeRegisters x).machine =
      { m with
        index := (m.storeRegisters x).machine.index
        memory := (m.storeRegisters x).machine.memory } := by
  unfold storeRegisters
  dsimp only
  split
  · rw [passRegisters_frame]
  · rfl

theorem storeRegisters_memory :
    (m.storeRegisters x).machine.memory =
      (m.memory.writeRun m.index.toNat (m.registers.upTo x)).1 := by
  unfold storeRegisters passRegisters
  dsimp only
  split
  · split <;> rfl
  · rfl

/-- The index moves only when the setting lets it and all was stored. -/
theorem storeRegisters_index (h : (m.storeRegisters x).machine.index ≠ m.index) :
    m.settings.loadStore = false ∧ (m.storeRegisters x).fault? = none := by
  unfold storeRegisters passRegisters at h ⊢
  dsimp only at h ⊢
  split at h
  · rename_i hnone
    refine ⟨?_, Option.isNone_iff_eq_none.mp hnone⟩
    cases hset : m.settings.loadStore with
    | false => rfl
    | true => exact absurd (by rw [if_pos hset]) h
  · exact absurd rfl h

theorem storeRegisters_fault? :
    (m.storeRegisters x).fault? = Memory.overrun? m.index.toNat (x.val + 1) := by
  rw [← m.registers.length_upTo x, ← m.memory.writeRun_fault?]
  rfl

theorem storeDecimal_fault? : (m.storeDecimal x).fault? = Memory.overrun? m.index.toNat 3 :=
  m.memory.writeRun_fault? m.index.toNat (decimalDigits (m.registers.get x))

theorem loadRegisters_frame :
    (m.loadRegisters x).machine =
      { m with
        index := (m.loadRegisters x).machine.index
        registers := (m.loadRegisters x).machine.registers } := by
  unfold loadRegisters
  dsimp only
  split
  · rw [passRegisters_frame]
  · rfl

theorem loadRegisters_registers :
    (m.loadRegisters x).machine.registers =
      m.registers.fill (m.memory.readRun m.index.toNat (x.val + 1)).1 := by
  unfold loadRegisters passRegisters
  dsimp only
  split
  · split <;> rfl
  · rfl

theorem loadRegisters_index (h : (m.loadRegisters x).machine.index ≠ m.index) :
    m.settings.loadStore = false ∧ (m.loadRegisters x).fault? = none := by
  unfold loadRegisters passRegisters at h ⊢
  dsimp only at h ⊢
  split at h
  · rename_i hnone
    refine ⟨?_, Option.isNone_iff_eq_none.mp hnone⟩
    cases hset : m.settings.loadStore with
    | false => rfl
    | true => exact absurd (by rw [if_pos hset]) h
  · exact absurd rfl h

theorem loadRegisters_fault? :
    (m.loadRegisters x).fault? = Memory.overrun? m.index.toNat (x.val + 1) :=
  m.memory.readRun_fault? m.index.toNat (x.val + 1)

end Access

/-! ### All instructions -/

/-- An instruction fails exactly when its need is not met. -/
theorem execute_fault? (m : Machine) (input : Input) (i : Instruction) :
    (m.execute input i).fault? = m.unmet? i.need := by
  cases i with
  | call nnn =>
      by_cases hroom : m.stack.depth < CallStack.capacity
      · simp [execute, call_of_lt nnn hroom, hroom, Effect.reporting, Instruction.need, unmet?]
      · simp [execute, call_of_le nnn (Nat.not_lt.mp hroom), hroom, Instruction.need, unmet?]
  | ret =>
      cases hframes : m.stack.frames with
      | nil => simp [execute, ret_of_nil hframes, Effect.reporting, Instruction.need, unmet?]
      | cons address rest =>
          simp [execute, ret_of_cons hframes, Effect.silent, Instruction.need, unmet?]
  | draw x y n => exact m.draw_fault? x y n.val
  | storeDecimal x => exact m.storeDecimal_fault? x
  | storeRegisters x => exact m.storeRegisters_fault? x
  | loadRegisters x => exact m.loadRegisters_fault? x
  | _ => simp [execute, Effect.silent, Effect.reporting, Instruction.need, unmet?]

theorem execute_transfer (m : Machine) (input : Input) (i : Instruction) :
    m.Transfer (m.execute input i).machine := by
  -- a call without room and a return without a call go on like any other instruction
  cases i with
  | ret =>
      simp only [execute]
      cases hframes : m.stack.frames with
      | nil =>
          rw [ret_of_nil hframes]
          exact .next rfl rfl
      | cons address rest =>
          rw [ret_of_cons hframes]
          exact .ret hframes rfl rfl
  | jump nnn => exact .jump nnn rfl rfl
  | jumpOffset nnn => exact .jumpOffset nnn rfl rfl
  | call nnn =>
      simp only [execute]
      by_cases hroom : m.stack.depth < CallStack.capacity
      · rw [call_of_lt nnn hroom]
        exact .call nnn hroom rfl rfl
      · rw [call_of_le nnn (Nat.not_lt.mp hroom)]
        exact .next rfl rfl
  | skipIf condition =>
      simp only [execute, Effect.silent]
      split
      · exact .skip rfl rfl
      · exact .next rfl rfl
  | draw x y n =>
      simp only [execute]
      rw [draw_frame]
      exact .next rfl rfl
  | storeRegisters x =>
      simp only [execute]
      rw [storeRegisters_frame]
      exact .next rfl rfl
  | loadRegisters x =>
      simp only [execute]
      rw [loadRegisters_frame]
      exact .next rfl rfl
  | _ => exact .next rfl rfl

/-- No instruction touches the time gathered for the next tick. -/
theorem execute_gathered (m : Machine) (input : Input) (i : Instruction) :
    (m.execute input i).machine.timers.gathered = m.timers.gathered := by
  cases i with
  | ret =>
      simp only [execute]
      rw [ret_frame]
  | call nnn =>
      simp only [execute]
      rw [call_frame]
  | skipIf condition =>
      simp only [execute, Effect.silent]
      split <;> rfl
  | draw x y n =>
      simp only [execute]
      rw [draw_frame]
  | storeRegisters x =>
      simp only [execute]
      rw [storeRegisters_frame]
  | loadRegisters x =>
      simp only [execute]
      rw [loadRegisters_frame]
  | _ => rfl

end Machine

end Chip8
