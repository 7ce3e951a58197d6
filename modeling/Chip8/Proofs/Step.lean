import Chip8.Machine.Run
import Chip8.Proofs.Memory

/-!
The ways in which a step can go. It is idle while a register waits and no key is held. Otherwise the
waiting register gets its key and the timers their time, and then either the fetch faults or one
instruction is executed. Each way has its equation here; nothing else opens the step.
-/

namespace Chip8

/-- What a step answers whose instruction has this effect. -/
def Effect.answer (effect : Effect) : Except Fault Bool :=
  match effect.fault? with
  | some fault => .error fault
  | none => .ok effect.machine.isHalted

namespace Effect

theorem answer_eq_error_iff {effect : Effect} {fault : Fault} :
    effect.answer = .error fault ↔ effect.fault? = some fault := by
  unfold answer
  split <;> simp_all

theorem fault?_of_answer_ok {effect : Effect} {halted : Bool} (h : effect.answer = .ok halted) :
    effect.fault? = none := by
  unfold answer at h
  split at h
  · contradiction
  · assumption

end Effect

namespace Machine

/-- A step with this input is idle: a register waits for a key, and no key is held. -/
def Idle (m : Machine) (input : Input) : Prop :=
  m.waiting?.isSome ∧ input.keys = .released

instance (m : Machine) (input : Input) : Decidable (m.Idle input) :=
  inferInstanceAs (Decidable (_ ∧ _))

/-- The machine with the held key in the register that waits for one. -/
def receive (m : Machine) (keys : Keypad) : Machine :=
  match m.waiting?, keys.lowest? with
  | some x, some key => m.takeKey x key
  | _, _ => m

def keyEvents (m : Machine) (keys : Keypad) : List Event :=
  match m.waiting?, keys.lowest? with
  | some x, some key => [.keyStored key x]
  | _, _ => []

/-- The machine as the fetch of a step finds it. -/
def ready (m : Machine) (input : Input) : Machine :=
  ({ m with keys := input.keys, beep := false }.receive input.keys).tick input.elapsed

def effect (m : Machine) (input : Input) (word : UInt16) : Effect :=
  (m.ready input).advance.execute input (Instruction.decode word)

/-- The step gets as far as an instruction, and `word` is the instruction. -/
def Fetches (m : Machine) (input : Input) (word : UInt16) : Prop :=
  ¬m.Idle input ∧ m.memory.readWord m.pc.toNat = .ok word

/-! ### What the fetch finds

Before the fetch a step touches the registers, the timers, the wait, the held keys and the beep flag
only. -/

section Ready

variable (m : Machine) (input : Input)

theorem receive_frame (keys : Keypad) :
    m.receive keys =
      { m with
        registers := (m.receive keys).registers
        waiting? := (m.receive keys).waiting? } := by
  unfold receive
  split <;> rfl

/-- A key finds its register whatever was held before, and whatever the clock is. -/
theorem receive_with (keys held : Keypad) (t : Timers) (b : Bool) :
    { m with keys := held, timers := t, beep := b }.receive keys =
      { m.receive keys with keys := held, timers := t, beep := b } := by
  cases hw : m.waiting? <;> cases hk : keys.lowest? <;> simp [receive, hw, hk, takeKey]

/-- The fetch finds what the key leaves, with the held keys, and with the timers and the beep flag
that the time leaves. -/
theorem ready_eq :
    m.ready input =
      { m.receive input.keys with
        keys := input.keys
        timers := (m.timers.advance input.elapsed).1
        beep := (m.timers.advance input.elapsed).2 } :=
  congrArg (tick · input.elapsed) (m.receive_with input.keys input.keys m.timers false)

theorem ready_registers : (m.ready input).registers = (m.receive input.keys).registers := by
  rw [ready_eq]

@[simp] theorem ready_pc : (m.ready input).pc = m.pc := by
  unfold ready
  rw [receive_frame]
  rfl

@[simp] theorem ready_index : (m.ready input).index = m.index := by
  unfold ready
  rw [receive_frame]
  rfl

@[simp] theorem ready_stack : (m.ready input).stack = m.stack := by
  unfold ready
  rw [receive_frame]
  rfl

@[simp] theorem ready_memory : (m.ready input).memory = m.memory := by
  unfold ready
  rw [receive_frame]
  rfl

@[simp] theorem ready_screen : (m.ready input).screen = m.screen := by
  unfold ready
  rw [receive_frame]
  rfl

@[simp] theorem ready_keys : (m.ready input).keys = input.keys := by
  rw [ready_eq]

@[simp] theorem ready_timers : (m.ready input).timers = (m.timers.advance input.elapsed).1 := by
  unfold ready
  rw [receive_frame]
  rfl

end Ready

/-! ### The equations of a step -/

theorem step_of_idle {m : Machine} {input : Input} (h : m.Idle input) :
    m.step input = ⟨{ m with keys := .released, beep := false }, .ok false, []⟩ := by
  obtain ⟨x, hx⟩ := Option.isSome_iff_exists.mp h.1
  have hkey : input.keys.lowest? = none := Keypad.lowest?_eq_none_iff.mpr h.2
  simp only [step, hx, hkey]
  rw [h.2]

theorem step_of_not_idle {m : Machine} {input : Input} (h : ¬m.Idle input) :
    m.step input =
      { (m.ready input).runInstruction input with
        events := m.keyEvents input.keys ++ ((m.ready input).runInstruction input).events } := by
  cases hw : m.waiting? with
  | none => simp [step, ready, receive, keyEvents, hw]
  | some x =>
      cases hk : input.keys.lowest? with
      -- without a key the step is idle after all
      | none => exact absurd ⟨by simp [hw], Keypad.lowest?_eq_none_iff.mp hk⟩ h
      | some key => simp [step, ready, receive, keyEvents, hw, hk, takeKey]

/-- A step whose fetch faults has taken its key and its time, and nothing else. -/
theorem step_of_fault {m : Machine} {input : Input} {fault : Fault} (h : ¬m.Idle input)
    (hfetch : m.memory.readWord m.pc.toNat = .error fault) :
    m.step input = ⟨m.ready input, .error fault, m.keyEvents input.keys⟩ := by
  simp [step_of_not_idle h, runInstruction, hfetch]

theorem step_of_fetches {m : Machine} {input : Input} {word : UInt16} (h : m.Fetches input word) :
    m.step input =
      ⟨(m.effect input word).machine, (m.effect input word).answer,
        m.keyEvents input.keys ++ .fetched m.pc word :: (m.effect input word).events⟩ := by
  rw [step_of_not_idle h.1]
  simp only [runInstruction, ready_memory, ready_pc, h.2]
  rfl

/-- An instruction is fetched exactly where both of its bytes are in memory. -/
theorem fetches_iff {m : Machine} {input : Input} {word : UInt16} :
    m.Fetches input word ↔
      ¬m.Idle input ∧ m.pc.toNat + 1 < Memory.size ∧ word = m.memory.peekWord m.pc.toNat := by
  by_cases h : m.pc.toNat + 1 < Memory.size
  · simp [Fetches, m.memory.readWord_of_lt h, h, eq_comm]
  · simp [Fetches, m.memory.readWord_of_le (Nat.not_lt.mp h), h]

theorem Fetches.pc_lt {m : Machine} {input : Input} {word : UInt16} (h : m.Fetches input word) :
    m.pc.toNat + 1 < Memory.size :=
  (fetches_iff.mp h).2.1

/-- Every step is idle, faults at the fetch, or executes an instruction. -/
theorem step_trichotomy (m : Machine) (input : Input) :
    m.Idle input ∨ (¬m.Idle input ∧ Memory.size ≤ m.pc.toNat + 1) ∨
      ∃ word, m.Fetches input word := by
  by_cases hidle : m.Idle input
  · exact .inl hidle
  · by_cases hpc : m.pc.toNat + 1 < Memory.size
    · exact .inr (.inr ⟨_, fetches_iff.mpr ⟨hidle, hpc, rfl⟩⟩)
    · exact .inr (.inl ⟨hidle, Nat.not_lt.mp hpc⟩)

end Machine

end Chip8
