import Chip8.Proofs.Control
import Chip8.Proofs.Encoding
import Chip8.Proofs.Results

/-!
Where the program counter goes, read off the word that a step executes. A word jumps, calls,
returns, skips or goes on to the next word, and a word that faults goes on as well.
-/

namespace Chip8

namespace Opcode

/-- The word is a skip whose condition holds. -/
def Skips (word : UInt16) (registers : Registers) (keys : Keypad) : Prop :=
  let first := (digit word 3).val
  let last := (digit word 0).val
  let byte := (lowByte word).toNat
  let vx := registers.get (digit word 2)
  let vy := registers.get (digit word 1)
  (first = 0x3 ∧ vx = lowByte word) ∨
  (first = 0x4 ∧ vx ≠ lowByte word) ∨
  (first = 0x5 ∧ last = 0 ∧ vx = vy) ∨
  (first = 0x9 ∧ last = 0 ∧ vx ≠ vy) ∨
  (first = 0xE ∧ byte = 0x9E ∧ vx.toNat < 16 ∧ keys.mask.toNat.testBit vx.toNat) ∨
  (first = 0xE ∧ byte = 0xA1 ∧ (16 ≤ vx.toNat ∨ ¬keys.mask.toNat.testBit vx.toNat))

instance (word : UInt16) (registers : Registers) (keys : Keypad) :
    Decidable (Skips word registers keys) :=
  inferInstanceAs (Decidable (_ ∨ _))

/-- Where the word at an address leads if it succeeds. -/
def next (word : UInt16) (registers : Registers) (keys : Keypad) (stack : CallStack)
    (address : Nat) : Nat :=
  let first := (digit word 3).val
  if first = 0x1 ∨ first = 0x2 then (lowAddress word).val
  else if first = 0xB then (lowAddress word).val + (registers.get .offset).toNat
  else if word = 0x00EE then (stack.frames.head?.map UInt16.toNat).getD (address + 2)
  else if Skips word registers keys then address + 4
  else address + 2

end Opcode

namespace Machine

theorem move?_ofLowByte? (m : Machine) (x : Register) (byte : Nat) (word : UInt16) :
    m.move? ((Instruction.ofLowByte? x byte).getD (.unknown word)) = none := by
  unfold Instruction.ofLowByte?
  split <;> rfl

theorem keyCondition?_eq_ite (x : Register) (byte : Nat) :
    Instruction.keyCondition? x byte =
      if byte = 0x9E then some (.keyHeld x)
      else if byte = 0xA1 then some (.keyFree x)
      else none := by
  unfold Instruction.keyCondition?
  split <;> simp_all

/-- The move that a word asks for, read off its digits. -/
theorem move?_decode (m : Machine) (word : UInt16) :
    m.move? (Instruction.decode word) =
      let first := (Opcode.digit word 3).val
      let nnn := Opcode.lowAddress word
      if first = 0x1 then some (.jump nnn.toWord)
      else if first = 0x2 then some (.call nnn)
      else if first = 0xB then some (.jump (nnn.toWord + (m.registers.get .offset).toUInt16))
      else if word = 0x00EE then some .ret
      else if Opcode.Skips word m.registers m.keys then some .skip
      else none := by
  have hret (hfirst : (Opcode.digit word 3).val ≠ 0) : word ≠ 0x00EE :=
    (Opcode.ne_of_digit_three_ne_zero word hfirst).2
  unfold Instruction.decode
  dsimp only
  split
  case h_1 h =>
    simp only [h, Opcode.Skips]
    split
    · simp_all [move?]
    · split <;> simp_all [move?]
  case h_2 h | h_3 h | h_12 h =>
    simp only [h]
    rfl
  case h_4 h | h_5 h =>
    have hword := hret (by omega)
    simp [h, hword, move?, holds, Opcode.Skips]
  case h_6 h | h_10 h =>
    have hword := hret (by omega)
    split <;> simp_all [move?, holds, Opcode.Skips]
  case h_7 h | h_8 h | h_11 h | h_13 h | h_14 h =>
    have hword := hret (by omega)
    simp [h, hword, move?, Opcode.Skips]
  case h_9 h =>
    have hword := hret (by omega)
    split <;> simp [h, hword, move?, Opcode.Skips]
  case h_15 h =>
    have hword := hret (by omega)
    rw [keyCondition?_eq_ite]
    by_cases hheld : (Opcode.lowByte word).toNat = 0x9E
    · simp [h, hword, hheld, move?, holds, Keypad.isHeld, Opcode.Skips]
    · by_cases hfree : (Opcode.lowByte word).toNat = 0xA1
      · simp [h, hword, hfree, move?, holds, Keypad.isHeld, Opcode.Skips]
      · simp [h, hword, hheld, hfree, move?, Opcode.Skips]
  case h_16 =>
    have h : (Opcode.digit word 3).val = 0xF := by grind
    have hword := hret (by omega)
    rw [move?_ofLowByte?]
    simp [h, hword, Opcode.Skips]

/-- A call fails exactly on a full stack. -/
theorem call_fault?_eq_none_iff (m : Machine) (input : Input) (nnn : Address) :
    (m.execute input (.call nnn)).fault? = none ↔ m.stack.depth < CallStack.capacity := by
  rw [execute_fault?]
  simp [Instruction.need, unmet?]

/-- An instruction that faults leaves control as it found it. -/
theorem control_of_fault {m : Machine} {input : Input} {i : Instruction} {fault : Fault}
    (h : (m.execute input i).fault? = some fault) :
    (m.execute input i).machine.control = m.control := by
  rw [control_execute]
  cases i with
  | call nnn =>
      have hfull : ¬m.stack.depth < CallStack.capacity := by
        rw [← m.call_fault?_eq_none_iff input nnn, h]
        exact Option.some_ne_none fault
      exact congrArg Prod.fst (Control.move_call_of_le nnn (Nat.not_lt.mp hfull))
  | draw | storeDecimal | storeRegisters | loadRegisters => rfl
  | _ =>
      rw [execute_fault?] at h
      simp [Instruction.need, unmet?] at h

/-- The program counter after an instruction that succeeds. Before, it points behind the address of
the instruction. -/
theorem pc_of_success {m : Machine} {input : Input} {word : UInt16} {address : Nat}
    (hpc : m.pc.toNat = address + 2) (hlow : address + 1 < Memory.size)
    (h : (m.execute input (Instruction.decode word)).fault? = none) :
    (m.execute input (Instruction.decode word)).machine.pc.toNat =
      Opcode.next word m.registers m.keys m.stack address := by
  have hcontrol := congrArg Control.pc (m.control_execute input (Instruction.decode word))
  rw [move?_decode] at hcontrol
  change (m.execute input (Instruction.decode word)).machine.pc = _ at hcontrol
  rw [hcontrol, Opcode.next]
  dsimp only
  by_cases hjump : (Opcode.digit word 3).val = 0x1
  · rw [if_pos hjump, if_pos (.inl hjump)]
    exact (Opcode.lowAddress word).toNat_toWord
  by_cases hcall : (Opcode.digit word 3).val = 0x2
  · have hroom : m.stack.depth < CallStack.capacity := by
      rw [execute_fault?, Opcode.IsCall.need hcall] at h
      simpa [unmet?] using h
    rw [if_neg hjump, if_pos hcall, if_pos (.inr hcall), Option.toList_some, Control.follow_cons,
      Control.move_call_of_lt _ hroom]
    exact (Opcode.lowAddress word).toNat_toWord
  rw [if_neg hjump, if_neg hcall, if_neg (not_or.mpr ⟨hjump, hcall⟩)]
  by_cases hoffset : (Opcode.digit word 3).val = 0xB
  · rw [if_pos hoffset, if_pos hoffset]
    exact (Opcode.lowAddress word).toNat_toWord_add (m.registers.get .offset)
  rw [if_neg hoffset, if_neg hoffset]
  by_cases hret : word = 0x00EE
  · rw [if_pos hret, if_pos hret, Option.toList_some, Control.follow_cons, Control.follow_nil,
      Control.pc_move_ret, ← hpc]
    exact Option.getD_map UInt16.toNat m.pc m.stack.frames.head? |>.symm
  rw [if_neg hret, if_neg hret]
  split
  · have hon := toNat_advance_pc (m := m) (by omega)
    rw [hpc] at hon
    exact hon
  · exact hpc

/-- The program counter after a step that fetches `word`. -/
theorem pc_step_of_fetches {m : Machine} {input : Input} {word : UInt16}
    (h : m.Fetches input word) :
    (m.step input).machine.pc.toNat =
      if (m.step input).result.isOk then
        Opcode.next word (m.receive input.keys).registers input.keys m.stack m.pc.toNat
      else m.pc.toNat + 2 := by
  have hbehind := h.toNat_advance_pc
  have hlow := h.pc_lt
  have hregisters : (m.ready input).advance.registers = (m.receive input.keys).registers :=
    m.ready_registers input
  have hkeys : (m.ready input).advance.keys = input.keys := m.ready_keys input
  have hstack : (m.ready input).advance.stack = m.stack := m.ready_stack input
  rw [step_of_fetches h]
  dsimp only
  cases hanswer : (m.effect input word).answer with
  | error fault =>
      have hfault := Effect.answer_eq_error_iff.mp hanswer
      have hpc := congrArg Control.pc (control_of_fault hfault)
      rw [← hbehind]
      exact congrArg UInt16.toNat hpc
  | ok halted =>
      have hfault := Effect.fault?_of_answer_ok hanswer
      rw [← hregisters, ← hkeys, ← hstack]
      exact pc_of_success hbehind hlow hfault

/-- A step that fetches nothing, because it is idle or because there is no word at the program
counter, leaves the program counter where it is. -/
theorem pc_step_of_not_fetches {m : Machine} {input : Input}
    (h : ∀ word, ¬m.Fetches input word) : (m.step input).machine.pc = m.pc := by
  obtain hidle | ⟨hawake, hpc⟩ | ⟨word, hfetch⟩ := m.step_trichotomy input
  · rw [step_of_idle hidle]
  · rw [step_of_fault hawake (m.memory.readWord_of_le hpc), ready_pc]
  · exact absurd hfetch (h word)

/-- Where every step leaves the program counter. The registers are those that the instruction finds,
with a key that was waited for in its register. -/
theorem pc_step (m : Machine) (input : Input) :
    (∀ word, m.Fetches input word →
      (m.step input).machine.pc.toNat =
        if (m.step input).result.isOk then
          Opcode.next word (m.receive input.keys).registers input.keys m.stack m.pc.toNat
        else m.pc.toNat + 2) ∧
    ((∀ word, ¬m.Fetches input word) → (m.step input).machine.pc = m.pc) :=
  ⟨fun _ => pc_step_of_fetches, pc_step_of_not_fetches⟩

/-- The key that was waited for decides the skip behind the wait, and without a key the machine
stays there. -/
theorem pc_step_with_awaited_key :
    let m := (build [0xF1, 0x0A, 0xE1, 0x9E] Font.builtIn 0).1.run [⟨.released, 0, 0⟩]
    let press : Input := ⟨⟨0x20⟩, 0, 0⟩
    let poll : Input := ⟨.released, 0, 0⟩
    m.Fetches press 0xE19E ∧ (m.step press).machine.pc.toNat = 0x206 ∧
      m.Idle poll ∧ (m.step poll).machine.pc = m.pc := by
  intro m press poll
  have hfetch : m.Fetches press 0xE19E :=
    fetches_iff.mpr ⟨by decide +kernel, by decide +kernel, by decide +kernel⟩
  have hidle : m.Idle poll := by decide +kernel
  refine ⟨hfetch, ?_, hidle, (pc_step m poll).2 fun word hpoll => hpoll.1 hidle⟩
  rw [(pc_step m press).1 _ hfetch]
  decide +kernel

end Machine

end Chip8
