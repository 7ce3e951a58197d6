import Chip8.Proofs.Reachable

/-!
What a step answers. Whether it fails, and how, is read off the word at the program counter, the
index and the depth of the calls; a step that succeeds says whether the machine has halted, unless
it is idle.
-/

namespace Chip8

namespace Opcode

def IsCall (word : UInt16) : Prop := (digit word 3).val = 0x2

/-- The word names an instruction that reaches behind the end of memory from this index on: a sprite
with rows, the decimal digits, or the registers to store or to load. -/
def Overruns (word index : UInt16) : Prop :=
  ((digit word 3).val = 0xD ∧ 0 < (digit word 0).val ∧
    4096 < index.toNat + (digit word 0).val) ∨
  ((digit word 3).val = 0xF ∧ (lowByte word).toNat = 0x33 ∧ 4096 < index.toNat + 3) ∨
  ((digit word 3).val = 0xF ∧ ((lowByte word).toNat = 0x55 ∨ (lowByte word).toNat = 0x65) ∧
    4096 < index.toNat + (digit word 2).val + 1)

instance (word : UInt16) : Decidable (IsCall word) := inferInstanceAs (Decidable (_ = _))

instance (word index : UInt16) : Decidable (Overruns word index) :=
  inferInstanceAs (Decidable (_ ∨ _))

theorem IsCall.not_overruns {word index : UInt16} (h : IsCall word) : ¬Overruns word index := by
  simp only [IsCall] at h
  simp only [Overruns, h]
  omega

theorem need_ofLowByte? (x : Register) (byte : Nat) (word : UInt16) :
    ((Instruction.ofLowByte? x byte).getD (.unknown word)).need =
      if byte = 0x33 then .bytes 3
      else if byte = 0x55 ∨ byte = 0x65 then .bytes (x.val + 1)
      else .bytes 0 := by
  unfold Instruction.ofLowByte?
  split <;> simp_all [Instruction.need]

/-- The need of an instruction, read off the digits of its word. -/
theorem need_decode (word : UInt16) :
    (Instruction.decode word).need =
      if (digit word 3).val = 0x2 then .place
      else if (digit word 3).val = 0xD then .bytes (digit word 0).val
      else if (digit word 3).val = 0xF then
        if (lowByte word).toNat = 0x33 then .bytes 3
        else if (lowByte word).toNat = 0x55 ∨ (lowByte word).toNat = 0x65 then
          .bytes ((digit word 2).val + 1)
        else .bytes 0
      else .bytes 0 := by
  unfold Instruction.decode
  dsimp only
  split
  case h_1 hfamily =>
    rw [hfamily]
    split
    · rfl
    · split <;> rfl
  -- the families that a low digit or the low byte splits further
  case h_6 hfamily | h_9 hfamily | h_10 hfamily | h_15 hfamily =>
    rw [hfamily]
    split <;> rfl
  case h_16 =>
    have hfamily : (digit word 3).val = 0xF := by
      have hlt := (digit word 3).isLt
      simp only [imp_false] at *
      omega
    rw [hfamily]
    exact need_ofLowByte? ..
  all_goals
    rename_i hfamily
    rw [hfamily]
    rfl

theorem IsCall.need {word : UInt16} (h : IsCall word) :
    (Instruction.decode word).need = .place := by
  rw [need_decode, if_pos (show (digit word 3).val = 0x2 from h)]

end Opcode

namespace Machine

theorem unmet?_decode (m : Machine) (word : UInt16) :
    m.unmet? (Instruction.decode word).need =
      if Opcode.IsCall word then
        if m.stack.depth < CallStack.capacity then none else some (.stackOverflow m.stack.depth)
      else if Opcode.Overruns word m.index then
        some (.memoryFault (max m.index.toNat Memory.size))
      else none := by
  by_cases hcall : Opcode.IsCall word
  · rw [hcall.need, if_pos hcall, unmet?]
  · have hfamily : ¬(Opcode.digit word 3).val = 0x2 := hcall
    rw [Opcode.need_decode, if_neg hfamily, if_neg hcall]
    by_cases hdraw : (Opcode.digit word 3).val = 0xD
    · simp [Opcode.Overruns, hdraw, unmet?, Memory.overrun?, Memory.size]
    · by_cases hlast : (Opcode.digit word 3).val = 0xF
      · by_cases hdecimal : (Opcode.lowByte word).toNat = 0x33
        · simp [Opcode.Overruns, hlast, hdecimal, unmet?, Memory.overrun?, Memory.size]
        · by_cases hbulk : (Opcode.lowByte word).toNat = 0x55 ∨ (Opcode.lowByte word).toNat = 0x65
          · simp [Opcode.Overruns, hlast, hdecimal, hbulk, unmet?, Memory.overrun?, Memory.size,
              Nat.add_assoc]
          · simp [Opcode.Overruns, hlast, hdecimal, hbulk, unmet?]
      · simp [Opcode.Overruns, hdraw, hlast, unmet?]

/-- Getting ready for the fetch leaves the stack and the index, and so every need, as they are. -/
theorem ready_unmet? (m : Machine) (input : Input) (need : Need) :
    (m.ready input).advance.unmet? need = m.unmet? need := by
  cases need <;> simp [unmet?, advance]

theorem step_result_of_met {m : Machine} {input : Input} {word : UInt16}
    (h : m.Fetches input word) (hmet : m.unmet? (Instruction.decode word).need = none) :
    (m.step input).result = .ok (m.step input).machine.isHalted := by
  rw [step_of_fetches h]
  simp only [Effect.answer, effect, execute_fault?, ready_unmet?, hmet]

theorem step_result_of_unmet {m : Machine} {input : Input} {word : UInt16} {fault : Fault}
    (h : m.Fetches input word)
    (hunmet : m.unmet? (Instruction.decode word).need = some fault) :
    (m.step input).result = .error fault := by
  rw [step_of_fetches h]
  simp only [Effect.answer, effect, execute_fault?, ready_unmet?, hunmet]

/-- The answer of a step that executes an instruction. On a reachable machine a full stack holds
exactly 254 return addresses. -/
theorem Reachable.step_result {m : Machine} (hm : Reachable m) {input : Input} {word : UInt16}
    (h : m.Fetches input word) :
    (m.step input).result =
      if Opcode.IsCall word ∧ m.stack.depth = 254 then .error (.stackOverflow 254)
      else if Opcode.Overruns word m.index then .error (.memoryFault (max m.index.toNat 4096))
      else .ok (m.step input).machine.isHalted := by
  have hunmet := m.unmet?_decode word
  by_cases hcall : Opcode.IsCall word
  · -- only here reachability matters: the depth is at most 254, so a full stack has that depth
    have hdepth := hm.bounded.depth_le
    by_cases hfull : m.stack.depth = 254
    · rw [if_pos ⟨hcall, hfull⟩]
      apply step_result_of_unmet h
      simpa [hcall, hfull] using hunmet
    · rw [if_neg (fun hboth => hfull hboth.2), if_neg hcall.not_overruns]
      apply step_result_of_met h
      have hroom : m.stack.depth < 254 := Nat.lt_of_le_of_ne hdepth hfull
      simpa [hcall, hroom] using hunmet
  · rw [if_neg (fun hboth => hcall hboth.1)]
    rw [if_neg hcall] at hunmet
    split
    · rename_i hover
      exact step_result_of_unmet h (by rw [hunmet, if_pos hover])
    · rename_i hover
      exact step_result_of_met h (by rw [hunmet, if_neg hover])

/-- A fault is a full stack of 254 calls, or the address of a byte behind the end of memory. -/
theorem Reachable.fault_of_step {m : Machine} (hm : Reachable m) {input : Input} {fault : Fault}
    (h : (m.step input).result = .error fault) :
    fault = .stackOverflow 254 ∨
      ∃ address, fault = .memoryFault address ∧ 4096 ≤ address ∧ address ≤ 65535 := by
  have hmax (address : UInt16) :
      4096 ≤ max address.toNat 4096 ∧ max address.toNat 4096 ≤ 65535 := by
    have hlt := address.toNat_lt
    omega
  obtain hidle | ⟨hawake, hpc⟩ | ⟨word, hfetch⟩ := m.step_trichotomy input
  · rw [step_of_idle hidle] at h
    contradiction
  · rw [step_of_fault hawake (m.memory.readWord_of_le hpc)] at h
    cases h
    exact .inr ⟨_, rfl, hmax m.pc⟩
  · rw [hm.step_result hfetch] at h
    split at h
    · cases h
      exact .inl rfl
    · split at h
      · cases h
        exact .inr ⟨_, rfl, hmax m.index⟩
      · cases h

/-- Exactly when a step fails, and how. An idle step succeeds. Any other step fails in the fetch
when the program counter is at or behind the last byte of memory, and otherwise because of the word
there: a call with every place taken, or an access behind the end of memory. -/
theorem step_fails_exactly {m : Machine} (hm : Reachable m) (input : Input) :
    (m.Idle input → (m.step input).result = .ok false) ∧
    (¬m.Idle input → 0xFFF ≤ m.pc.toNat →
      (m.step input).result = .error (.memoryFault (max m.pc.toNat 4096))) ∧
    (¬m.Idle input → m.pc.toNat < 0xFFF →
      let word := m.memory.peekWord m.pc.toNat
      let overflows := Opcode.IsCall word ∧ m.stack.depth = 254
      let overruns := Opcode.Overruns word m.index
      ((m.step input).result = .error (.stackOverflow 254) ↔ overflows) ∧
        ((m.step input).result = .error (.memoryFault (max m.index.toNat 4096)) ↔ overruns) ∧
        (¬overflows → ¬overruns → ∃ halted, (m.step input).result = .ok halted)) ∧
    ∀ fault, (m.step input).result = .error fault →
      fault = .stackOverflow 254 ∨
        ∃ address, fault = .memoryFault address ∧ 4096 ≤ address ∧ address ≤ 65535 := by
  have hsize : Memory.size = 4096 := rfl
  refine ⟨fun hidle => by rw [step_of_idle hidle], ?_, ?_, fun fault => hm.fault_of_step⟩
  · intro hawake hpc
    rw [step_of_fault hawake (m.memory.readWord_of_le (by omega))]
  · intro hawake hpc word overflows overruns
    -- a call accesses no memory, so that the two faults exclude each other
    have hfetch : m.Fetches input word := fetches_iff.mpr ⟨hawake, by omega, rfl⟩
    rw [hm.step_result hfetch]
    by_cases hover : overflows
    · have hruns : ¬overruns := hover.1.not_overruns
      rw [if_pos hover]
      exact ⟨by simp [hover], by simp [hruns], fun hno => absurd hover hno⟩
    · rw [if_neg hover]
      by_cases hruns : overruns
      · rw [if_pos hruns]
        exact ⟨by simp [hover], by simp [hruns], fun _ hno => absurd hruns hno⟩
      · rw [if_neg hruns]
        exact ⟨by simp [hover], by simp [hruns], fun _ _ => ⟨_, rfl⟩⟩

/-- Storing two registers into the last byte of memory and the one behind it. -/
theorem step_fails_exactly_at_the_end :
    let m := (build [0xAF, 0xFF, 0xF1, 0x55] Font.builtIn 0).1.run [⟨.released, 17, 0⟩]
    Reachable m ∧ (m.step ⟨.released, 17, 0⟩).result = .error (.memoryFault 4096) := by
  intro m
  have hm : Reachable m := (Reachable.build _ _ _).run _
  have hexact := (step_fails_exactly hm ⟨.released, 17, 0⟩).2.2.1 (by decide +kernel)
    (by decide +kernel)
  have hindex : max m.index.toNat 4096 = 4096 := by decide +kernel
  rw [hindex] at hexact
  exact ⟨hm, hexact.2.1.mpr (by decide +kernel)⟩

/-! ### Success and halting -/

theorem isHalted_iff {m : Machine} : m.isHalted = true ↔ Memory.size ≤ m.pc.toNat := by
  simp [isHalted]

theorem isHalted_step_of_idle {m : Machine} {input : Input} (h : m.Idle input) :
    (m.step input).machine.isHalted = m.isHalted := by
  rw [step_of_idle h]
  rfl

/-- An instruction that succeeds answers whether it has led out of memory. -/
theorem eq_isHalted_of_answer {effect : Effect} {halted : Bool} (h : effect.answer = .ok halted) :
    halted = effect.machine.isHalted := by
  unfold Effect.answer at h
  split at h
  · contradiction
  · cases h
    rfl

/-- The answer of a step that succeeds. From within memory, it is whether the program counter has
left memory. From outside memory only an idle step succeeds, and it answers that the machine has not
halted although it has. -/
theorem step_answers_halted {m : Machine} {input : Input} {halted : Bool}
    (h : (m.step input).result = .ok halted) :
    (m.isHalted = false → halted = (m.step input).machine.isHalted) ∧
      (m.isHalted = true →
        m.Idle input ∧ halted = false ∧ (m.step input).machine.isHalted = true) := by
  obtain hidle | ⟨hawake, hpc⟩ | ⟨word, hfetch⟩ := m.step_trichotomy input
  · rw [isHalted_step_of_idle hidle]
    rw [step_of_idle hidle] at h
    cases h
    exact ⟨fun hin => hin.symm, fun hout => ⟨hidle, rfl, hout⟩⟩
  · rw [step_of_fault hawake (m.memory.readWord_of_le hpc)] at h
    contradiction
  · have hin := hfetch.pc_lt
    rw [step_of_fetches hfetch] at h ⊢
    refine ⟨fun _ => eq_isHalted_of_answer h, fun hout => ?_⟩
    rw [isHalted_iff] at hout
    omega

/-- A program that stores the instruction to wait for a key in the last two bytes of memory and goes
there, just after it has begun to wait. -/
def waitingAtEnd : Machine :=
  (build [0x60, 0xF0, 0x61, 0x0A, 0xAF, 0xFE, 0xF1, 0x55, 0x1F, 0xFE] Font.builtIn 0).1.run
    (List.replicate 6 ⟨.released, 0, 0⟩)

theorem waitingAtEnd_idle_and_isHalted :
    waitingAtEnd.Idle ⟨.released, 0, 0⟩ ∧ waitingAtEnd.isHalted = true := by
  decide +kernel

theorem step_answers_halted_waiting_at_end :
    (waitingAtEnd.step ⟨.released, 0, 0⟩).result = .ok false ∧
      waitingAtEnd.Idle ⟨.released, 0, 0⟩ ∧
      (waitingAtEnd.step ⟨.released, 0, 0⟩).machine.isHalted = true := by
  obtain ⟨hidle, hout⟩ := waitingAtEnd_idle_and_isHalted
  have hanswer : (waitingAtEnd.step ⟨.released, 0, 0⟩).result = .ok false := by
    rw [step_of_idle hidle]
  have hexact := (step_answers_halted hanswer).2 hout
  exact ⟨hanswer, hexact.1, hexact.2.2⟩

/-- Not every step that succeeds answers whether the machine has halted. -/
theorem exists_answer_ne_isHalted :
    ¬∀ (m : Machine) (input : Input) (halted : Bool), Reachable m →
      (m.step input).result = .ok halted → halted = (m.step input).machine.isHalted := by
  intro hall
  obtain ⟨hidle, hout⟩ := waitingAtEnd_idle_and_isHalted
  have hm : Reachable waitingAtEnd := (Reachable.build _ _ _).run _
  have hanswer : (waitingAtEnd.step ⟨.released, 0, 0⟩).result = .ok false := by
    rw [step_of_idle hidle]
  have hfalse := hall waitingAtEnd ⟨.released, 0, 0⟩ false hm hanswer
  rw [isHalted_step_of_idle hidle, hout] at hfalse
  exact Bool.false_ne_true hfalse

end Machine

end Chip8
