import Chip8.Proofs.Settings

/-!
Transfers between registers and memory. Registers are stored and loaded, and decimal digits are
written, one byte after the other, as far as there is memory. What is transferred up to the fault is
a prefix of what was asked for, and the index moves only behind a transfer that is whole.
-/

namespace Chip8

namespace Registers

theorem getElem?_upTo (r : Registers) (x j : Register) :
    (r.upTo x)[j.val]? = if j ≤ x then some (r.get j) else none := by
  have hj : j.val < r.values.toList.length := by
    rw [Vector.length_toList]
    exact j.isLt
  rw [upTo, List.getElem?_take, List.getElem?_eq_getElem hj, Vector.getElem_toList]
  exact ite_congr (propext Nat.lt_succ_iff) (fun _ => rfl) fun _ => rfl

theorem getElem_upTo (r : Registers) {x j : Register} (h : j ≤ x)
    (hlt : j.val < (r.upTo x).length) : (r.upTo x)[j.val] = r.get j := by
  rw [← Option.some_inj, ← List.getElem?_eq_getElem hlt, getElem?_upTo, if_pos h]

end Registers

namespace Machine

section Transfer

variable (m : Machine) (x : Register)

/-! ### Registers and memory -/

theorem peek_storeRegisters {j : Register} (h : j ≤ x) (hin : m.index.toNat + j.val < Memory.size) :
    (m.storeRegisters x).machine.memory.peek (m.index.toNat + j.val) = m.registers.get j := by
  have hlt : j.val < (m.registers.upTo x).length := by
    rw [Registers.length_upTo]
    exact Nat.lt_succ_of_le h
  rw [storeRegisters_memory, Memory.peek_writeRun_of_lt _ hlt hin, m.registers.getElem_upTo h]

theorem get_loadRegisters (j : Register) :
    (m.loadRegisters x).machine.registers.get j =
      if j.val < min (x.val + 1) (Memory.size - m.index.toNat) then
        m.memory.peek (m.index.toNat + j.val)
      else m.registers.get j := by
  rw [loadRegisters_registers, Registers.get_fill, Memory.getElem?_readRun]
  split <;> rfl

section Bulk

variable {m x} {input : Input} {i : Instruction}
  (hi : i = .storeRegisters x ∨ i = .loadRegisters x)

include hi

theorem bulk_fault? :
    (m.execute input i).fault? =
      if min (x.val + 1) (Memory.size - m.index.toNat) = x.val + 1 then none
      else some (.memoryFault (max m.index.toNat Memory.size)) := by
  rw [← Memory.overrun?_eq_ite, execute_fault?]
  rcases hi with rfl | rfl <;> rfl

/-- The index never wraps when it moves, since what it moves over is in memory. -/
theorem toNat_bulk_index :
    (m.execute input i).machine.index.toNat =
      if min (x.val + 1) (Memory.size - m.index.toNat) = x.val + 1 ∧
          m.settings.loadStore = false then
        m.index.toNat + x.val + 1
      else m.index.toNat := by
  rw [m.bulk_index x input hi, bulk_fault? hi]
  by_cases hwhole : min (x.val + 1) (Memory.size - m.index.toNat) = x.val + 1
  · rw [if_pos hwhole, Option.isNone_none, if_pos rfl]
    cases hset : m.settings.loadStore with
    | false =>
        rw [Settings.toNat_indexBehind hset, if_pos ⟨hwhole, rfl⟩]
        simp only [Memory.size] at hwhole
        omega
    | true => rw [Settings.indexBehind_of_loadStore hset, if_neg (by simp)]
  · have hmoves : ¬(min (x.val + 1) (Memory.size - m.index.toNat) = x.val + 1 ∧
        m.settings.loadStore = false) := fun h => hwhole h.1
    rw [if_neg hwhole, if_neg hmoves]
    rfl

end Bulk

/-! ### Decimal digits -/

theorem exists_decimalDigits (value : UInt8) :
    ∃ hundreds tens ones : UInt8, decimalDigits value = [hundreds, tens, ones] ∧
      hundreds.toNat ≤ 9 ∧ tens.toNat ≤ 9 ∧ ones.toNat ≤ 9 ∧
        100 * hundreds.toNat + 10 * tens.toNat + ones.toNat = value.toNat := by
  have hlt := value.toNat_lt
  refine ⟨_, _, _, rfl, ?_⟩
  simp only [UInt8.toNat_div, UInt8.toNat_mod, UInt8.reduceToNat]
  omega

theorem storeDecimal_fault?_eq_ite :
    (m.storeDecimal x).fault? =
      if Memory.size < m.index.toNat + 3 then some (.memoryFault (max m.index.toNat Memory.size))
      else none := by
  rw [storeDecimal_fault?, Memory.overrun?]
  exact ite_congr (propext (and_iff_right (by decide))) (fun _ => rfl) fun _ => rfl

end Transfer

/-- Storing, loading and writing digits act on exactly the part that fits, in order.

Of the registers up to `x` those are stored, and loaded, for which there is a byte of memory; the
other registers and bytes stay, and so does every other part of the machine. The transfer succeeds
if it was whole. Then the index is behind it, unless the setting keeps it in place; otherwise the
index stays, and the fault names the first byte that was missing. The same holds of the three
decimal digits of a register, which never move the index. -/
theorem transfers_exactly_what_fits (m : Machine) (input : Input) (x : Register) :
    let i := m.index.toNat
    let k := min (x.val + 1) (4096 - i)
    let stored := m.execute input (.storeRegisters x)
    let loaded := m.execute input (.loadRegisters x)
    let decimal := m.execute input (.storeDecimal x)
    ((∀ j : Register, j.val < k →
        stored.machine.memory.peek (i + j.val) = m.registers.get j) ∧
      (∀ a, a < i ∨ i + k ≤ a → stored.machine.memory.peek a = m.memory.peek a) ∧
      stored.machine =
        { m with memory := stored.machine.memory, index := stored.machine.index }) ∧
    ((∀ j : Register,
        loaded.machine.registers.get j =
          if j.val < k then m.memory.peek (i + j.val) else m.registers.get j) ∧
      loaded.machine =
        { m with registers := loaded.machine.registers, index := loaded.machine.index }) ∧
    (∀ effect ∈ [stored, loaded],
      effect.fault? = (if k = x.val + 1 then none else some (.memoryFault (max i 4096))) ∧
      effect.machine.index.toNat =
        (if k = x.val + 1 ∧ m.settings.loadStore = false then i + x.val + 1 else i) ∧
      (k = x.val + 1 → i + x.val + 1 ≤ 4096)) ∧
    ∃ hundreds tens ones : UInt8,
      (hundreds.toNat ≤ 9 ∧ tens.toNat ≤ 9 ∧ ones.toNat ≤ 9 ∧
        100 * hundreds.toNat + 10 * tens.toNat + ones.toNat = (m.registers.get x).toNat) ∧
      (∀ j, ∀ hj : j < 3, j < min 3 (4096 - i) →
        decimal.machine.memory.peek (i + j) = [hundreds, tens, ones][j]) ∧
      (∀ a, a < i ∨ i + min 3 (4096 - i) ≤ a →
        decimal.machine.memory.peek a = m.memory.peek a) ∧
      decimal.machine = { m with memory := decimal.machine.memory } ∧
      decimal.fault? = if 4096 < i + 3 then some (.memoryFault (max i 4096)) else none := by
  intro i k stored loaded decimal
  have hk : k = min (x.val + 1) (Memory.size - i) := rfl
  refine ⟨⟨fun j hj => ?_, fun a ha => ?_, m.storeRegisters_frame x⟩,
    ⟨m.get_loadRegisters x, m.loadRegisters_frame x⟩, fun effect heffect => ?_, ?_⟩
  · exact m.peek_storeRegisters x (Nat.le_of_lt_succ (by omega)) (by omega)
  · have hmemory : stored.machine.memory = _ := m.storeRegisters_memory x
    rw [hmemory, Memory.peek_writeRun_of_outside]
    rw [Registers.length_upTo]
    exact ha
  · have hbulk : ∃ instruction, effect = m.execute input instruction ∧
        (instruction = .storeRegisters x ∨ instruction = .loadRegisters x) := by
      rcases List.mem_pair.mp heffect with rfl | rfl
      · exact ⟨_, rfl, .inl rfl⟩
      · exact ⟨_, rfl, .inr rfl⟩
    obtain ⟨instruction, rfl, hi⟩ := hbulk
    exact ⟨bulk_fault? hi, toNat_bulk_index hi, fun hwhole => by omega⟩
  · obtain ⟨hundreds, tens, ones, hdigits, hvalue⟩ := exists_decimalDigits (m.registers.get x)
    have hmemory : decimal.machine.memory = (m.memory.writeRun i [hundreds, tens, ones]).1 := by
      rw [← hdigits]
      rfl
    refine ⟨hundreds, tens, ones, hvalue, fun j hj hin => ?_, fun a ha => ?_, rfl,
      m.storeDecimal_fault?_eq_ite x⟩
    · rw [hmemory]
      exact m.memory.peek_writeRun_of_lt hj (by simp only [Memory.size]; omega)
    · rw [hmemory]
      exact m.memory.peek_writeRun_of_outside ha

end Machine

end Chip8
