import Chip8.Memory

/-!
Memory as a function from addresses to bytes, and the faults of its accesses. A run of accesses
faults exactly when it reaches behind the last byte, and names the first address that is missing.
-/

namespace Chip8.Memory

/-- The byte at an address, zero outside memory. -/
def peek (m : Memory) (address : Nat) : UInt8 := m.bytes[address]?.getD 0

def peekWord (m : Memory) (address : Nat) : UInt16 := word (m.peek address) (m.peek (address + 1))

/-- The fault of `count` accesses from `address` on, if they do not all fit. -/
def overrun? (address count : Nat) : Option Fault :=
  if 0 < count ∧ size < address + count then some (.memoryFault (max address size)) else none

theorem eq_of_peek {m m' : Memory} (h : ∀ address < size, m.peek address = m'.peek address) :
    m = m' := by
  refine congrArg Memory.mk (Vector.ext fun address hlt => ?_)
  simpa [peek, hlt] using h address hlt

theorem peek_set (m : Memory) {address : Nat} (h : address < size) (byte : UInt8) (a : Nat) :
    Memory.peek ⟨m.bytes.set address byte⟩ a = if address = a then byte else m.peek a := by
  simp only [peek, Vector.getElem?_set]
  split <;> simp [*]

theorem read_eq_peek (m : Memory) {address : Nat} (h : address < size) :
    m.read address = .ok (m.peek address) := by
  simp [read_of_lt m h, peek, h]

theorem readWord_of_lt (m : Memory) {address : Nat} (h : address + 1 < size) :
    m.readWord address = .ok (m.peekWord address) := by
  have hhigh : address < size := by omega
  simp only [readWord, m.read_eq_peek hhigh, m.read_eq_peek h, peekWord]

/-- A word that is not all in memory faults at its first missing byte. -/
theorem readWord_of_le (m : Memory) {address : Nat} (h : size ≤ address + 1) :
    m.readWord address = .error (.memoryFault (max address size)) := by
  by_cases hhigh : address < size
  · have hlow : max address size = address + 1 := by omega
    simp only [readWord, m.read_eq_peek hhigh, m.read_of_le h, hlow]
  · have hmax : max address size = address := by omega
    simp only [readWord, m.read_of_le (Nat.not_lt.mp hhigh), hmax]

@[simp] theorem overrun?_zero (address : Nat) : overrun? address 0 = none := by
  simp [overrun?]

/-- The first access of a run faults, or the rest of the run decides. -/
theorem overrun?_succ (address count : Nat) :
    overrun? address (count + 1) =
      if address < size then overrun? (address + 1) count
      else some (.memoryFault address) := by
  unfold overrun?
  by_cases hlt : address < size
  · have hrest : (0 < count + 1 ∧ size < address + (count + 1)) ↔
        0 < count ∧ size < address + 1 + count := by omega
    have hmax : max (address + 1) size = max address size := by omega
    simp only [if_pos hlt, hrest, hmax]
  · have hover : 0 < count + 1 ∧ size < address + (count + 1) := by omega
    have hmax : max address size = address := by omega
    rw [if_neg hlt, if_pos hover, hmax]

theorem readRun_fault? (m : Memory) (address count : Nat) :
    (m.readRun address count).2 = overrun? address count := by
  induction count generalizing address with
  | zero => simp [readRun]
  | succ count ih =>
      rw [overrun?_succ]
      by_cases h : address < size
      · simp only [readRun, m.read_eq_peek h, if_pos h]
        exact ih (address + 1)
      · simp only [readRun, m.read_of_le (Nat.not_lt.mp h), if_neg h]

theorem writeRun_fault? (m : Memory) (address : Nat) (bytes : List UInt8) :
    (m.writeRun address bytes).2 = overrun? address bytes.length := by
  induction bytes generalizing m address with
  | nil => simp [writeRun]
  | cons byte rest ih =>
      rw [List.length_cons, overrun?_succ]
      by_cases h : address < size
      · simp only [writeRun, dif_pos h, if_pos h]
        exact ih _ (address + 1)
      · simp only [writeRun, dif_neg h, if_neg h]

theorem length_readRun_le (m : Memory) (address count : Nat) :
    (m.readRun address count).1.length ≤ count := by
  induction count generalizing address with
  | zero => exact Nat.le_refl 0
  | succ count ih =>
      by_cases h : address < size
      · simp only [readRun, m.read_eq_peek h, List.length_cons]
        exact Nat.succ_le_succ (ih (address + 1))
      · simp [readRun, m.read_of_le (Nat.not_lt.mp h)]

/-- A run of accesses faults unless there is a byte for each of them. -/
theorem overrun?_eq_ite (address count : Nat) :
    overrun? address count =
      if min count (size - address) = count then none
      else some (.memoryFault (max address size)) := by
  have hfits : (0 < count ∧ size < address + count) ↔ ¬min count (size - address) = count := by
    omega
  simp only [overrun?, hfits, ite_not]

/-- A run of reads gives the bytes from its address on, as many as there are. -/
theorem getElem?_readRun (m : Memory) (address count i : Nat) :
    (m.readRun address count).1[i]? =
      if i < min count (size - address) then some (m.peek (address + i)) else none := by
  induction count generalizing address i with
  | zero => simp [readRun]
  | succ count ih =>
      by_cases h : address < size
      · simp only [readRun, m.read_eq_peek h]
        cases i with
        | zero =>
            rw [List.getElem?_cons_zero, if_pos (by omega)]
            rfl
        | succ i =>
            have hrest : i < min count (size - (address + 1)) ↔
                i + 1 < min (count + 1) (size - address) := by omega
            simp only [List.getElem?_cons_succ, ih, hrest, Nat.add_assoc, Nat.add_comm 1 i]
      · rw [readRun, m.read_of_le (Nat.not_lt.mp h), if_neg (by omega)]
        rfl

/-- A run of writes puts its bytes one behind the other, as far as they fit, and keeps the rest. -/
theorem peek_writeRun (m : Memory) (address : Nat) (bytes : List UInt8) (a : Nat) :
    (m.writeRun address bytes).1.peek a =
      if address ≤ a ∧ a < size then bytes[a - address]?.getD (m.peek a) else m.peek a := by
  induction bytes generalizing m address with
  | nil => simp [writeRun]
  | cons byte rest ih =>
      by_cases h : address < size
      · simp only [writeRun, dif_pos h]
        rw [ih, m.peek_set h]
        obtain hbefore | rfl | hbehind := Nat.lt_trichotomy a address
        · rw [if_neg (by omega), if_neg (by omega), if_neg (by omega)]
        · rw [if_neg (by omega), if_pos rfl, if_pos ⟨Nat.le_refl a, h⟩, Nat.sub_self]
          rfl
        · have hplace : a - address = (a - (address + 1)) + 1 := by omega
          have hin : address + 1 ≤ a ∧ a < size ↔ address ≤ a ∧ a < size := by omega
          simp only [if_neg (Nat.ne_of_lt hbehind), hin, hplace, List.getElem?_cons_succ]
      · have hout : ¬(address ≤ a ∧ a < size) := by omega
        simp only [writeRun, dif_neg h, if_neg hout]

theorem peek_writeRun_of_lt (m : Memory) {address i : Nat} {bytes : List UInt8}
    (h : i < bytes.length) (hin : address + i < size) :
    (m.writeRun address bytes).1.peek (address + i) = bytes[i] := by
  rw [peek_writeRun, if_pos ⟨Nat.le_add_right address i, hin⟩, Nat.add_sub_cancel_left,
    List.getElem?_eq_getElem h, Option.getD_some]

/-- A run of writes changes bytes of memory only, and only where it has bytes to write. -/
theorem of_peek_writeRun_ne {m : Memory} {address : Nat} {bytes : List UInt8} {a : Nat}
    (h : (m.writeRun address bytes).1.peek a ≠ m.peek a) :
    a < size ∧ address ≤ a ∧ a < address + bytes.length := by
  rw [peek_writeRun] at h
  by_cases hin : address ≤ a ∧ a < size
  · rw [if_pos hin] at h
    have hlength : a - address < bytes.length := by
      apply Nat.lt_of_not_le
      intro hle
      exact h (by rw [List.getElem?_eq_none hle, Option.getD_none])
    omega
  · exact absurd (if_neg hin) h

theorem peek_writeRun_of_outside (m : Memory) {address : Nat} {bytes : List UInt8} {a : Nat}
    (h : a < address ∨ address + min bytes.length (size - address) ≤ a) :
    (m.writeRun address bytes).1.peek a = m.peek a := by
  apply Decidable.byContradiction
  intro hne
  have hin := of_peek_writeRun_ne hne
  omega

/-! ### Bytes in memory -/

/-- The bytes lie in memory from an address on. -/
def Holds (m : Memory) (address : Nat) (bytes : List UInt8) : Prop :=
  ∀ i, ∀ h : i < bytes.length, m.peek (address + i) = bytes[i]

theorem holds_append {m : Memory} {address : Nat} {bytes bytes' : List UInt8} :
    m.Holds address (bytes ++ bytes') ↔
      m.Holds address bytes ∧ m.Holds (address + bytes.length) bytes' := by
  constructor
  · intro h
    refine ⟨fun i hi => ?_, fun i hi => ?_⟩
    · rw [h i (by rw [List.length_append]; omega), List.getElem_append_left hi]
    · rw [Nat.add_assoc, h (bytes.length + i) (by rw [List.length_append]; omega),
        List.getElem_append_right (Nat.le_add_right ..)]
      simp only [Nat.add_sub_cancel_left]
  · rintro ⟨hfirst, hrest⟩ i hi
    rw [List.length_append] at hi
    by_cases hlt : i < bytes.length
    · rw [hfirst i hlt, List.getElem_append_left hlt]
    · have hplace : address + i = address + bytes.length + (i - bytes.length) := by omega
      rw [hplace, hrest _ (by omega), List.getElem_append_right (Nat.not_lt.mp hlt)]

/-- What a run of writes has written lies in memory. -/
theorem holds_writeRun (m : Memory) {address : Nat} {bytes : List UInt8}
    (h : address + bytes.length ≤ size) : (m.writeRun address bytes).1.Holds address bytes := by
  intro i hi
  exact m.peek_writeRun_of_lt hi (by omega)

/-- A run of writes behind some bytes leaves them alone. -/
theorem Holds.writeRun {m : Memory} {address address' : Nat} {bytes : List UInt8}
    (h : m.Holds address bytes) (hbehind : address + bytes.length ≤ address')
    (bytes' : List UInt8) : (m.writeRun address' bytes').1.Holds address bytes := by
  intro i hi
  rw [peek_writeRun, if_neg (by omega), h i hi]

end Chip8.Memory
