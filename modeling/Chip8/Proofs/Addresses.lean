import Chip8.Proofs.Numerals

/-!
Addresses as the user may write them, and what reading them comes to. A number is written in decimal
or, behind one of two marks, in hexadecimal; it is an address for the font if it lies in front of
the program. No text is read as a number that it does not write, whether it is refused or not.
-/

namespace Chip8.CommandLine

/-- The characters that mark a hexadecimal number, behind a zero. -/
def IsMark (mark : Char) : Prop := mark = 'x' ∨ mark = 'X'

/-- The characters write the number, in decimal or behind a mark in hexadecimal. -/
def Writes (text : List Char) (value : Nat) : Prop :=
  Numeral 10 text value ∨
    ∃ mark number, IsMark mark ∧ text = '0' :: mark :: number ∧ Numeral 16 number value

def Marked (text : List Char) : Prop := ∃ mark number, IsMark mark ∧ text = '0' :: mark :: number

/-! ### Marks -/

section Mark

variable {text number : List Char} {mark : Char}

theorem not_numeral_nil (radix value : Nat) : ¬Numeral radix [] value := by
  rintro ⟨digits, hne, -, hspells | ⟨rest, hrest, -⟩⟩
  · exact hne (List.forall₂_nil_right_iff.mp hspells)
  · contradiction

/-- A mark is no decimal digit. -/
theorem not_numeral_mark (hmark : IsMark mark) (value : Nat) :
    ¬Numeral 10 ('0' :: mark :: number) value := by
  have hdigit : digitValue? 10 mark = none := by
    rcases hmark with rfl | rfl <;> decide
  intro h
  obtain ⟨digits, -, -, hspells⟩ := (numeral_iff (by decide)).mp h
  obtain ⟨digits', -, hrest⟩ :=
    (spells_cons_of_digit (by decide) (show digitValue? 10 '0' = some 0 by decide)).mp hspells
  exact not_spells_cons_of_none (by decide) hdigit digits' hrest

theorem eq_zero_of_numeral_zero {value : Nat} (h : Numeral 10 ['0'] value) : value = 0 := by
  obtain ⟨digits, -, rfl, hspells⟩ := (numeral_iff (by decide)).mp h
  obtain ⟨digits', rfl, hrest⟩ :=
    (spells_cons_of_digit (by decide) (show digitValue? 10 '0' = some 0 by decide)).mp hspells
  obtain rfl := List.forall₂_nil_right_iff.mp hrest
  rfl

theorem writes_mark_iff (hmark : IsMark mark) {value : Nat} :
    Writes ('0' :: mark :: number) value ↔ Numeral 16 number value := by
  constructor
  · rintro (h | ⟨mark', number', -, heq, h⟩)
    · exact absurd h (not_numeral_mark hmark value)
    · obtain ⟨-, rfl⟩ := List.cons.inj (List.cons.inj heq).2
      exact h
  · intro h
    exact .inr ⟨mark, number, hmark, rfl, h⟩

theorem writes_iff_of_not_marked (h : ¬Marked text) {value : Nat} :
    Writes text value ↔ Numeral 10 text value := by
  refine or_iff_left ?_
  rintro ⟨mark, number, hmark, htext, -⟩
  exact h ⟨mark, number, hmark, htext⟩

theorem Marked.of_begins {start : List Char} (h : Marked start) (hbegins : start <+: text) :
    Marked text := by
  obtain ⟨mark, number, hmark, rfl⟩ := h
  obtain ⟨rest, rfl⟩ := hbegins
  exact ⟨mark, number ++ rest, hmark, rfl⟩

theorem readMarked_mark (hmark : IsMark mark) :
    readMarked ('0' :: mark :: number) = readNumber 16 number := by
  rcases hmark with rfl | rfl <;> rfl

theorem readMarked_of_not_marked (h : ¬Marked text) : readMarked text = readNumber 10 text := by
  unfold readMarked
  split
  · exact absurd ⟨_, _, .inl rfl, rfl⟩ h
  · exact absurd ⟨_, _, .inr rfl, rfl⟩ h
  · rfl

end Mark

/-! ### Reading -/

section Read

variable {text : List Char}

theorem readMarked_eq_ok_iff {value : Nat} :
    readMarked text = .ok value ↔ Writes text value ∧ value < UInt16.size := by
  by_cases h : Marked text
  · obtain ⟨mark, number, hmark, rfl⟩ := h
    rw [readMarked_mark hmark, writes_mark_iff hmark]
    exact readNumber_eq_ok_iff (Nat.le_refl 16)
  · rw [readMarked_of_not_marked h, writes_iff_of_not_marked h]
    exact readNumber_eq_ok_iff (by decide)

theorem readMarked_eq_tooLarge_iff :
    readMarked text = .error .tooLarge ↔
      ∃ start value, start <+: text ∧ Writes start value ∧ UInt16.size ≤ value := by
  by_cases h : Marked text
  · obtain ⟨mark, number, hmark, rfl⟩ := h
    rw [readMarked_mark hmark, readNumber_eq_tooLarge_iff (Nat.le_refl 16)]
    constructor
    · rintro ⟨start, value, hbegins, hnumeral, hover⟩
      refine ⟨'0' :: mark :: start, value, ?_, (writes_mark_iff hmark).mpr hnumeral, hover⟩
      simpa using hbegins
    · rintro ⟨start, value, hbegins, hwrites, hover⟩
      -- what comes before the digits behind the mark is no number, or the number zero
      rcases List.prefix_cons_iff.mp hbegins with rfl | ⟨start', rfl, hbegins'⟩
      · rw [writes_iff_of_not_marked (by simp [Marked])] at hwrites
        exact absurd hwrites (not_numeral_nil 10 value)
      · rcases List.prefix_cons_iff.mp hbegins' with rfl | ⟨digits, rfl, hdigits⟩
        · rw [writes_iff_of_not_marked (by simp [Marked])] at hwrites
          rw [eq_zero_of_numeral_zero hwrites] at hover
          contradiction
        · exact ⟨digits, value, hdigits, (writes_mark_iff hmark).mp hwrites, hover⟩
  · rw [readMarked_of_not_marked h, readNumber_eq_tooLarge_iff (by decide)]
    refine exists₂_congr fun start value => and_congr_right fun hbegins => ?_
    rw [writes_iff_of_not_marked (mt (Marked.of_begins · hbegins) h)]

theorem readMarked_eq_empty_iff :
    readMarked text = .error .empty ↔ text = [] ∨ text = ['0', 'x'] ∨ text = ['0', 'X'] := by
  by_cases h : Marked text
  · obtain ⟨mark, number, hmark, rfl⟩ := h
    rw [readMarked_mark hmark, readNumber_eq_empty_iff]
    rcases hmark with rfl | rfl <;> simp
  · rw [readMarked_of_not_marked h, readNumber_eq_empty_iff, or_iff_left]
    rintro (rfl | rfl)
    · exact h ⟨'x', [], .inl rfl, rfl⟩
    · exact h ⟨'X', [], .inr rfl, rfl⟩

theorem readAddress_of_error {text : String} {error : NumberError}
    (h : readMarked text.toList = .error error) : readAddress text = .error (.number error) := by
  simp only [readAddress, h]

theorem readAddress_of_ok {text : String} {value : Nat} (h : readMarked text.toList = .ok value) :
    readAddress text =
      if value < Machine.programOffset then .ok (UInt16.ofNat value)
      else .error (.overlapsProgram value) := by
  simp only [readAddress, h]

/-- The number's own errors come first. -/
theorem readAddress_eq_number_iff {text : String} {error : NumberError} :
    readAddress text = .error (.number error) ↔ readMarked text.toList = .error error := by
  cases h : readMarked text.toList with
  | error error' => simp [readAddress_of_error h]
  | ok value =>
      rw [readAddress_of_ok h]
      split <;> simp

theorem readAddress_eq_overlapsProgram_iff {text : String} {value : Nat} :
    readAddress text = .error (.overlapsProgram value) ↔
      readMarked text.toList = .ok value ∧ Machine.programOffset ≤ value := by
  cases h : readMarked text.toList with
  | error error => simp [readAddress_of_error h]
  | ok value' =>
      rw [readAddress_of_ok h]
      split
      · rename_i hlt
        simp only [reduceCtorEq, Except.ok.injEq, false_iff, not_and, Nat.not_le]
        rintro rfl
        exact hlt
      · rename_i hle
        simp only [Except.error.injEq, AddressError.overlapsProgram.injEq, Except.ok.injEq,
          iff_self_and]
        rintro rfl
        exact Nat.not_lt.mp hle

theorem readAddress_eq_ok_iff {text : String} {address : UInt16} :
    readAddress text = .ok address ↔
      readMarked text.toList = .ok address.toNat ∧ address.toNat < Machine.programOffset := by
  cases h : readMarked text.toList with
  | error error => simp [readAddress_of_error h]
  | ok value =>
      have hvalue : value < UInt16.size := (readMarked_eq_ok_iff.mp h).2
      rw [readAddress_of_ok h]
      split
      · rename_i hlt
        simp only [Except.ok.injEq]
        constructor
        · rintro rfl
          rw [UInt16.toNat_ofNat_of_lt' hvalue]
          exact ⟨rfl, hlt⟩
        · rintro ⟨rfl, -⟩
          exact UInt16.ofNat_toNat
      · rename_i hle
        simp only [reduceCtorEq, Except.ok.injEq, false_iff, not_and]
        rintro rfl
        exact hle

end Read

/-! ### Every text

What a text comes to is told by the numbers that it and its beginnings write. -/

/-- A text that writes an address is read as that address. -/
theorem readAddress_of_writes {text : String} {address : UInt16}
    (h : Writes text.toList address.toNat) (hlt : address.toNat < Machine.programOffset) :
    readAddress text = .ok address :=
  readAddress_eq_ok_iff.mpr ⟨readMarked_eq_ok_iff.mpr ⟨h, address.toNat_lt⟩, hlt⟩

theorem exists_number_error_iff {text : String} :
    (∃ error, readAddress text = .error (.number error)) ↔
      ¬∃ value < UInt16.size, Writes text.toList value := by
  simp only [readAddress_eq_number_iff]
  cases h : readMarked text.toList with
  | error error =>
      refine iff_of_true ⟨error, rfl⟩ ?_
      rintro ⟨value, hlt, hwrites⟩
      rw [readMarked_eq_ok_iff.mpr ⟨hwrites, hlt⟩] at h
      contradiction
  | ok value =>
      obtain ⟨hwrites, hlt⟩ := readMarked_eq_ok_iff.mp h
      refine iff_of_false ?_ (not_not_intro ⟨value, hlt, hwrites⟩)
      rintro ⟨error, herror⟩
      contradiction

/-- Which texts are read as an address, as which one, and what is wrong with the others. A text is
an address exactly if it writes a number in front of the program, and the address is that number. A
text that writes a larger number of sixteen bits is refused with this number, and every other text
with an error of its number: that there is none at all, or that a beginning of the text is too large
already, or else that a character is no digit. Written in either radix, with any zeros in front, an
address is read back. -/
theorem readAddress_exactly :
    (∀ text,
      (∀ address, readAddress text = .ok address ↔
        Writes text.toList address.toNat ∧ address.toNat < 512) ∧
      (∀ value, readAddress text = .error (.overlapsProgram value) ↔
        Writes text.toList value ∧ 512 ≤ value ∧ value ≤ 65535) ∧
      ((∃ error, readAddress text = .error (.number error)) ↔
        ¬∃ value ≤ 65535, Writes text.toList value) ∧
      (readAddress text = .error (.number .empty) ↔ text ∈ ["", "0x", "0X"]) ∧
      (readAddress text = .error (.number .tooLarge) ↔
        ∃ start value, start <+: text.toList ∧ Writes start value ∧ 65535 < value)) ∧
    ∀ address : UInt16, address.toNat < 512 → ∀ count,
      let padded (radix : Nat) : String :=
        String.ofList (List.replicate count '0' ++ Nat.toDigits radix address.toNat)
      readAddress (padded 10) = .ok address ∧
        ∀ mark ∈ ["0x", "0X"],
          readAddress (mark ++ padded 16) = .ok address ∧
            readAddress (mark ++ Text.hex count address.toNat) = .ok address := by
  have hsize : UInt16.size = 65535 + 1 := rfl
  refine ⟨fun text => ⟨fun address => ?_, fun value => ?_, ?_, ?_, ?_⟩, ?_⟩
  · have haddress := address.toNat_lt
    rw [readAddress_eq_ok_iff, readMarked_eq_ok_iff, and_assoc]
    exact and_congr_right fun _ => and_iff_right haddress
  · rw [readAddress_eq_overlapsProgram_iff, readMarked_eq_ok_iff, and_assoc, hsize,
      Nat.lt_succ_iff, and_comm (a := value ≤ 65535)]
  · rw [exists_number_error_iff]
    simp only [hsize, Nat.lt_succ_iff]
  · rw [readAddress_eq_number_iff, readMarked_eq_empty_iff]
    simp only [List.mem_cons, List.not_mem_nil, or_false, ← String.toList_inj]
    rfl
  · rw [readAddress_eq_number_iff, readMarked_eq_tooLarge_iff]
    rfl
  · intro address hlt count padded
    refine ⟨readAddress_of_writes ?_ hlt, fun mark hmark => ?_⟩
    · rw [String.toList_ofList]
      exact .inl (numeral_zeros (by decide) count _)
    · have hbegins : ∃ c, IsMark c ∧ mark.toList = ['0', c] := by
        rcases List.mem_pair.mp hmark with rfl | rfl
        · exact ⟨'x', .inl rfl, rfl⟩
        · exact ⟨'X', .inr rfl, rfl⟩
      obtain ⟨c, hc, hlist⟩ := hbegins
      constructor
      · refine readAddress_of_writes ?_ hlt
        rw [String.toList_append, hlist, String.toList_ofList]
        exact (writes_mark_iff hc).mpr (numeral_zeros (by decide) count _)
      · refine readAddress_of_writes ?_ hlt
        rw [String.toList_append, hlist]
        exact (writes_mark_iff hc).mpr (numeral_hex count _)

example : readAddress "0X+001fF" = .ok 511 := by decide +kernel

end Chip8.CommandLine
