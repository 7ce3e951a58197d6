import Chip8.CommandLine.Address
import Mathlib.Data.List.Forall2
import Mathlib.Data.Nat.Digits.Defs

/-!
Numerals: which characters write a number, and which number it is. A number is written in any radix
up to sixteen by digits, the highest first, and letters count in either case. Reading digits is
exact: it yields the number that is written unless that one is too large, and it fails exactly where
a character is no digit or where the digits so far are too large already.
-/

namespace Chip8.CommandLine

def IsDigit (digit : Nat) (c : Char) : Prop := c = digit.digitChar ∨ c = digit.digitChar.toUpper

/-- The characters write the digits, all of them digits of the radix. -/
def Spells (radix : Nat) : List Nat → List Char → Prop :=
  List.Forall₂ fun digit c => digit < radix ∧ IsDigit digit c

/-- The number with these digits, the highest first. -/
def valueOf (radix : Nat) (digits : List Nat) : Nat := Nat.ofDigits radix digits.reverse

/-- The characters write the number: one digit or more, behind a plus sign or not. -/
def Numeral (radix : Nat) (text : List Char) (value : Nat) : Prop :=
  ∃ digits, digits ≠ [] ∧ valueOf radix digits = value ∧
    (Spells radix digits text ∨ ∃ rest, text = '+' :: rest ∧ Spells radix digits rest)

/-! ### One digit -/

section Digit

variable {digit : Nat}

theorem toNat_digitChar_of_ten_le (hten : 10 ≤ digit) (h : digit < 16) :
    digit.digitChar.toNat = 87 + digit := by
  have hall : ∀ d < 16, 10 ≤ d → d.digitChar.toNat = 87 + d := by decide
  exact hall digit h hten

theorem toNat_toUpper_digitChar (hten : 10 ≤ digit) (h : digit < 16) :
    digit.digitChar.toUpper.toNat = 55 + digit := by
  have hall : ∀ d < 16, 10 ≤ d → d.digitChar.toUpper.toNat = 55 + d := by decide
  exact hall digit h hten

theorem IsDigit.toUpper {c : Char} (h : digit < 16) (hc : IsDigit digit c) :
    IsDigit digit c.toUpper := by
  have hall : ∀ d < 16, d.digitChar.toUpper.toUpper = d.digitChar.toUpper := by decide
  rcases hc with rfl | rfl
  · exact .inr rfl
  · exact .inr (hall digit h)

end Digit

section Radix

variable {radix : Nat}

theorem digitValue?_digitChar {digit : Nat} (hradix : radix ≤ 16) (h : digit < radix) :
    digitValue? radix digit.digitChar = some digit ∧
      digitValue? radix digit.digitChar.toUpper = some digit := by
  have hall : ∀ r ≤ 16, ∀ d < r,
      digitValue? r d.digitChar = some d ∧ digitValue? r d.digitChar.toUpper = some d := by
    decide
  exact hall radix hradix digit h

/-- A character has a value exactly if it writes the digit of that value. -/
theorem digitValue?_eq_some_iff (hradix : radix ≤ 16) {c : Char} {digit : Nat} :
    digitValue? radix c = some digit ↔ digit < radix ∧ IsDigit digit c := by
  constructor
  · intro h
    simp only [digitValue?, Option.ite_none_right_eq_some, Option.some_inj, Char.le_def,
      UInt32.le_iff_toNat_le] at h
    obtain ⟨hlt, hvalue⟩ := h
    rw [hvalue] at hlt
    refine ⟨hlt, ?_⟩
    split at hvalue
    case isTrue hrange =>
      change 48 ≤ c.toNat ∧ c.toNat ≤ 57 at hrange
      change c.toNat - 48 = digit at hvalue
      refine .inl (Char.toNat_inj.mp ?_)
      rw [Nat.toNat_digitChar_of_lt_ten (by omega)]
      omega
    case isFalse =>
      split at hvalue
      case isTrue hrange =>
        change 97 ≤ c.toNat ∧ c.toNat ≤ 122 at hrange
        change c.toNat - 97 + 10 = digit at hvalue
        refine .inl (Char.toNat_inj.mp ?_)
        rw [toNat_digitChar_of_ten_le (by omega) (by omega)]
        omega
      case isFalse =>
        split at hvalue
        case isTrue hrange =>
          change 65 ≤ c.toNat ∧ c.toNat ≤ 90 at hrange
          change c.toNat - 65 + 10 = digit at hvalue
          refine .inr (Char.toNat_inj.mp ?_)
          rw [toNat_toUpper_digitChar (by omega) (by omega)]
          omega
        -- a character in none of the ranges has the radix for its value
        case isFalse => omega
  · rintro ⟨hlt, rfl | rfl⟩
    · exact (digitValue?_digitChar hradix hlt).1
    · exact (digitValue?_digitChar hradix hlt).2

/-! ### Reading digits -/

theorem valueOf_nil_lt : valueOf radix [] < UInt16.size :=
  (by decide : 0 < UInt16.size)

theorem valueOf_append (digits digits' : List Nat) :
    valueOf radix (digits ++ digits') =
      radix ^ digits'.length * valueOf radix digits + valueOf radix digits' := by
  simp only [valueOf, List.reverse_append, Nat.ofDigits_append, List.length_reverse]
  omega

theorem valueOf_concat (digits : List Nat) (digit : Nat) :
    valueOf radix (digits ++ [digit]) = valueOf radix digits * radix + digit := by
  rw [valueOf_append]
  simp [valueOf, Nat.mul_comm]

theorem valueOf_le_append (hradix : 0 < radix) (digits digits' : List Nat) :
    valueOf radix digits ≤ valueOf radix (digits ++ digits') := by
  rw [valueOf_append]
  exact Nat.le_add_right_of_le (Nat.le_mul_of_pos_left _ (Nat.pow_pos hradix))

section ReadDigits

variable {read : List Nat} {text : List Char} (hradix : radix ≤ 16)

theorem readDigits_of_digit {digit : Nat} {c : Char} (h : digitValue? radix c = some digit) :
    readDigits radix (valueOf radix read) (c :: text) =
      if valueOf radix (read ++ [digit]) < UInt16.size then
        readDigits radix (valueOf radix (read ++ [digit])) text
      else .error .tooLarge := by
  simp only [readDigits, h, valueOf_concat]

theorem readDigits_of_none {c : Char} (h : digitValue? radix c = none) :
    readDigits radix (valueOf radix read) (c :: text) = .error .invalidDigit := by
  simp only [readDigits, h]

include hradix

theorem spells_cons_of_digit {digit : Nat} {c : Char} (h : digitValue? radix c = some digit)
    {digits : List Nat} :
    Spells radix digits (c :: text) ↔
      ∃ digits', digits = digit :: digits' ∧ Spells radix digits' text := by
  have hunique : ∀ digit', digit' < radix ∧ IsDigit digit' c ↔ digit' = digit := by
    intro digit'
    rw [← digitValue?_eq_some_iff hradix, h, Option.some_inj, eq_comm]
  simp only [Spells, List.forall₂_cons_right_iff, hunique, exists_and_left, exists_eq_left,
    and_comm]

theorem not_spells_cons_of_none {c : Char} (h : digitValue? radix c = none) (digits : List Nat) :
    ¬Spells radix digits (c :: text) := by
  intro hspells
  obtain ⟨digit, _, hc, -, -⟩ := List.forall₂_cons_right_iff.mp hspells
  rw [← digitValue?_eq_some_iff hradix, h] at hc
  contradiction

/-- Digits are read exactly if they write a number that is not too large. -/
theorem readDigits_eq_ok_iff (hread : valueOf radix read < UInt16.size) {value : Nat} :
    readDigits radix (valueOf radix read) text = .ok value ↔
      value < UInt16.size ∧
        ∃ digits, Spells radix digits text ∧ valueOf radix (read ++ digits) = value := by
  induction text generalizing read with
  | nil =>
      simp only [readDigits, Except.ok.injEq, Spells, List.forall₂_nil_right_iff, exists_eq_left,
        List.append_nil]
      constructor
      · rintro rfl
        exact ⟨hread, rfl⟩
      · exact And.right
  | cons c text ih =>
      cases hdigit : digitValue? radix c with
      | none =>
          rw [readDigits_of_none hdigit]
          simp [not_spells_cons_of_none hradix hdigit]
      | some digit =>
          have hpos : 0 < radix :=
            Nat.zero_lt_of_lt ((digitValue?_eq_some_iff hradix).mp hdigit).1
          have hrest : (∃ digits, Spells radix digits (c :: text) ∧
              valueOf radix (read ++ digits) = value) ↔
              ∃ digits, Spells radix digits text ∧
                valueOf radix (read ++ [digit] ++ digits) = value := by
            simp [spells_cons_of_digit hradix hdigit]
          rw [readDigits_of_digit hdigit, hrest]
          split
          · rename_i hlt
            exact ih hlt
          · rename_i hover
            simp only [reduceCtorEq, false_iff, not_and, not_exists]
            rintro hvalue digits - rfl
            exact hover (Nat.lt_of_le_of_lt (valueOf_le_append hpos _ digits) hvalue)

/-- A number is too large as soon as its first digits are. -/
theorem readDigits_eq_tooLarge_iff (hread : valueOf radix read < UInt16.size) :
    readDigits radix (valueOf radix read) text = .error .tooLarge ↔
      ∃ start digits, start <+: text ∧ Spells radix digits start ∧
        UInt16.size ≤ valueOf radix (read ++ digits) := by
  induction text generalizing read with
  | nil =>
      simp only [readDigits, reduceCtorEq, List.prefix_nil, false_iff, not_exists, not_and]
      rintro _ digits rfl hspells
      obtain rfl := List.forall₂_nil_right_iff.mp hspells
      simpa using hread
  | cons c text ih =>
      -- no digit at all makes nothing too large, so the first character counts
      have hstart : (∃ start digits, start <+: c :: text ∧ Spells radix digits start ∧
          UInt16.size ≤ valueOf radix (read ++ digits)) ↔
          ∃ start digits, start <+: text ∧ Spells radix digits (c :: start) ∧
            UInt16.size ≤ valueOf radix (read ++ digits) := by
        constructor
        · rintro ⟨start, digits, hbegins, hspells, hover⟩
          rcases List.prefix_cons_iff.mp hbegins with rfl | ⟨start', rfl, hbegins'⟩
          · obtain rfl := List.forall₂_nil_right_iff.mp hspells
            rw [List.append_nil] at hover
            omega
          · exact ⟨start', digits, hbegins', hspells, hover⟩
        · rintro ⟨start, digits, hbegins, hspells, hover⟩
          exact ⟨c :: start, digits, List.cons_prefix_cons.mpr ⟨rfl, hbegins⟩, hspells, hover⟩
      rw [hstart]
      cases hdigit : digitValue? radix c with
      | none =>
          rw [readDigits_of_none hdigit]
          simp [not_spells_cons_of_none hradix hdigit]
      | some digit =>
          have hpos : 0 < radix :=
            Nat.zero_lt_of_lt ((digitValue?_eq_some_iff hradix).mp hdigit).1
          have hrest : (∃ start digits, start <+: text ∧ Spells radix digits (c :: start) ∧
              UInt16.size ≤ valueOf radix (read ++ digits)) ↔
              ∃ start digits, start <+: text ∧ Spells radix digits start ∧
                UInt16.size ≤ valueOf radix (read ++ [digit] ++ digits) := by
            simp [spells_cons_of_digit hradix hdigit]
          rw [readDigits_of_digit hdigit, hrest]
          split
          · rename_i hlt
            exact ih hlt
          · rename_i hover
            refine iff_of_true rfl ⟨[], [], List.nil_prefix, .nil, ?_⟩
            rw [List.append_nil]
            exact Nat.not_lt.mp hover

omit hradix in
theorem readDigits_ne_empty (value : Nat) : readDigits radix value text ≠ .error .empty := by
  induction text generalizing value with
  | nil => nofun
  | cons c text ih =>
      rw [readDigits]
      split
      · nofun
      · split
        · exact ih _
        · nofun

end ReadDigits

/-! ### Reading numbers -/

/-- The text behind a plus sign, or all of it. -/
def unsigned : List Char → List Char
  | '+' :: rest => rest
  | text => text

section ReadNumber

variable {text : List Char}

theorem unsigned_of_ne (h : ∀ rest, text ≠ '+' :: rest) : unsigned text = text := by
  unfold unsigned
  split
  · exact absurd rfl (h _)
  · rfl

theorem unsigned_begins {start : List Char} (h : start <+: text) :
    unsigned start <+: unsigned text := by
  obtain ⟨rest, rfl⟩ := h
  cases start with
  | nil => exact List.nil_prefix
  | cons c start =>
      by_cases hplus : c = '+'
      · subst hplus
        exact List.prefix_append start rest
      · rw [unsigned_of_ne (by simp [hplus]), unsigned_of_ne (by simp [hplus])]
        exact List.prefix_append (c :: start) rest

theorem readNumber_of_unsigned_ne_nil (h : unsigned text ≠ []) :
    readNumber radix text = readDigits radix (valueOf radix []) (unsigned text) := by
  unfold readNumber
  split
  · contradiction
  · contradiction
  · rfl
  · rename_i hplus
    rw [unsigned_of_ne hplus]
    rfl

theorem readNumber_of_unsigned_eq_nil (h : unsigned text = []) :
    readNumber radix text = .error (if text = [] then .empty else .invalidDigit) := by
  by_cases hplus : ∃ rest, text = '+' :: rest
  · obtain ⟨rest, rfl⟩ := hplus
    obtain rfl : rest = [] := h
    rfl
  · rw [unsigned_of_ne (not_exists.mp hplus)] at h
    subst h
    rfl

variable (hradix : radix ≤ 16)

include hradix

theorem not_spells_plus (digits : List Nat) : ¬Spells radix digits ('+' :: text) := by
  have hall : ∀ r ≤ 16, digitValue? r '+' = none := by decide
  exact not_spells_cons_of_none hradix (hall radix hradix) digits

theorem numeral_iff {value : Nat} :
    Numeral radix text value ↔
      ∃ digits, digits ≠ [] ∧ valueOf radix digits = value ∧
        Spells radix digits (unsigned text) := by
  by_cases hplus : ∃ rest, text = '+' :: rest
  · obtain ⟨rest, rfl⟩ := hplus
    simp [Numeral, not_spells_plus hradix, unsigned]
  · rw [unsigned_of_ne (not_exists.mp hplus)]
    simp only [Numeral, not_exists.mp hplus, false_and, exists_false, or_false]

theorem readNumber_eq_ok_iff {value : Nat} :
    readNumber radix text = .ok value ↔ Numeral radix text value ∧ value < UInt16.size := by
  rw [numeral_iff hradix]
  by_cases hnil : unsigned text = []
  · rw [readNumber_of_unsigned_eq_nil hnil, hnil]
    simp only [reduceCtorEq, Spells, List.forall₂_nil_right_iff, false_iff]
    rintro ⟨⟨digits, hne, -, rfl⟩, -⟩
    exact hne rfl
  · rw [readNumber_of_unsigned_ne_nil hnil, readDigits_eq_ok_iff hradix valueOf_nil_lt]
    constructor
    · rintro ⟨hlt, digits, hspells, hvalue⟩
      refine ⟨⟨digits, ?_, hvalue, hspells⟩, hlt⟩
      rintro rfl
      exact hnil (List.forall₂_nil_left_iff.mp hspells)
    · rintro ⟨⟨digits, -, hvalue, hspells⟩, hlt⟩
      exact ⟨hlt, digits, hspells, hvalue⟩

/-- A number is too large as soon as a beginning of it is. -/
theorem readNumber_eq_tooLarge_iff :
    readNumber radix text = .error .tooLarge ↔
      ∃ start value, start <+: text ∧ Numeral radix start value ∧ UInt16.size ≤ value := by
  constructor
  · intro h
    by_cases hnil : unsigned text = []
    · rw [readNumber_of_unsigned_eq_nil hnil] at h
      split at h <;> contradiction
    · rw [readNumber_of_unsigned_ne_nil hnil, readDigits_eq_tooLarge_iff hradix valueOf_nil_lt] at h
      obtain ⟨start, digits, hbegins, hspells, hover⟩ := h
      have hdigits : digits ≠ [] := by
        rintro rfl
        exact absurd hover (Nat.not_le.mpr valueOf_nil_lt)
      by_cases hplus : ∃ rest, text = '+' :: rest
      · obtain ⟨rest, rfl⟩ := hplus
        exact ⟨'+' :: start, _, List.cons_prefix_cons.mpr ⟨rfl, hbegins⟩,
          ⟨digits, hdigits, rfl, .inr ⟨start, rfl, hspells⟩⟩, hover⟩
      · rw [unsigned_of_ne (not_exists.mp hplus)] at hbegins
        exact ⟨start, _, hbegins, ⟨digits, hdigits, rfl, .inl hspells⟩, hover⟩
  · rintro ⟨start, value, hbegins, hnumeral, hover⟩
    obtain ⟨digits, hdigits, rfl, hspells⟩ := (numeral_iff hradix).mp hnumeral
    have hbegins' := unsigned_begins hbegins
    have hnil : unsigned text ≠ [] := by
      intro hnil
      rw [hnil, List.prefix_nil] at hbegins'
      rw [hbegins'] at hspells
      exact hdigits (List.forall₂_nil_right_iff.mp hspells)
    rw [readNumber_of_unsigned_ne_nil hnil, readDigits_eq_tooLarge_iff hradix valueOf_nil_lt]
    exact ⟨_, digits, hbegins', hspells, hover⟩

omit hradix in
theorem readNumber_eq_empty_iff : readNumber radix text = .error .empty ↔ text = [] := by
  by_cases hnil : unsigned text = []
  · rw [readNumber_of_unsigned_eq_nil hnil]
    split <;> simp [*]
  · rw [readNumber_of_unsigned_ne_nil hnil]
    refine iff_of_false (readDigits_ne_empty _) ?_
    rintro rfl
    exact hnil rfl

end ReadNumber

/-! ### Numerals in a text -/

section Unique

variable {text text' rest rest' : List Char} {value value' : Nat}

variable (hradix : radix ≤ 16)

include hradix

theorem Spells.unique {digits digits' : List Nat} (h : Spells radix digits text)
    (h' : Spells radix digits' text) : digits = digits' := by
  refine List.left_unique_forall₂' ?_ h h'
  intro digit c digit' hdigit hdigit'
  rw [← digitValue?_eq_some_iff hradix] at hdigit hdigit'
  exact Option.some.inj (hdigit.symm.trans hdigit')

/-- No text writes two numbers. -/
theorem Numeral.unique (h : Numeral radix text value) (h' : Numeral radix text value') :
    value = value' := by
  obtain ⟨digits, -, rfl, hspells⟩ := (numeral_iff hradix).mp h
  obtain ⟨digits', -, rfl, hspells'⟩ := (numeral_iff hradix).mp h'
  rw [hspells.unique hradix hspells']

end Unique

/-! ### Written numbers -/

section Written

theorem spells_append {digits digits' : List Nat} {text text' : List Char}
    (h : Spells radix digits text) (h' : Spells radix digits' text') :
    Spells radix (digits ++ digits') (text ++ text') :=
  List.rel_append h h'

theorem spells_zeros (hradix : 0 < radix) (count : Nat) :
    Spells radix (List.replicate count 0) (List.replicate count '0') := by
  induction count with
  | zero => exact .nil
  | succ count ih => exact .cons ⟨hradix, .inl rfl⟩ ih

theorem valueOf_zeros_append (count : Nat) (digits : List Nat) :
    valueOf radix (List.replicate count 0 ++ digits) = valueOf radix digits := by
  simp [valueOf, List.reverse_append]

/-- The digits with which a number is printed write that number. -/
theorem exists_spells_toDigits (hradix : 1 < radix) (value : Nat) :
    ∃ digits, digits ≠ [] ∧ valueOf radix digits = value ∧
      Spells radix digits (Nat.toDigits radix value) := by
  induction value using Nat.strongRecOn with
  | _ value ih =>
      rw [Nat.toDigits_eq_if hradix]
      split
      · rename_i hlt
        exact ⟨[value], by simp, by simp [valueOf], .cons ⟨hlt, .inl rfl⟩ .nil⟩
      · rename_i hle
        have hdiv : value / radix < value := Nat.div_lt_self (by omega) hradix
        obtain ⟨digits, -, hvalue, hspells⟩ := ih _ hdiv
        have hmod : value % radix < radix := Nat.mod_lt _ (by omega)
        refine ⟨digits ++ [value % radix], by simp, ?_,
          spells_append hspells (.cons ⟨hmod, .inl rfl⟩ .nil)⟩
        rw [valueOf_concat, hvalue, Nat.mul_comm]
        exact Nat.div_add_mod value radix

theorem Spells.toUpper (hradix : radix ≤ 16) {digits : List Nat} {text : List Char}
    (h : Spells radix digits text) : Spells radix digits (text.map Char.toUpper) := by
  rw [Spells, List.forall₂_map_right_iff]
  exact h.imp fun digit c hc => ⟨hc.1, hc.2.toUpper (Nat.lt_of_lt_of_le hc.1 hradix)⟩

/-- Zeros in front of the digits of a number do not change it. -/
theorem numeral_zeros (hradix : 1 < radix) (count value : Nat) :
    Numeral radix (List.replicate count '0' ++ Nat.toDigits radix value) value := by
  obtain ⟨digits, hne, hvalue, hspells⟩ := exists_spells_toDigits hradix value
  refine ⟨List.replicate count 0 ++ digits, by simp [hne], ?_,
    .inl (spells_append (spells_zeros (by omega) count) hspells)⟩
  rw [valueOf_zeros_append, hvalue]

/-- Numbers in hexadecimal as they are printed, filled with zeros up to a least width. -/
theorem numeral_hex (width value : Nat) : Numeral 16 (Text.hex width value).toList value := by
  obtain ⟨digits, hne, hvalue, hspells⟩ := exists_spells_toDigits (show 1 < 16 by decide) value
  rw [Text.hex, String.toList_ofList, List.leftpad]
  refine ⟨List.replicate _ 0 ++ digits, by simp [hne], ?_,
    .inl (spells_append (spells_zeros (by decide) _) (hspells.toUpper (Nat.le_refl 16)))⟩
  rw [valueOf_zeros_append, hvalue]

end Written

end Radix

end Chip8.CommandLine
