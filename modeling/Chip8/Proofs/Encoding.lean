import Chip8.Instruction.Decode
import Chip8.Instruction.Encode

/-!
Words and instructions are the same thing. Encoding undoes decoding on every word, and decoding
undoes encoding on every instruction, where an unknown word only counts as an instruction of its own
if it has the pattern of no other one. The patterns are listed here as such, digit by digit.
-/

namespace Chip8

namespace Opcode

/-! ### The digits of a word -/

theorem val_digit_zero (word : UInt16) : (digit word 0).val = word.toNat % 16 := rfl

theorem val_digit_one (word : UInt16) : (digit word 1).val = word.toNat / 16 % 16 := by
  simp [digit, Nat.shiftRight_eq_div_pow]

theorem val_digit_two (word : UInt16) : (digit word 2).val = word.toNat / 256 % 16 := by
  simp [digit, Nat.shiftRight_eq_div_pow]

theorem val_digit_three (word : UInt16) : (digit word 3).val = word.toNat / 4096 := by
  have hlt := word.toNat_lt
  simp only [digit, Nat.shiftRight_eq_div_pow]
  omega

theorem toNat_lowByte (word : UInt16) : (lowByte word).toNat = word.toNat % 256 := by
  simp [lowByte]

theorem val_lowAddress (word : UInt16) : (lowAddress word).val = word.toNat % 4096 := rfl

/-- The two words without operands are in the first family. -/
theorem ne_of_digit_three_ne_zero (word : UInt16) (h : (digit word 3).val ≠ 0) :
    word ≠ 0x00E0 ∧ word ≠ 0x00EE := by
  constructor <;> rintro rfl <;> exact h rfl

end Opcode

namespace Instruction

open Opcode

/-! ### Words put together from digits -/

section Words

variable {family : Nat}

theorem toNat_wordNNN (hfamily : family < 16) (nnn : Address) :
    (wordNNN family nnn).toNat = family * 4096 + nnn.val := by
  have hnnn := nnn.isLt
  rw [wordNNN, UInt16.toNat_ofNat']
  omega

theorem toNat_wordXNN (hfamily : family < 16) (x : Register) {nn : Nat} (hnn : nn < 256) :
    (wordXNN family x nn).toNat = family * 4096 + x.val * 256 + nn := by
  have hx := x.isLt
  rw [wordXNN, UInt16.toNat_ofNat']
  omega

theorem toNat_wordXYN (hfamily : family < 16) (x y : Register) {n : Nat} (hn : n < 16) :
    (wordXYN family x y n).toNat = family * 4096 + x.val * 256 + y.val * 16 + n := by
  have hx := x.isLt
  have hy := y.isLt
  rw [wordXYN, UInt16.toNat_ofNat']
  omega

theorem wordNNN_lowAddress {word : UInt16} (h : (digit word 3).val = family) :
    wordNNN family (lowAddress word) = word := by
  have hfamily := (digit word 3).isLt
  rw [h] at hfamily
  rw [val_digit_three] at h
  apply UInt16.toNat_inj.mp
  rw [toNat_wordNNN hfamily, val_lowAddress]
  omega

theorem wordXNN_lowByte {word : UInt16} (h : (digit word 3).val = family) :
    wordXNN family (digit word 2) (lowByte word).toNat = word := by
  have hfamily := (digit word 3).isLt
  rw [h] at hfamily
  rw [val_digit_three] at h
  apply UInt16.toNat_inj.mp
  rw [toNat_wordXNN hfamily _ (lowByte word).toNat_lt, val_digit_two, toNat_lowByte]
  omega

theorem wordXYN_digits {word : UInt16} (h : (digit word 3).val = family) :
    wordXYN family (digit word 2) (digit word 1) (digit word 0).val = word := by
  have hfamily := (digit word 3).isLt
  rw [h] at hfamily
  rw [val_digit_three] at h
  apply UInt16.toNat_inj.mp
  rw [toNat_wordXYN hfamily _ _ (digit word 0).isLt, val_digit_two, val_digit_one, val_digit_zero]
  omega

end Words

/-! ### Encoding undoes decoding -/

theorem digit_of_ofDigit? {n : Nat} {operation : Operation}
    (h : Operation.ofDigit? n = some operation) : operation.digit = n := by
  unfold Operation.ofDigit? at h
  split at h <;> cases h <;> rfl

theorem encodeSkip_of_keyCondition? {x : Register} {byte : Nat} {condition : Condition}
    (h : keyCondition? x byte = some condition) : encodeSkip condition = wordXNN 0xE x byte := by
  unfold keyCondition? at h
  split at h <;> cases h <;> rfl

theorem encode_of_ofLowByte? {x : Register} {byte : Nat} {i : Instruction}
    (h : ofLowByte? x byte = some i) : i.encode = wordXNN 0xF x byte := by
  unfold ofLowByte? at h
  split at h <;> cases h <;> rfl

theorem encode_decode (word : UInt16) : (decode word).encode = word := by
  unfold decode
  dsimp only
  split
  case h_1 =>
    split
    · rename_i hword
      exact hword.symm
    · split
      · rename_i hword
        exact hword.symm
      · rfl
  case h_2 h | h_3 h | h_11 h | h_12 h => exact wordNNN_lowAddress h
  case h_4 h | h_5 h | h_7 h | h_8 h | h_13 h => exact wordXNN_lowByte h
  case h_6 h | h_10 h =>
    split
    · rename_i hn
      have hword := wordXYN_digits h
      rwa [hn] at hword
    · rfl
  case h_9 h =>
    split
    · rename_i operation hoperation
      rw [encode, digit_of_ofDigit? hoperation]
      exact wordXYN_digits h
    · rfl
  case h_14 h => exact wordXYN_digits h
  case h_15 h =>
    split
    · rename_i condition hcondition
      rw [encode, encodeSkip_of_keyCondition? hcondition]
      exact wordXNN_lowByte h
    · rfl
  case h_16 =>
    have h : (digit word 3).val = 0xF := by grind
    cases hi : ofLowByte? (digit word 2) (lowByte word).toNat with
    | none => rfl
    | some i =>
        rw [Option.getD_some, encode_of_ofLowByte? hi]
        exact wordXNN_lowByte h

end Instruction

/-! ### Patterns -/

/-- What is fixed in the words of an instruction; the other digits are its operands. -/
inductive Pattern where
  | whole (word : UInt16)
  | first (digit : Nat)
  | firstAndLast (digit last : Nat)
  | firstAndByte (digit byte : Nat)
  deriving DecidableEq, Repr

namespace Pattern

def Matches (word : UInt16) : Pattern → Prop
  | whole word' => word = word'
  | first digit => word.toNat / 4096 = digit
  | firstAndLast digit last => word.toNat / 4096 = digit ∧ word.toNat % 16 = last
  | firstAndByte digit byte => word.toNat / 4096 = digit ∧ word.toNat % 256 = byte

instance (word : UInt16) : (p : Pattern) → Decidable (p.Matches word)
  | whole word' => inferInstanceAs (Decidable (word = word'))
  | first digit => inferInstanceAs (Decidable (word.toNat / 4096 = digit))
  | firstAndLast digit last =>
    inferInstanceAs (Decidable (word.toNat / 4096 = digit ∧ word.toNat % 16 = last))
  | firstAndByte digit byte =>
    inferInstanceAs (Decidable (word.toNat / 4096 = digit ∧ word.toNat % 256 = byte))

def all : List Pattern := [
  whole 0x00E0, -- 00E0
  whole 0x00EE, -- 00EE
  first 0x1, -- 1NNN
  first 0x2, -- 2NNN
  first 0x3, -- 3XNN
  first 0x4, -- 4XNN
  firstAndLast 0x5 0x0, -- 5XY0
  first 0x6, -- 6XNN
  first 0x7, -- 7XNN
  firstAndLast 0x8 0x0, -- 8XY0
  firstAndLast 0x8 0x1, -- 8XY1
  firstAndLast 0x8 0x2, -- 8XY2
  firstAndLast 0x8 0x3, -- 8XY3
  firstAndLast 0x8 0x4, -- 8XY4
  firstAndLast 0x8 0x5, -- 8XY5
  firstAndLast 0x8 0x6, -- 8XY6
  firstAndLast 0x8 0x7, -- 8XY7
  firstAndLast 0x8 0xE, -- 8XYE
  firstAndLast 0x9 0x0, -- 9XY0
  first 0xA, -- ANNN
  first 0xB, -- BNNN
  first 0xC, -- CXNN
  first 0xD, -- DXYN
  firstAndByte 0xE 0x9E, -- EX9E
  firstAndByte 0xE 0xA1, -- EXA1
  firstAndByte 0xF 0x07, -- FX07
  firstAndByte 0xF 0x0A, -- FX0A
  firstAndByte 0xF 0x15, -- FX15
  firstAndByte 0xF 0x18, -- FX18
  firstAndByte 0xF 0x1E, -- FX1E
  firstAndByte 0xF 0x29, -- FX29
  firstAndByte 0xF 0x33, -- FX33
  firstAndByte 0xF 0x55, -- FX55
  firstAndByte 0xF 0x65] -- FX65

end Pattern

namespace Instruction

open Opcode

theorem ofDigit?_eq_none_iff (n : Nat) :
    Operation.ofDigit? n = none ↔
      n ∉ [0x0, 0x1, 0x2, 0x3, 0x4, 0x5, 0x6, 0x7, 0xE] := by
  unfold Operation.ofDigit?
  split <;> simp_all

theorem keyCondition?_eq_none_iff (x : Register) (byte : Nat) :
    keyCondition? x byte = none ↔ byte ∉ [0x9E, 0xA1] := by
  unfold keyCondition?
  split <;> simp_all

theorem ofLowByte?_eq_none_iff (x : Register) (byte : Nat) :
    ofLowByte? x byte = none ↔
      byte ∉ [0x07, 0x0A, 0x15, 0x18, 0x1E, 0x29, 0x33, 0x55, 0x65] := by
  unfold ofLowByte?
  split <;> simp_all

theorem ofLowByte?_ne_unknown {x : Register} {byte : Nat} {word : UInt16} :
    ofLowByte? x byte ≠ some (.unknown word) := by
  unfold ofLowByte?
  split <;> simp

/-- A word is unknown exactly if it has none of the patterns. -/
theorem decode_unknown_iff (word : UInt16) :
    (∃ unknown, decode word = .unknown unknown) ↔ ∀ p ∈ Pattern.all, ¬p.Matches word := by
  simp only [Pattern.all, List.forall_mem_cons, Pattern.Matches, ← val_digit_three,
    ← val_digit_zero, ← toNat_lowByte]
  -- the highest digit leaves the patterns of one family, and the rest of the word decides there
  unfold decode
  dsimp only
  split
  case h_1 h =>
    simp only [h]
    split
    · simp_all
    · split <;> simp_all
  case h_6 h | h_10 h =>
    have hword := ne_of_digit_three_ne_zero word (by omega)
    simp only [h]
    split <;> simp_all
  case h_9 h =>
    have hword := ne_of_digit_three_ne_zero word (by omega)
    have hnone := ofDigit?_eq_none_iff (digit word 0).val
    simp only [h]
    split <;> simp_all
  case h_15 h =>
    have hword := ne_of_digit_three_ne_zero word (by omega)
    have hnone := keyCondition?_eq_none_iff (digit word 2) (lowByte word).toNat
    simp only [h]
    split <;> simp_all
  case h_16 =>
    have h : (digit word 3).val = 0xF := by grind
    have hword := ne_of_digit_three_ne_zero word (by omega)
    have hnone := ofLowByte?_eq_none_iff (digit word 2) (lowByte word).toNat
    simp only [h]
    cases hi : ofLowByte? (digit word 2) (lowByte word).toNat with
    | none => simp_all
    | some i =>
        have hknown : ∀ unknown, i ≠ .unknown unknown := by
          rintro unknown rfl
          exact ofLowByte?_ne_unknown hi
        simp_all
  all_goals
    rename_i h
    simp [h]

/-! ### Decoding undoes encoding -/

section Digits

variable {family : Nat}

theorem digit_three_wordNNN (hfamily : family < 16) (nnn : Address) :
    (digit (wordNNN family nnn) 3).val = family := by
  have hnnn := nnn.isLt
  rw [val_digit_three, toNat_wordNNN hfamily]
  omega

theorem lowAddress_wordNNN (hfamily : family < 16) (nnn : Address) :
    lowAddress (wordNNN family nnn) = nnn := by
  have hnnn := nnn.isLt
  ext
  rw [val_lowAddress, toNat_wordNNN hfamily]
  omega

theorem digit_three_wordXNN (hfamily : family < 16) (x : Register) {nn : Nat} (hnn : nn < 256) :
    (digit (wordXNN family x nn) 3).val = family := by
  have hx := x.isLt
  rw [val_digit_three, toNat_wordXNN hfamily x hnn]
  omega

theorem digit_two_wordXNN (hfamily : family < 16) (x : Register) {nn : Nat} (hnn : nn < 256) :
    digit (wordXNN family x nn) 2 = x := by
  have hx := x.isLt
  ext
  rw [val_digit_two, toNat_wordXNN hfamily x hnn]
  omega

theorem toNat_lowByte_wordXNN (hfamily : family < 16) (x : Register) {nn : Nat} (hnn : nn < 256) :
    (lowByte (wordXNN family x nn)).toNat = nn := by
  rw [toNat_lowByte, toNat_wordXNN hfamily x hnn]
  omega

theorem digit_three_wordXYN (hfamily : family < 16) (x y : Register) {n : Nat} (hn : n < 16) :
    (digit (wordXYN family x y n) 3).val = family := by
  have hx := x.isLt
  have hy := y.isLt
  rw [val_digit_three, toNat_wordXYN hfamily x y hn]
  omega

theorem digit_two_wordXYN (hfamily : family < 16) (x y : Register) {n : Nat} (hn : n < 16) :
    digit (wordXYN family x y n) 2 = x := by
  have hx := x.isLt
  have hy := y.isLt
  ext
  rw [val_digit_two, toNat_wordXYN hfamily x y hn]
  omega

theorem digit_one_wordXYN (hfamily : family < 16) (x y : Register) {n : Nat} (hn : n < 16) :
    digit (wordXYN family x y n) 1 = y := by
  have hy := y.isLt
  ext
  rw [val_digit_one, toNat_wordXYN hfamily x y hn]
  omega

theorem digit_zero_wordXYN (hfamily : family < 16) (x y : Register) {n : Nat} (hn : n < 16) :
    (digit (wordXYN family x y n) 0).val = n := by
  rw [val_digit_zero, toNat_wordXYN hfamily x y hn]
  omega

end Digits

theorem lowByte_wordXNN (hfamily : family < 16) (x : Register) (nn : UInt8) :
    lowByte (wordXNN family x nn.toNat) = nn :=
  UInt8.toNat_inj.mp (toNat_lowByte_wordXNN hfamily x nn.toNat_lt)

theorem decode_encodeSkip (condition : Condition) :
    decode (encodeSkip condition) = .skipIf condition := by
  cases condition with
  | byteEq x nn | byteNe x nn =>
      have hnn := nn.toNat_lt
      simp (disch := omega) [decode, encodeSkip, digit_three_wordXNN, digit_two_wordXNN,
        lowByte_wordXNN]
  | regEq x y | regNe x y =>
      simp (disch := omega) [decode, encodeSkip, digit_three_wordXYN, digit_two_wordXYN,
        digit_one_wordXYN, digit_zero_wordXYN]
  | keyHeld x | keyFree x =>
      simp (disch := omega) [decode, encodeSkip, digit_three_wordXNN, digit_two_wordXNN,
        toNat_lowByte_wordXNN, keyCondition?]

/-- An unknown word is only proper as an instruction if no other instruction has it. -/
def Proper (i : Instruction) : Prop :=
  ∀ word, i = .unknown word → ∀ p ∈ Pattern.all, ¬p.Matches word

theorem decode_encode {i : Instruction} (h : i.Proper) : decode i.encode = i := by
  cases i with
  | clearScreen | ret => rfl
  | jump nnn | call nnn | setIndex nnn | jumpOffset nnn =>
      simp (disch := omega) [decode, encode, digit_three_wordNNN, lowAddress_wordNNN]
  | skipIf condition => exact decode_encodeSkip condition
  | setByte x nn | addByte x nn | random x nn =>
      have hnn := nn.toNat_lt
      simp (disch := omega) [decode, encode, digit_three_wordXNN, digit_two_wordXNN,
        lowByte_wordXNN]
  | combine operation x y =>
      cases operation <;>
        simp (disch := omega) [decode, encode, digit_three_wordXYN, digit_two_wordXYN,
          digit_one_wordXYN, digit_zero_wordXYN, Operation.digit, Operation.ofDigit?]
  | draw x y n =>
      have hn := n.isLt
      simp (disch := omega) [decode, encode, digit_three_wordXYN, digit_two_wordXYN,
        digit_one_wordXYN, digit_zero_wordXYN, Fin.ext_iff]
  | unknown word =>
      -- the word decodes to some unknown word, which encodes back to the same one
      obtain ⟨unknown, hunknown⟩ := (decode_unknown_iff word).mpr (h word rfl)
      have hword := encode_decode word
      rw [hunknown] at hword
      rw [encode, hunknown]
      exact congrArg Instruction.unknown hword
  | _ =>
      simp (disch := omega) [decode, encode, digit_three_wordXNN, digit_two_wordXNN,
        toNat_lowByte_wordXNN, ofLowByte?]

theorem proper_decode (word : UInt16) : (decode word).Proper := by
  intro unknown hunknown
  have hword := encode_decode word
  rw [hunknown] at hword
  change unknown = word at hword
  rw [hword]
  exact (decode_unknown_iff word).mp ⟨unknown, hunknown⟩

/-! ### Operands -/

end Instruction

/-- An operand as a number. Bytes are left out, since any byte fits. -/
inductive Operand where
  | register (x : Nat)
  | rows (n : Nat)
  | address (nnn : Nat)

/-- The operand has room in its digits. -/
def Operand.Fits : Operand → Prop
  | register x => x < 16
  | rows n => n < 16
  | address nnn => nnn < 4096

def Condition.operands : Condition → List Operand
  | byteEq x _ | byteNe x _ | keyHeld x | keyFree x => [.register x.val]
  | regEq x y | regNe x y => [.register x.val, .register y.val]

namespace Instruction

def operands : Instruction → List Operand
  | clearScreen | ret | unknown _ => []
  | jump nnn | jumpOffset nnn | call nnn | setIndex nnn => [.address nnn.val]
  | skipIf condition => condition.operands
  | combine _ x y => [.register x.val, .register y.val]
  | draw x y n => [.register x.val, .register y.val, .rows n.val]
  | setByte x _ | addByte x _ | random x _ | readDelay x | waitKey x | setDelay x
  | setSound x | addIndex x | fontGlyph x | storeDecimal x | storeRegisters x
  | loadRegisters x => [.register x.val]

theorem operands_fit (i : Instruction) : ∀ operand ∈ i.operands, operand.Fits := by
  cases i with
  | skipIf condition =>
      cases condition <;> simp [operands, Condition.operands, Operand.Fits]
  | _ => simp [operands, Operand.Fits]

/-- Decoding is one to one between the words and the proper instructions, and encoding is its
inverse. What is decoded has operands that fit, and is unknown for the words without a pattern
only. -/
theorem decode_lossless :
    (∀ word, (decode word).encode = word) ∧
    (∀ i : Instruction, i.Proper → decode i.encode = i) ∧
    (∀ word, (decode word).Proper ∧ ∀ operand ∈ (decode word).operands, operand.Fits) ∧
    ∀ word, (∃ unknown, decode word = .unknown unknown) ↔ ∀ p ∈ Pattern.all, ¬p.Matches word :=
  ⟨encode_decode, fun _ => decode_encode,
    fun word => ⟨proper_decode word, operands_fit (decode word)⟩, decode_unknown_iff⟩

/-- A word one digit beside the operations on two registers. -/
theorem decode_lossless_no_operation :
    (unknown 0x8AB8).Proper ∧ decode (unknown 0x8AB8).encode = .unknown 0x8AB8 := by
  have hproper : (unknown 0x8AB8).Proper := by
    intro word hword
    cases hword
    decide
  exact ⟨hproper, decode_lossless.2.1 _ hproper⟩

end Instruction

end Chip8
