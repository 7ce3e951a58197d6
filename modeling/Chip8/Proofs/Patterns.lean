import Chip8.Proofs.Encoding
import Chip8.Proofs.Step

/-!
The pattern of an instruction. A word has the pattern of the instruction that it decodes to, and the
instructions of the last family are found back from their patterns. So what an instruction does can
be said of the words that name it.
-/

namespace Chip8

theorem Operation.digit_lt (operation : Operation) : operation.digit < 16 := by
  cases operation <;> decide

def Condition.pattern : Condition → Pattern
  | byteEq .. => .first 0x3
  | byteNe .. => .first 0x4
  | regEq .. => .firstAndLast 0x5 0x0
  | regNe .. => .firstAndLast 0x9 0x0
  | keyHeld _ => .firstAndByte 0xE 0x9E
  | keyFree _ => .firstAndByte 0xE 0xA1

namespace Instruction

open Opcode

/-- The pattern of the instruction. Unknown words have none. -/
def pattern? : Instruction → Option Pattern
  | clearScreen => some (.whole 0x00E0)
  | ret => some (.whole 0x00EE)
  | jump _ => some (.first 0x1)
  | call _ => some (.first 0x2)
  | skipIf condition => some condition.pattern
  | setByte .. => some (.first 0x6)
  | addByte .. => some (.first 0x7)
  | combine operation _ _ => some (.firstAndLast 0x8 operation.digit)
  | setIndex _ => some (.first 0xA)
  | jumpOffset _ => some (.first 0xB)
  | random .. => some (.first 0xC)
  | draw .. => some (.first 0xD)
  | readDelay _ => some (.firstAndByte 0xF 0x07)
  | waitKey _ => some (.firstAndByte 0xF 0x0A)
  | setDelay _ => some (.firstAndByte 0xF 0x15)
  | setSound _ => some (.firstAndByte 0xF 0x18)
  | addIndex _ => some (.firstAndByte 0xF 0x1E)
  | fontGlyph _ => some (.firstAndByte 0xF 0x29)
  | storeDecimal _ => some (.firstAndByte 0xF 0x33)
  | storeRegisters _ => some (.firstAndByte 0xF 0x55)
  | loadRegisters _ => some (.firstAndByte 0xF 0x65)
  | unknown _ => none

/-- The register that the second digit names, where an instruction other than a skip has one. -/
def register? : Instruction → Option Register
  | setByte x _ | addByte x _ | combine _ x _ | random x _ | draw x _ _ | readDelay x
  | waitKey x | setDelay x | setSound x | addIndex x | fontGlyph x | storeDecimal x
  | storeRegisters x | loadRegisters x => some x
  | _ => none

theorem matches_encodeSkip (condition : Condition) :
    condition.pattern.Matches (encodeSkip condition) := by
  cases condition with
  | byteEq x nn | byteNe x nn =>
      have hnn := nn.toNat_lt
      simp (disch := omega) [Condition.pattern, Pattern.Matches, encodeSkip, ← val_digit_three,
        digit_three_wordXNN]
  | regEq x y | regNe x y =>
      simp (disch := omega) [Condition.pattern, Pattern.Matches, encodeSkip, ← val_digit_three,
        ← val_digit_zero, digit_three_wordXYN, digit_zero_wordXYN]
  | keyHeld x | keyFree x =>
      simp (disch := omega) [Condition.pattern, Pattern.Matches, encodeSkip, ← val_digit_three,
        ← toNat_lowByte, digit_three_wordXNN, toNat_lowByte_wordXNN]

theorem matches_encode {i : Instruction} {p : Pattern} (h : i.pattern? = some p) :
    p.Matches i.encode := by
  cases i with
  | clearScreen | ret =>
      cases h
      rfl
  | jump nnn | call nnn | setIndex nnn | jumpOffset nnn =>
      cases h
      simp (disch := omega) [Pattern.Matches, encode, ← val_digit_three, digit_three_wordNNN]
  | skipIf condition =>
      cases h
      exact matches_encodeSkip condition
  | setByte x nn | addByte x nn | random x nn =>
      have hnn := nn.toNat_lt
      cases h
      simp (disch := omega) [Pattern.Matches, encode, ← val_digit_three, digit_three_wordXNN]
  | combine operation x y =>
      have hdigit := operation.digit_lt
      cases h
      simp (disch := omega) [Pattern.Matches, encode, ← val_digit_three, ← val_digit_zero,
        digit_three_wordXYN, digit_zero_wordXYN]
  | draw x y n =>
      have hn := n.isLt
      cases h
      simp (disch := omega) [Pattern.Matches, encode, ← val_digit_three, digit_three_wordXYN]
  | unknown word => contradiction
  | _ =>
      cases h
      simp (disch := omega) [Pattern.Matches, encode, ← val_digit_three, ← toNat_lowByte,
        digit_three_wordXNN, toNat_lowByte_wordXNN]

theorem digit_two_encode {i : Instruction} {x : Register} (h : i.register? = some x) :
    digit i.encode 2 = x := by
  cases i with
  | setByte x nn | addByte x nn | random x nn =>
      cases h
      exact digit_two_wordXNN (by omega) _ nn.toNat_lt
  | combine operation x y =>
      cases h
      exact digit_two_wordXYN (by omega) _ y operation.digit_lt
  | draw x y n =>
      cases h
      exact digit_two_wordXYN (by omega) _ y n.isLt
  | readDelay x | waitKey x | setDelay x | setSound x | addIndex x | fontGlyph x
  | storeDecimal x | storeRegisters x | loadRegisters x =>
      cases h
      exact digit_two_wordXNN (by omega) _ (by omega)
  | _ => contradiction

/-- A word has the pattern of its instruction. -/
theorem matches_of_decode {word : UInt16} {p : Pattern} (h : (decode word).pattern? = some p) :
    p.Matches word :=
  encode_decode word ▸ matches_encode h

theorem digit_two_of_decode {word : UInt16} {x : Register}
    (h : (decode word).register? = some x) : digit word 2 = x :=
  encode_decode word ▸ digit_two_encode h

theorem decode_of_draw {word : UInt16} (h : (Pattern.first 0xD).Matches word) :
    decode word = .draw (digit word 2) (digit word 1) (digit word 0) := by
  have hfirst : (digit word 3).val = 0xD := val_digit_three word ▸ h
  simp only [decode, hfirst]

/-- The low byte picks the instruction in the last family. -/
theorem decode_of_firstAndByte {word : UInt16} {byte : Nat}
    (h : (Pattern.firstAndByte 0xF byte).Matches word) :
    decode word = (ofLowByte? (digit word 2) byte).getD (.unknown word) := by
  obtain ⟨hfirst, hbyte⟩ := h
  rw [← val_digit_three] at hfirst
  rw [← toNat_lowByte] at hbyte
  simp only [decode, hfirst, hbyte]

end Instruction

namespace Machine

/-- The word that a step fetches is the one at the program counter. -/
theorem exists_fetches_iff {m : Machine} {input : Input} {P : UInt16 → Prop} :
    (∃ word, m.Fetches input word ∧ P word) ↔
      ¬m.Idle input ∧ m.pc.toNat + 1 < Memory.size ∧ P (m.memory.peekWord m.pc.toNat) := by
  constructor
  · rintro ⟨word, hfetch, hword⟩
    obtain ⟨hawake, hpc, rfl⟩ := fetches_iff.mp hfetch
    exact ⟨hawake, hpc, hword⟩
  · rintro ⟨hawake, hpc, hword⟩
    exact ⟨_, fetches_iff.mpr ⟨hawake, hpc, rfl⟩, hword⟩

instance (m : Machine) (input : Input) (P : UInt16 → Prop) [DecidablePred P] :
    Decidable (∃ word, m.Fetches input word ∧ P word) :=
  decidable_of_iff _ exists_fetches_iff.symm

/-- The step executes an instruction of this pattern. -/
def Executes (m : Machine) (input : Input) (p : Pattern) : Prop :=
  ∃ word, m.Fetches input word ∧ p.Matches word

instance (m : Machine) (input : Input) (p : Pattern) : Decidable (m.Executes input p) :=
  inferInstanceAs (Decidable (∃ word, m.Fetches input word ∧ p.Matches word))

end Machine

end Chip8
