/-!
The instruction set. An instruction is one word; its operands are registers, bytes, a row count or
an address of twelve bits.
-/

namespace Chip8

abbrev Register := Fin 16

def Register.flag : Register := 15

/-- The register that moves a jump. -/
def Register.offset : Register := 0

/-- An address that fits into an instruction. -/
abbrev Address := Fin 4096

def Address.toWord (address : Address) : UInt16 := UInt16.ofNat address.val

@[simp] theorem Address.toNat_toWord (address : Address) :
    address.toWord.toNat = address.val := by
  have hlt : address.val < 65536 := Nat.lt_trans address.isLt (by decide)
  simp [toWord, Nat.mod_eq_of_lt hlt]

/-- An address plus a byte still fits into a word. -/
theorem Address.toNat_toWord_add (address : Address) (offset : UInt8) :
    (address.toWord + offset.toUInt16).toNat = address.val + offset.toNat := by
  have haddress := address.isLt
  have hoffset := offset.toNat_lt
  simp only [UInt16.toNat_add, toNat_toWord, UInt8.toNat_toUInt16]
  omega

/-- When a skip instruction skips. -/
inductive Condition where
  | byteEq (x : Register) (nn : UInt8)
  | byteNe (x : Register) (nn : UInt8)
  | regEq (x y : Register)
  | regNe (x y : Register)
  /-- The key whose number the register holds is held. -/
  | keyHeld (x : Register)
  /-- No held key has the number that the register holds. -/
  | keyFree (x : Register)
  deriving DecidableEq, Repr

/-- What an instruction on two registers computes for the first of them. -/
inductive Operation where
  | copy | or | and | xor | add | sub | shiftRight | subReverse | shiftLeft
  deriving DecidableEq, Repr

inductive Instruction where
  | clearScreen
  /-- Goes back to the newest return address. -/
  | ret
  | jump (nnn : Address)
  /-- Jumps to the address plus register 0. -/
  | jumpOffset (nnn : Address)
  | call (nnn : Address)
  | skipIf (condition : Condition)
  | setByte (x : Register) (nn : UInt8)
  | addByte (x : Register) (nn : UInt8)
  | combine (operation : Operation) (x y : Register)
  | setIndex (nnn : Address)
  /-- Sets the register to a random byte, masked by `nn`. -/
  | random (x : Register) (nn : UInt8)
  /-- Draws a sprite of `n` rows at the place that two registers give. -/
  | draw (x y : Register) (n : Fin 16)
  | readDelay (x : Register)
  | waitKey (x : Register)
  | setDelay (x : Register)
  | setSound (x : Register)
  | addIndex (x : Register)
  /-- Points the index at the font's glyph for a digit. -/
  | fontGlyph (x : Register)
  | storeDecimal (x : Register)
  | storeRegisters (x : Register)
  | loadRegisters (x : Register)
  /-- A word that is no instruction; it does nothing. -/
  | unknown (word : UInt16)
  deriving DecidableEq, Repr

end Chip8
