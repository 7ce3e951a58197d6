import Chip8.Instruction.Basic

/-!
From a word to its instruction. The highest hexadecimal digit picks the family; some families are
split further by the lowest digit or the low byte. A word outside every family is kept as unknown.
-/

namespace Chip8

namespace Opcode

/-- The hexadecimal digit of a word at a place, place 0 being the lowest. -/
def digit (word : UInt16) (place : Nat) : Fin 16 :=
  ⟨word.toNat >>> (4 * place) % 16, Nat.mod_lt _ (by decide)⟩

def lowByte (word : UInt16) : UInt8 := UInt8.ofNat word.toNat

def lowAddress (word : UInt16) : Address := ⟨word.toNat % 4096, Nat.mod_lt _ (by decide)⟩

end Opcode

def Operation.ofDigit? : Nat → Option Operation
  | 0x0 => some .copy
  | 0x1 => some .or
  | 0x2 => some .and
  | 0x3 => some .xor
  | 0x4 => some .add
  | 0x5 => some .sub
  | 0x6 => some .shiftRight
  | 0x7 => some .subReverse
  | 0xE => some .shiftLeft
  | _ => none

namespace Instruction

def ofLowByte? (x : Register) : Nat → Option Instruction
  | 0x07 => some (.readDelay x)
  | 0x0A => some (.waitKey x)
  | 0x15 => some (.setDelay x)
  | 0x18 => some (.setSound x)
  | 0x1E => some (.addIndex x)
  | 0x29 => some (.fontGlyph x)
  | 0x33 => some (.storeDecimal x)
  | 0x55 => some (.storeRegisters x)
  | 0x65 => some (.loadRegisters x)
  | _ => none

def keyCondition? (x : Register) : Nat → Option Condition
  | 0x9E => some (.keyHeld x)
  | 0xA1 => some (.keyFree x)
  | _ => none

def decode (word : UInt16) : Instruction :=
  let x := Opcode.digit word 2
  let y := Opcode.digit word 1
  let n := Opcode.digit word 0
  let nn := Opcode.lowByte word
  let nnn := Opcode.lowAddress word
  match (Opcode.digit word 3).val with
  | 0x0 =>
    if word = 0x00E0 then .clearScreen else if word = 0x00EE then .ret else .unknown word
  | 0x1 => .jump nnn
  | 0x2 => .call nnn
  | 0x3 => .skipIf (.byteEq x nn)
  | 0x4 => .skipIf (.byteNe x nn)
  | 0x5 => if n.val = 0 then .skipIf (.regEq x y) else .unknown word
  | 0x6 => .setByte x nn
  | 0x7 => .addByte x nn
  | 0x8 =>
    match Operation.ofDigit? n.val with
    | some operation => .combine operation x y
    | none => .unknown word
  | 0x9 => if n.val = 0 then .skipIf (.regNe x y) else .unknown word
  | 0xA => .setIndex nnn
  | 0xB => .jumpOffset nnn
  | 0xC => .random x nn
  | 0xD => .draw x y n
  | 0xE =>
    match keyCondition? x nn.toNat with
    | some condition => .skipIf condition
    | none => .unknown word
  | _ => (ofLowByte? x nn.toNat).getD (.unknown word)

end Instruction

end Chip8
