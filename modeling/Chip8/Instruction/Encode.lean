import Chip8.Instruction.Basic

/-!
From an instruction to its word. The operands fill the digits of the word from the second highest
on; the rest of the word names the instruction.
-/

namespace Chip8

def Operation.digit : Operation → Nat
  | .copy => 0x0
  | .or => 0x1
  | .and => 0x2
  | .xor => 0x3
  | .add => 0x4
  | .sub => 0x5
  | .shiftRight => 0x6
  | .subReverse => 0x7
  | .shiftLeft => 0xE

namespace Instruction

def wordNNN (family : Nat) (nnn : Address) : UInt16 := UInt16.ofNat (family * 4096 + nnn.val)

def wordXNN (family : Nat) (x : Register) (nn : Nat) : UInt16 :=
  UInt16.ofNat (family * 4096 + x.val * 256 + nn)

def wordXYN (family : Nat) (x y : Register) (n : Nat) : UInt16 :=
  UInt16.ofNat (family * 4096 + x.val * 256 + y.val * 16 + n)

def encodeSkip : Condition → UInt16
  | .byteEq x nn => wordXNN 0x3 x nn.toNat
  | .byteNe x nn => wordXNN 0x4 x nn.toNat
  | .regEq x y => wordXYN 0x5 x y 0x0
  | .regNe x y => wordXYN 0x9 x y 0x0
  | .keyHeld x => wordXNN 0xE x 0x9E
  | .keyFree x => wordXNN 0xE x 0xA1

def encode : Instruction → UInt16
  | .clearScreen => 0x00E0
  | .ret => 0x00EE
  | .jump nnn => wordNNN 0x1 nnn
  | .call nnn => wordNNN 0x2 nnn
  | .skipIf condition => encodeSkip condition
  | .setByte x nn => wordXNN 0x6 x nn.toNat
  | .addByte x nn => wordXNN 0x7 x nn.toNat
  | .combine operation x y => wordXYN 0x8 x y operation.digit
  | .setIndex nnn => wordNNN 0xA nnn
  | .jumpOffset nnn => wordNNN 0xB nnn
  | .random x nn => wordXNN 0xC x nn.toNat
  | .draw x y n => wordXYN 0xD x y n.val
  | .readDelay x => wordXNN 0xF x 0x07
  | .waitKey x => wordXNN 0xF x 0x0A
  | .setDelay x => wordXNN 0xF x 0x15
  | .setSound x => wordXNN 0xF x 0x18
  | .addIndex x => wordXNN 0xF x 0x1E
  | .fontGlyph x => wordXNN 0xF x 0x29
  | .storeDecimal x => wordXNN 0xF x 0x33
  | .storeRegisters x => wordXNN 0xF x 0x55
  | .loadRegisters x => wordXNN 0xF x 0x65
  | .unknown word => word

end Instruction

end Chip8
