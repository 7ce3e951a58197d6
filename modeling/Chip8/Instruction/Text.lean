import Chip8.Instruction.Basic
import Chip8.Text.Record

/-!
The text of an instruction in the log: its name, then its operands with their names, in decimal.
-/

namespace Chip8

def Operation.name : Operation → String
  | .copy => "Copy"
  | .or => "Or"
  | .and => "And"
  | .xor => "Xor"
  | .add => "Add"
  | .sub => "Sub"
  | .shiftRight => "ShiftRight"
  | .subReverse => "SubReverse"
  | .shiftLeft => "ShiftLeft"

namespace Instruction

def fieldsNNN (nnn : Address) : Text.Fields := [("nnn", toString nnn.val)]

def fieldsX (x : Register) : Text.Fields := [("x", toString x.val)]

def fieldsXNN (x : Register) (nn : UInt8) : Text.Fields :=
  [("x", toString x.val), ("nn", toString nn.toNat)]

def fieldsXY (x y : Register) : Text.Fields := [("x", toString x.val), ("y", toString y.val)]

def skipText : Condition → String
  | .byteEq x nn => Text.record "SkipEqImm" (fieldsXNN x nn)
  | .byteNe x nn => Text.record "SkipNeImm" (fieldsXNN x nn)
  | .regEq x y => Text.record "SkipEqReg" (fieldsXY x y)
  | .regNe x y => Text.record "SkipNeReg" (fieldsXY x y)
  | .keyHeld x => Text.record "SkipKeyPressed" (fieldsX x)
  | .keyFree x => Text.record "SkipKeyReleased" (fieldsX x)

/-- The text of an instruction. A word that is no instruction is shown as the word itself. -/
def text : Instruction → String
  | .clearScreen => Text.record "ClearScreen" []
  | .ret => Text.record "Return" []
  | .jump nnn => Text.record "Jump" (fieldsNNN nnn)
  | .jumpOffset nnn => Text.record "JumpOffset" (fieldsNNN nnn)
  | .call nnn => Text.record "Call" (fieldsNNN nnn)
  | .skipIf condition => skipText condition
  | .setByte x nn => Text.record "SetImm" (fieldsXNN x nn)
  | .addByte x nn => Text.record "AddImm" (fieldsXNN x nn)
  | .combine operation x y => Text.record operation.name (fieldsXY x y)
  | .setIndex nnn => Text.record "SetIndex" (fieldsNNN nnn)
  | .random x nn => Text.record "Random" (fieldsXNN x nn)
  | .draw x y n => Text.record "Draw" (fieldsXY x y ++ [("n", toString n.val)])
  | .readDelay x => Text.record "ReadDelay" (fieldsX x)
  | .waitKey x => Text.record "WaitKey" (fieldsX x)
  | .setDelay x => Text.record "SetDelay" (fieldsX x)
  | .setSound x => Text.record "SetSound" (fieldsX x)
  | .addIndex x => Text.record "AddIndex" (fieldsX x)
  | .fontGlyph x => Text.record "FontGlyph" (fieldsX x)
  | .storeDecimal x => Text.record "StoreBcd" (fieldsX x)
  | .storeRegisters x => Text.record "StoreRegs" (fieldsX x)
  | .loadRegisters x => Text.record "LoadRegs" (fieldsX x)
  | .unknown word => s!"Unknown({word.toNat})"

end Instruction

end Chip8
