import Chip8.Machine.Arithmetic
import Chip8.Machine.Basic
import Chip8.Sprite

/-!
What each instruction does to the machine. The program counter already points behind the
instruction. An instruction that faults keeps what it has done up to the fault.
-/

namespace Chip8

structure Effect where
  machine : Machine
  fault? : Option Fault
  events : List Event

namespace Effect

def silent (machine : Machine) : Effect := ⟨machine, none, []⟩

def reporting (machine : Machine) (event : Event) : Effect := ⟨machine, none, [event]⟩

end Effect

namespace Machine

def holds (m : Machine) : Condition → Bool
  | .byteEq x nn => m.registers.get x == nn
  | .byteNe x nn => m.registers.get x != nn
  | .regEq x y => m.registers.get x == m.registers.get y
  | .regNe x y => m.registers.get x != m.registers.get y
  | .keyHeld x => m.keys.isHeld (m.registers.get x).toNat
  | .keyFree x => !m.keys.isHeld (m.registers.get x).toNat

/-- Stores what an operation computes. The flag is written first, so the value stays when both go to
the same register. -/
def combine (m : Machine) (operation : Operation) (x y : Register) : Machine :=
  let computed := operation.compute m.settings.shift (m.registers.get x) (m.registers.get y)
  let registers :=
    match computed.flag? with
    | none => m.registers
    | some flag => m.registers.set .flag flag
  { m with registers := registers.set x computed.value }

/-- Moves the index behind the registers up to `x` that were stored or loaded, unless the setting
keeps it in place. -/
def passRegisters (m : Machine) (x : Register) : Machine :=
  if m.settings.loadStore then m else { m with index := m.index + UInt16.ofNat (x.val + 1) }

def decimalDigits (value : UInt8) : List UInt8 := [value / 100, value % 100 / 10, value % 10]

def call (m : Machine) (nnn : Address) : Effect :=
  match m.stack.push m.pc with
  | .error fault => ⟨m, some fault, []⟩
  | .ok stack => .reporting { m with stack, pc := nnn.toWord } (.called nnn stack.depth)

def ret (m : Machine) : Effect :=
  match m.stack.pop? with
  | none => .reporting m .returnIgnored
  | some (address, stack) => .silent { m with stack, pc := address }

/-- Draws the sprite of `n` rows at the index. The rows that can be read are drawn, and the flag
register says whether a lit cell was erased. -/
def draw (m : Machine) (x y : Register) (n : Nat) : Effect :=
  let column := (m.registers.get x).toNat % Screen.width
  let line := (m.registers.get y).toNat % Screen.height
  let (rows, fault?) := m.memory.readRun m.index.toNat n
  let (screen, erased) := m.screen.draw column line rows
  let drawn := { m with screen, registers := m.registers.set .flag (flagOf erased) }
  match fault? with
  | some fault => ⟨drawn, some fault, []⟩
  | none => .reporting drawn (.drew n column line)

def storeDecimal (m : Machine) (x : Register) : Effect :=
  let (memory, fault?) := m.memory.writeRun m.index.toNat (decimalDigits (m.registers.get x))
  ⟨{ m with memory }, fault?, []⟩

/-- Writes the registers up to `x` at the index, and moves the index when all were written. -/
def storeRegisters (m : Machine) (x : Register) : Effect :=
  let (memory, fault?) := m.memory.writeRun m.index.toNat (m.registers.upTo x)
  let stored := { m with memory }
  ⟨if fault?.isNone then stored.passRegisters x else stored, fault?, []⟩

/-- Reads the registers up to `x` from the index on, and moves the index when all were read. -/
def loadRegisters (m : Machine) (x : Register) : Effect :=
  let (bytes, fault?) := m.memory.readRun m.index.toNat (x.val + 1)
  let loaded := { m with registers := m.registers.fill bytes }
  ⟨if fault?.isNone then loaded.passRegisters x else loaded, fault?, []⟩

def execute (m : Machine) (input : Input) : Instruction → Effect
  | .clearScreen => .reporting { m with screen := .blank } .clearedScreen
  | .ret => m.ret
  | .jump nnn => .silent { m with pc := nnn.toWord }
  | .jumpOffset nnn => .silent { m with pc := nnn.toWord + (m.registers.get .offset).toUInt16 }
  | .call nnn => m.call nnn
  | .skipIf condition => .silent (if m.holds condition then m.advance else m)
  | .setByte x nn => .silent (m.setRegister x nn)
  | .addByte x nn => .silent (m.setRegister x (m.registers.get x + nn))
  | .combine operation x y => .silent (m.combine operation x y)
  | .setIndex nnn => .silent { m with index := nnn.toWord }
  | .random x nn => .silent (m.setRegister x (nn &&& input.random))
  | .draw x y n => m.draw x y n.val
  | .readDelay x => .silent (m.setRegister x m.timers.delay)
  | .waitKey x => .reporting { m with waiting? := some x } (.waiting x)
  | .setDelay x => .silent { m with timers.delay := m.registers.get x }
  | .setSound x => .silent { m with timers.sound := m.registers.get x }
  | .addIndex x => .silent { m with index := m.index + (m.registers.get x).toUInt16 }
  | .fontGlyph x =>
    .silent { m with index := Font.glyphAddress m.fontOffset (m.registers.get x) }
  | .storeDecimal x => m.storeDecimal x
  | .storeRegisters x => m.storeRegisters x
  | .loadRegisters x => m.loadRegisters x
  | .unknown word => .reporting m (.ignored word (m.pc - 2))

end Machine

end Chip8
