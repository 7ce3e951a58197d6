import Chip8.Instruction.Decode
import Chip8.Machine.Step
import Chip8.Proofs.Checked.Parts

/-!
The machine on numbers and arrays: how it is built, what its instructions do, its step, and what can
be asked of it. Registers are reached by index, operands are cut out of the word, and loops count.
Whatever could leave its type or its array is an operation that may trap.
-/

namespace Chip8

namespace Checked

/-! ### Registers -/

def readRegister (r : Registers) (x : Nat) : Attempt UInt8 := item r.values x

def writeRegister (r : Registers) (x : Nat) (value : UInt8) : Attempt Registers := do
  return ⟨← replace r.values x value⟩

def combine (b : Build) (inPlace : Bool) (r : Registers) (x y : Nat) :
    Operation → Attempt Registers
  | .copy => do writeRegister r x (← readRegister r y)
  | .or => do writeRegister r x ((← readRegister r x) ||| (← readRegister r y))
  | .and => do writeRegister r x ((← readRegister r x) &&& (← readRegister r y))
  | .xor => do writeRegister r x ((← readRegister r x) ^^^ (← readRegister r y))
  | .add => do
    let vx ← readRegister r x
    let vy ← readRegister r y
    let sum ← b.add 16 vx.toNat vy.toNat
    writeRegister (← writeRegister r Register.flag.val (flagOf (sum > 255))) x (vx + vy)
  | .sub => do
    let vx ← readRegister r x
    let vy ← readRegister r y
    writeRegister (← writeRegister r Register.flag.val (flagOf (vx ≥ vy))) x (vx - vy)
  | .subReverse => do
    let vx ← readRegister r x
    let vy ← readRegister r y
    writeRegister (← writeRegister r Register.flag.val (flagOf (vx < vy))) x (vy - vx)
  | .shiftRight => do
    let value ← readRegister r (if inPlace then x else y)
    let r ← writeRegister r Register.flag.val (value &&& 1)
    writeRegister r x (UInt8.ofNat (← b.shr 8 value.toNat 1))
  | .shiftLeft => do
    let value ← readRegister r (if inPlace then x else y)
    let r ← writeRegister r Register.flag.val
      (UInt8.ofNat (← b.shr 8 (value &&& 0x80).toNat 7))
    writeRegister r x (UInt8.ofNat (← b.shl 8 value.toNat 1))

/-- The decimal digits of a byte, each to be computed when it is wanted. -/
def decimalDigits (value : UInt8) : List (Attempt UInt8) := [
  do return UInt8.ofNat (← quotient value.toNat 100),
  do return UInt8.ofNat (← quotient (← remainder value.toNat 100) 10),
  do return UInt8.ofNat (← remainder value.toNat 10)]

def noteErased (r : Registers) (erased : Bool) : Attempt Registers :=
  if erased then writeRegister r Register.flag.val 1 else return r

/-! ### Operands -/

/-- The operands that a word may have, as they are cut out of it. -/
structure Operands where
  x : Nat
  y : Nat
  n : Nat
  nn : UInt8
  nnn : UInt16

def Build.operands (b : Build) (word : UInt16) : Attempt Operands := do
  let _ ← b.shr 16 (word &&& 0xF000).toNat 12
  let x ← b.shr 16 (word &&& 0x0F00).toNat 8
  let y ← b.shr 16 (word &&& 0x00F0).toNat 4
  return ⟨x, y, (word &&& 0x000F).toNat, (word &&& 0x00FF).toUInt8, word &&& 0x0FFF⟩

/-! ### Loops -/

namespace Build

variable (b : Build)

/-- Computes bytes one after the other and writes each at `base + i`, from `i` on. -/
def writeEach (memory : Memory) (base i : Nat) :
    List (Attempt UInt8) → Attempt (Memory × Option Fault)
  | [] => return (memory, none)
  | value :: rest => do
    match memory.write (← b.add b.sizeBits base i) (← value) with
    | .error fault => return (memory, some fault)
    | .ok memory => writeEach memory base (i + 1) rest

/-- Reads a byte at `base + i` into each of the registers `i`. -/
def loadEach (memory : Memory) (base : Nat) (r : Registers) :
    List Nat → Attempt (Registers × Option Fault)
  | [] => return (r, none)
  | i :: rest => do
    match memory.read (← b.add b.sizeBits base i) with
    | .error fault => return (r, some fault)
    | .ok byte => loadEach memory base (← writeRegister r i byte) rest

/-- Draws the bits of one row of a sprite, by how far each is from the left. -/
def drawRow (x y row : Nat) (sprite : UInt8) (cells : Cells) (r : Registers) :
    List Nat → Attempt (Cells × Registers)
  | [] => return (cells, r)
  | shift :: rest => do
    if sprite.toNat &&& (← b.shr 8 0x80 shift) = 0 then drawRow x y row sprite cells r rest
    else
      let (cells, erased) ←
        cells.flip (← b.add b.sizeBits x shift) (← b.add b.sizeBits y row)
      drawRow x y row sprite cells (← noteErased r erased) rest

def drawRows (memory : Memory) (index x y : Nat) (cells : Cells) (r : Registers) :
    List Nat → Attempt (Cells × Registers × Option Fault)
  | [] => return (cells, r, none)
  | row :: rest => do
    match memory.read (← b.add b.sizeBits index row) with
    | .error fault => return (cells, r, some fault)
    | .ok sprite => do
      let (cells, r) ← b.drawRow x y row sprite cells r (List.range 8)
      drawRows memory index x y cells r rest

end Build

/-! ### Machines -/

/-- The machine on numbers and arrays. -/
structure State where
  registers : Registers
  index : UInt16
  pc : UInt16
  stack : Frames
  timers : Timers
  memory : Memory
  cells : Cells
  keys : Keypad
  settings : Settings
  fontOffset : UInt16
  waiting? : Option Nat
  beep : Bool

namespace State

def build (b : Build) (program font : List UInt8) (fontOffset : UInt16) : Attempt State := do
  let (memory, _) ← b.load .zero fontOffset.toNat font
  let (memory, _) ← b.load memory Machine.programOffset program
  return {
    registers := .zero
    index := 0
    pc := UInt16.ofNat Machine.programOffset
    stack := .empty
    timers := .zero
    memory
    cells := .dark
    keys := .released
    settings := ⟨false, false⟩
    fontOffset
    waiting? := none
    beep := false }

def enable (c : State) (setting : Setting) : State :=
  { c with settings := c.settings.enable setting }

variable (b : Build) (c : State) (input : Input) (o : Operands)

def setRegister (x : Nat) (value : UInt8) : Attempt State := do
  return { c with registers := ← writeRegister c.registers x value }

def holds : Condition → Attempt Bool
  | .byteEq _ _ => do return (← readRegister c.registers o.x) == o.nn
  | .byteNe _ _ => do return (← readRegister c.registers o.x) != o.nn
  | .regEq _ _ => do return (← readRegister c.registers o.x) == (← readRegister c.registers o.y)
  | .regNe _ _ => do return (← readRegister c.registers o.x) != (← readRegister c.registers o.y)
  | .keyHeld _ => do b.isHeld c.keys (← readRegister c.registers o.x).toNat
  | .keyFree _ => do return !(← b.isHeld c.keys (← readRegister c.registers o.x).toNat)

def passRegisters (x : Nat) : Attempt State :=
  if c.settings.loadStore then return c
  else do
    return { c with index := c.index + UInt16.ofNat (← b.add 16 (x % 2 ^ 16) 1) }

def finish (x : Nat) (fault? : Option Fault) : Attempt (State × Option Fault) :=
  if fault?.isNone then do return (← c.passRegisters b x, none) else return (c, fault?)

def draw : Attempt (State × Option Fault) := do
  let x ← remainder (← readRegister c.registers o.x).toNat Screen.width
  let y ← remainder (← readRegister c.registers o.y).toNat Screen.height
  let r ← writeRegister c.registers Register.flag.val 0
  let (cells, registers, fault?) ←
    b.drawRows c.memory c.index.toNat x y c.cells r (List.range o.n)
  return ({ c with cells, registers }, fault?)

def storeDecimal : Attempt (State × Option Fault) := do
  let value ← readRegister c.registers o.x
  let (memory, fault?) ← b.writeEach c.memory c.index.toNat 0 (decimalDigits value)
  return ({ c with memory }, fault?)

def storeRegisters : Attempt (State × Option Fault) := do
  let (memory, fault?) ←
    b.writeEach c.memory c.index.toNat 0 ((List.range (o.x + 1)).map (readRegister c.registers))
  { c with memory }.finish b o.x fault?

def loadRegisters : Attempt (State × Option Fault) := do
  let (registers, fault?) ←
    b.loadEach c.memory c.index.toNat c.registers (List.range (o.x + 1))
  { c with registers }.finish b o.x fault?

def execute : Instruction → Attempt (State × Option Fault)
  | .clearScreen => return ({ c with cells := .dark }, none)
  | .ret => do
    match ← c.stack.pop b with
    | (none, _) => return (c, none)
    | (some address, stack) => return ({ c with stack, pc := address }, none)
  | .jump _ => return ({ c with pc := o.nnn }, none)
  | .jumpOffset _ => do
    let offset ← readRegister c.registers Register.offset.val
    return ({ c with pc := o.nnn + offset.toUInt16 }, none)
  | .call _ => do
    match ← c.stack.push b c.pc with
    | .error fault => return (c, some fault)
    | .ok stack => return ({ c with stack, pc := o.nnn }, none)
  | .skipIf condition => do
    if ← c.holds b o condition then return ({ c with pc := c.pc + 2 }, none)
    else return (c, none)
  | .setByte _ _ => do return (← c.setRegister o.x o.nn, none)
  | .addByte _ _ => do
    return (← c.setRegister o.x ((← readRegister c.registers o.x) + o.nn), none)
  | .combine operation _ _ => do
    let registers ← combine b c.settings.shift c.registers o.x o.y operation
    return ({ c with registers }, none)
  | .setIndex _ => return ({ c with index := o.nnn }, none)
  | .random _ _ => do return (← c.setRegister o.x (o.nn &&& input.random), none)
  | .draw _ _ _ => c.draw b o
  | .readDelay _ => do return (← c.setRegister o.x c.timers.delay, none)
  | .waitKey _ => return ({ c with waiting? := some o.x }, none)
  | .setDelay _ => do return ({ c with timers.delay := ← readRegister c.registers o.x }, none)
  | .setSound _ => do return ({ c with timers.sound := ← readRegister c.registers o.x }, none)
  | .addIndex _ => do
    let value ← readRegister c.registers o.x
    return ({ c with index := c.index + value.toUInt16 }, none)
  | .fontGlyph _ => do
    let digit := (← readRegister c.registers o.x) &&& 0x0F
    let start ← b.mul 16 digit.toNat Font.glyphSize
    return ({ c with index := c.fontOffset + UInt16.ofNat start }, none)
  | .storeDecimal _ => c.storeDecimal b o
  | .storeRegisters _ => c.storeRegisters b o
  | .loadRegisters _ => c.loadRegisters b o
  | .unknown _ => return (c, none)

def answer : State × Option Fault → State × Except Fault Bool
  | (c, some fault) => (c, .error fault)
  | (c, none) => (c, .ok (c.pc.toNat ≥ Memory.size))

/-- Lets the time of the step pass, and fetches and executes an instruction. -/
def proceed : Attempt (State × Except Fault Bool) := do
  let (timers, beep) ← b.advance c.timers input.elapsed
  let c := { c with timers, beep }
  match ← b.readWord c.memory c.pc.toNat with
  | .error fault => return (c, .error fault)
  | .ok word => do
    let fetched := { c with pc := c.pc + 2 }
    return answer (← fetched.execute b input (← b.operands word) (Instruction.decode word))

def step : Attempt (State × Except Fault Bool) :=
  let c := { c with keys := input.keys, beep := false }
  match c.waiting? with
  | none => c.proceed b input
  | some x => do
    match ← b.firstHeld c.keys (List.range 16) with
    | none => return (c, .ok false)
    | some key => do
      let given ← c.setRegister x (UInt8.ofNat key)
      { given with waiting? := none }.proceed b input

end State

end Checked

/-! ### Requests -/

inductive Request where
  | enable (setting : Setting)
  | step (input : Input)
  /-- Whether a cell is lit. Coordinates may be anything. -/
  | cell (x y : Nat)
  | litCount

inductive Answer where
  | enabled
  | stepped (result : Except Fault Bool)
  | cell (lit : Bool)
  | litCount (count : Nat)

namespace Machine

def serve (m : Machine) : Request → Machine × Answer
  | .enable setting => ((m.enable setting).1, .enabled)
  | .step input => ((m.step input).machine, .stepped (m.step input).result)
  | .cell x y => (m, .cell (m.screen.get x y))
  | .litCount => (m, .litCount m.screen.litCount)

def serveAll (m : Machine) : List Request → Machine × List Answer
  | [] => (m, [])
  | request :: rest =>
    let (served, answer) := m.serve request
    let (last, answers) := served.serveAll rest
    (last, answer :: answers)

end Machine

namespace Checked.State

def serve (b : Build) (c : State) : Request → Attempt (State × Answer)
  | .enable setting => return (c.enable setting, .enabled)
  | .step input => do
    let (c, result) ← c.step b input
    return (c, .stepped result)
  | .cell x y => do return (c, .cell (← c.cells.get x y))
  | .litCount => do return (c, .litCount (← c.cells.litCount b))

def serveAll (b : Build) (c : State) : List Request → Attempt (State × List Answer)
  | [] => return (c, [])
  | request :: rest => do
    let (c, answer) ← c.serve b request
    let (c, answers) ← c.serveAll b rest
    return (c, answer :: answers)

end Checked.State

end Chip8
