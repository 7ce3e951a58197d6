import Chip8.CallStack
import Chip8.Font
import Chip8.Machine.Event
import Chip8.Memory
import Chip8.Registers
import Chip8.Screen
import Chip8.Timers

/-!
The machine: its parts, how it is built from a program and a font, and what can be asked of it.
-/

namespace Chip8

structure Settings where
  loadStore : Bool
  shift : Bool
  deriving DecidableEq, Repr

def Settings.enable (settings : Settings) : Setting → Settings
  | .loadStore => { settings with loadStore := true }
  | .shift => { settings with shift := true }

structure Machine where
  registers : Registers
  index : UInt16
  pc : UInt16
  stack : CallStack
  timers : Timers
  memory : Memory
  screen : Screen
  /-- The keys that were held at the last step. -/
  keys : Keypad
  settings : Settings
  /-- Where the font was loaded. -/
  fontOffset : UInt16
  /-- The register that waits for a key, if one does. -/
  waiting? : Option Register
  /-- Whether the sound timer ran out in the last step. -/
  beep : Bool

/-- What a step gets from outside: the held keys, the milliseconds since the step before, and a
random byte in case the instruction asks for one. -/
structure Input where
  keys : Keypad
  elapsed : UInt32
  random : UInt8
  deriving DecidableEq, Repr

namespace Machine

/-- Where programs are loaded and where they start. -/
abbrev programOffset : Nat := 0x200

/-- The report of an image that was cut off, if it was. -/
def truncation (event : Nat → Nat → Event) (written size : Nat) : List Event :=
  if written < size then [event written size] else []

def empty (fontOffset : UInt16) : Machine where
  registers := .zero
  index := 0
  pc := UInt16.ofNat programOffset
  stack := .empty
  timers := .zero
  memory := .zero
  screen := .blank
  keys := .released
  settings := ⟨false, false⟩
  fontOffset := fontOffset
  waiting? := none
  beep := false

/-- A machine with the font loaded at `fontOffset` and then the program loaded over it. Images that
do not fit are cut off, and each is reported. -/
def build (program font : List UInt8) (fontOffset : UInt16) : Machine × List Event :=
  let machine := empty fontOffset
  let (memory, fontWritten) := machine.memory.load fontOffset.toNat font
  let (memory, programWritten) := memory.load programOffset program
  ({ machine with memory },
    truncation .fontTruncated fontWritten font.length ++
      truncation .programTruncated programWritten program.length)

def enable (m : Machine) (setting : Setting) : Machine × List Event :=
  ({ m with settings := m.settings.enable setting }, [.enabled setting])

/-- Whether the program counter has left memory. -/
def isHalted (m : Machine) : Bool := m.pc.toNat ≥ Memory.size

def setRegister (m : Machine) (x : Register) (value : UInt8) : Machine :=
  { m with registers := m.registers.set x value }

def advance (m : Machine) : Machine := { m with pc := m.pc + 2 }

end Machine

end Chip8
