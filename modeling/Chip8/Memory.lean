import Chip8.Fault

/-!
The machine's memory: 4096 bytes. Every access takes a natural number as its address, and an access
outside memory is a fault that names the address. Runs of bytes are read and written in ascending
order up to the first byte that does not exist.
-/

namespace Chip8

structure Memory where
  bytes : Vector UInt8 4096

namespace Memory

abbrev size : Nat := 4096

def zero : Memory := ⟨Vector.replicate size 0⟩

def read (m : Memory) (address : Nat) : Except Fault UInt8 :=
  if h : address < size then .ok m.bytes[address] else .error (.memoryFault address)

theorem read_of_lt (m : Memory) {address : Nat} (h : address < size) :
    m.read address = .ok m.bytes[address] := by
  simp [read, h]

theorem read_of_le (m : Memory) {address : Nat} (h : size ≤ address) :
    m.read address = .error (.memoryFault address) := by
  simp [read, Nat.not_lt.mpr h]

def write (m : Memory) (address : Nat) (value : UInt8) : Except Fault Memory :=
  if h : address < size then .ok ⟨m.bytes.set address value⟩ else .error (.memoryFault address)

/-- Two bytes as one word, the first one high. -/
def word (high low : UInt8) : UInt16 := UInt16.ofNat (256 * high.toNat + low.toNat)

/-- The word at an address. The high byte is tried first. -/
def readWord (m : Memory) (address : Nat) : Except Fault UInt16 :=
  match m.read address with
  | .error fault => .error fault
  | .ok high =>
    match m.read (address + 1) with
    | .error fault => .error fault
    | .ok low => .ok (word high low)

/-- The bytes from an address on, `count` of them or as many as there are, and the fault of the
first one that is missing. -/
def readRun (m : Memory) (address : Nat) : Nat → List UInt8 × Option Fault
  | 0 => ([], none)
  | count + 1 =>
    match m.read address with
    | .error fault => ([], some fault)
    | .ok byte =>
      let (rest, fault?) := m.readRun (address + 1) count
      (byte :: rest, fault?)

/-- Writes bytes one after the other from an address on. Those before the first one that does not
fit are written, and that one's fault is reported. -/
def writeRun (m : Memory) (address : Nat) : List UInt8 → Memory × Option Fault
  | [] => (m, none)
  | byte :: rest =>
    if h : address < size then
      writeRun ⟨m.bytes.set address byte⟩ (address + 1) rest
    else
      (m, some (.memoryFault address))

/-- How many of `count` bytes fit from `offset` on. -/
def room (offset count : Nat) : Nat := min count (size - min offset size)

/-- Copies an image into memory from `offset` on. What does not fit is cut off; the number of bytes
written is reported. -/
def load (m : Memory) (offset : Nat) (image : List UInt8) : Memory × Nat :=
  ((m.writeRun offset image).1, room offset image.length)

end Memory

end Chip8
