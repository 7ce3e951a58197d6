import Chip8.Instruction.Basic

/-!
The sixteen registers of one byte each. Register 15 also takes the flag of an instruction that has
one.
-/

namespace Chip8

structure Registers where
  values : Vector UInt8 16
  deriving DecidableEq, Repr

namespace Registers

def zero : Registers := ⟨Vector.replicate 16 0⟩

def get (r : Registers) (x : Register) : UInt8 := r.values[x]

def set (r : Registers) (x : Register) (value : UInt8) : Registers := ⟨r.values.set x value⟩

def upTo (r : Registers) (x : Register) : List UInt8 := r.values.toList.take (x.val + 1)

/-- The registers with the first ones replaced by the given bytes, as far as these reach. -/
def fill (r : Registers) (bytes : List UInt8) : Registers :=
  ⟨Vector.ofFn fun x => bytes[x.val]?.getD (r.get x)⟩

@[simp] theorem get_zero (x : Register) : zero.get x = 0 := by
  simp [zero, get]

theorem get_set (r : Registers) (x y : Register) (value : UInt8) :
    (r.set x value).get y = if x = y then value else r.get y := by
  simp [set, get, Vector.getElem_set, Fin.ext_iff]

@[simp] theorem get_fill (r : Registers) (bytes : List UInt8) (x : Register) :
    (r.fill bytes).get x = bytes[x.val]?.getD (r.get x) := by
  simp [fill, get]

end Registers

end Chip8
