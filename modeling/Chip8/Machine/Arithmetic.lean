import Chip8.Instruction.Basic

/-!
What an operation on two registers computes: a byte for the first register, and for some operations
a flag. Both are computed from the registers as they were before.
-/

namespace Chip8

def flagOf (b : Bool) : UInt8 := if b then 1 else 0

structure Computed where
  value : UInt8
  flag? : Option UInt8
  deriving DecidableEq, Repr

/-- The result of an operation on the bytes `vx` and `vy`. With `inPlace` a shift works on `vx`
instead of `vy`. Addition flags a carry, subtraction flags that nothing was borrowed, the reverse
subtraction that `vx` is the smaller one, and a shift flags the bit it drops. -/
def Operation.compute (inPlace : Bool) (vx vy : UInt8) : Operation → Computed
  | .copy => ⟨vy, none⟩
  | .or => ⟨vx ||| vy, none⟩
  | .and => ⟨vx &&& vy, none⟩
  | .xor => ⟨vx ^^^ vy, none⟩
  | .add => ⟨vx + vy, some (flagOf (vx.toNat + vy.toNat > 255))⟩
  | .sub => ⟨vx - vy, some (flagOf (vx ≥ vy))⟩
  | .subReverse => ⟨vy - vx, some (flagOf (vx < vy))⟩
  | .shiftRight =>
    let source := if inPlace then vx else vy
    ⟨source >>> 1, some (source &&& 1)⟩
  | .shiftLeft =>
    let source := if inPlace then vx else vy
    ⟨source <<< 1, some (source >>> 7)⟩

end Chip8
