import Chip8.Screen

/-!
Sprites: eight cells wide, one byte a row, the leftmost cell in the byte's highest bit.
-/

namespace Chip8.Sprite

abbrev width : Nat := 8

/-- The columns of a row that are set, from the left. -/
def columns (row : UInt8) : List Nat :=
  (List.range width).filter fun column => row.toNat.testBit (7 - column)

/-- The cells that a sprite covers when its top left corner is in column `x` of row `y`. -/
def footprint (x y : Nat) : List UInt8 → List (Nat × Nat)
  | [] => []
  | row :: rest => (columns row).map (x + ·, y) ++ footprint x (y + 1) rest

end Chip8.Sprite

namespace Chip8.Screen

def draw (s : Screen) (x y : Nat) (sprite : List UInt8) : Screen × Bool :=
  s.flipAll (Sprite.footprint x y sprite)

end Chip8.Screen
