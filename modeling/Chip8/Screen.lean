/-!
The screen: 64 by 32 cells, each lit or dark. Coordinates wrap on both axes. Drawing flips cells, so
a cell that is drawn on twice is as before, and a lit cell that is flipped counts as erased.
-/

namespace Chip8

/-- The cells of the screen, row after row from the top, each row from the left. -/
structure Screen where
  cells : Vector Bool (32 * 64)

namespace Screen

abbrev width : Nat := 64

abbrev height : Nat := 32

def blank : Screen := ⟨Vector.replicate (height * width) false⟩

def place (x y : Nat) : Fin (height * width) :=
  ⟨y % height * width + x % width, by
    have hx : x % 64 < 64 := Nat.mod_lt _ (by decide)
    have hy : y % 32 < 32 := Nat.mod_lt _ (by decide)
    simp only [width, height]
    omega⟩

/-- Whether the cell in column `x` of row `y` is lit. -/
def get (s : Screen) (x y : Nat) : Bool := s.cells[place x y]

def flip (s : Screen) (x y : Nat) : Screen := ⟨s.cells.set (place x y) (!s.get x y)⟩

/-- Two pairs of coordinates name one cell if they wrap to the same. -/
theorem place_eq_iff {x y x' y' : Nat} :
    place x y = place x' y' ↔ x % width = x' % width ∧ y % height = y' % height := by
  simp only [place, Fin.mk.injEq, width, height]
  omega

@[simp] theorem get_blank (x y : Nat) : blank.get x y = false := by
  simp [blank, get]

theorem get_flip (s : Screen) (x y x' y' : Nat) :
    (s.flip x y).get x' y' =
      if place x y = place x' y' then !s.get x y else s.get x' y' := by
  simp [flip, get, Vector.getElem_set, Fin.ext_iff]

/-- Flips cells one after the other, and says whether one of them was lit when its turn came. -/
def flipAll (s : Screen) : List (Nat × Nat) → Screen × Bool
  | [] => (s, false)
  | (x, y) :: rest =>
    let lit := s.get x y
    let (flipped, erased) := (s.flip x y).flipAll rest
    (flipped, lit || erased)

def row (s : Screen) (y : Nat) : List Bool := (List.range width).map (s.get · y)

def rows (s : Screen) : List (List Bool) := (List.range height).map s.row

def litCount (s : Screen) : Nat := s.cells.count true

end Screen

end Chip8
