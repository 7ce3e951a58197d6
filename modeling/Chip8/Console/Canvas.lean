import Chip8.Screen

/-!
The picture of the screen: a window of 640 by 320 pixels, ten by ten for each cell, in one colour
for lit cells and one for dark ones. It is drawn over whatever was there before, by what a canvas
can be asked for: to keep a colour to draw with, to be cleared in it, to fill rectangles with it,
and to show what was drawn.
-/

namespace Chip8.Console

structure Colour where
  red : UInt8
  green : UInt8
  blue : UInt8
  deriving DecidableEq, Repr

def Colour.off : Colour := ⟨143, 145, 133⟩

def Colour.on : Colour := ⟨17, 29, 43⟩

def windowTitle : String := "chip8vm"

namespace Canvas

abbrev scale : Nat := 10

abbrev width : Nat := 640

abbrev height : Nat := 320

end Canvas

open Canvas

structure Rectangle where
  left : Nat
  top : Nat
  columns : Nat
  rows : Nat
  deriving DecidableEq, Repr

def Rectangle.pixels (r : Rectangle) : List (Nat × Nat) :=
  (List.range r.rows).flatMap fun j =>
    (List.range r.columns).map fun i => (r.left + i, r.top + j)

def Rectangle.square (cell : Nat × Nat) : Rectangle :=
  ⟨scale * cell.1, scale * cell.2, scale, scale⟩

/-- What a canvas with states `σ` can be asked for. Only filling can fail. -/
structure Renderer (σ ε : Type) where
  setDrawColour : σ → Colour → σ
  clear : σ → σ
  fillRectangle : σ → Rectangle → Except ε σ
  present : σ → σ

namespace Renderer

variable {σ ε : Type} (renderer : Renderer σ ε) (c : σ)

def opening : σ := renderer.present (renderer.clear (renderer.setDrawColour c .off))

def litCells (s : Screen) : List (Nat × Nat) :=
  (List.range Screen.height).flatMap fun y =>
    ((List.range Screen.width).filter (s.get · y)).map (·, y)

/-- Draws a screen over the canvas, up to the first square that cannot be filled. -/
def draw (s : Screen) : Except ε σ := do
  let cleared := renderer.clear (renderer.setDrawColour c .off)
  let filled ← (litCells s).foldlM (fun c cell => renderer.fillRectangle c (.square cell))
    (renderer.setDrawColour cleared .on)
  return renderer.present filled

end Renderer

/-- The pixels of a window, row after row from the top, each row from the left. -/
structure Picture where
  pixels : Vector Colour (320 * 640)

namespace Picture

def plain (colour : Colour) : Picture := ⟨Vector.replicate (height * width) colour⟩

def pixel? (p : Picture) (x y : Nat) : Option Colour :=
  if x < width then p.pixels[y * width + x]? else none

def setPixel (p : Picture) (x y : Nat) (colour : Colour) : Picture :=
  if x < width then ⟨p.pixels.setIfInBounds (y * width + x) colour⟩ else p

def fill (p : Picture) (r : Rectangle) (colour : Colour) : Picture :=
  r.pixels.foldl (fun p pixel => p.setPixel pixel.1 pixel.2 colour) p

def row (p : Picture) (y : Nat) : List Colour := (List.range width).filterMap (p.pixel? · y)

def rows (p : Picture) : List (List Colour) := (List.range height).map p.row

end Picture

/-- A canvas in memory: the colour to draw with, the picture that is drawn and the one that is
seen. -/
structure Canvas where
  drawColour : Colour
  drawn : Picture
  shown : Picture

namespace Canvas

/-- Filling never fails. -/
def renderer : Renderer Canvas Empty where
  setDrawColour c colour := { c with drawColour := colour }
  clear c := { c with drawn := .plain c.drawColour }
  fillRectangle c r := .ok { c with drawn := c.drawn.fill r c.drawColour }
  present c := { c with shown := c.drawn }

def black : Canvas := ⟨⟨0, 0, 0⟩, .plain ⟨0, 0, 0⟩, .plain ⟨0, 0, 0⟩⟩

def opening : Canvas := renderer.opening black

def draw (c : Canvas) (s : Screen) : Canvas :=
  match renderer.draw c s with
  | .ok drawn => drawn

def rows (c : Canvas) : List (List Colour) := c.shown.rows

end Canvas

end Chip8.Console
