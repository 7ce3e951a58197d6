import Chip8.Console.Canvas
import Chip8.Proofs.Overlays

/-!
The picture of a screen. The canvas is left open but for what its calls are for: it keeps a colour,
clearing gives this colour to all pixels and filling to those of a rectangle, and what was drawn is
seen once it is presented. The squares of the cells lie side by side, and each pixel of the window
is in the square of one cell; so of the picture before nothing is left.
-/

namespace Chip8.Console

open Canvas

/-! ### Rectangles -/

namespace Rectangle

def Covers (r : Rectangle) (x y : Nat) : Prop :=
  (r.left ≤ x ∧ x < r.left + r.columns) ∧ r.top ≤ y ∧ y < r.top + r.rows

instance (r : Rectangle) (x y : Nat) : Decidable (r.Covers x y) :=
  inferInstanceAs (Decidable (_ ∧ _))

def InWindow (r : Rectangle) : Prop := r.left + r.columns ≤ width ∧ r.top + r.rows ≤ height

theorem mem_pixels {r : Rectangle} {x y : Nat} : (x, y) ∈ r.pixels ↔ r.Covers x y := by
  simp only [pixels, Covers, List.mem_flatMap, List.mem_map, List.mem_range, Prod.mk.injEq]
  constructor
  · rintro ⟨j, hj, i, hi, rfl, rfl⟩
    omega
  · rintro ⟨hx, hy⟩
    exact ⟨y - r.top, by omega, x - r.left, by omega, by omega, by omega⟩

theorem inWindow_square {cell : Nat × Nat} (hx : cell.1 < Screen.width)
    (hy : cell.2 < Screen.height) : (square cell).InWindow := by
  simp only [InWindow, square, scale, width, height, Screen.width, Screen.height] at *
  omega

/-- A pixel is in the square of one cell. -/
theorem covers_square_iff {cell : Nat × Nat} {x y : Nat} :
    (square cell).Covers x y ↔ cell = (x / scale, y / scale) := by
  simp only [Covers, square, scale, Prod.ext_iff]
  omega

end Rectangle

/-! ### Pictures in memory -/

namespace Picture

variable (p : Picture) (colour : Colour) {x y : Nat}

section Pixels

variable (hx : x < width) (hy : y < height)

include hx hy

theorem index_lt : y * width + x < 320 * 640 := by
  simp only [width, height] at *
  omega

theorem pixel?_plain : (plain colour).pixel? x y = some colour := by
  have hin := index_lt hx hy
  simp only [pixel?, if_pos hx, plain, Vector.getElem?_replicate]
  exact if_pos hin

theorem pixel?_setPixel (pixel : Nat × Nat) :
    (p.setPixel pixel.1 pixel.2 colour).pixel? x y =
      if pixel = (x, y) then some colour else p.pixel? x y := by
  have hin := index_lt hx hy
  obtain ⟨i, j⟩ := pixel
  simp only [Prod.mk.injEq]
  unfold setPixel
  split
  · rename_i hi
    have hplace : j * width + i = y * width + x ↔ i = x ∧ j = y := by
      simp only [width] at *
      omega
    simp only [pixel?, if_pos hx, Vector.getElem?_setIfInBounds, hplace]
    split
    · rename_i hsame
      obtain ⟨rfl, rfl⟩ := hsame
      rw [if_pos hin]
    · rfl
  · rename_i hi
    rw [if_neg (by omega)]

/-- Painting pixels in one colour colours all of them, in whatever order. -/
theorem pixel?_setPixels (pixels : List (Nat × Nat)) :
    (pixels.foldl (fun p pixel => p.setPixel pixel.1 pixel.2 colour) p).pixel? x y =
      if (x, y) ∈ pixels then some colour else p.pixel? x y := by
  induction pixels generalizing p with
  | nil => simp
  | cons pixel rest ih =>
      rw [List.foldl_cons, ih, pixel?_setPixel _ _ hx hy, ← ite_or]
      simp only [List.mem_cons, eq_comm, or_comm]

theorem pixel?_fill (r : Rectangle) :
    (p.fill r colour).pixel? x y = if r.Covers x y then some colour else p.pixel? x y := by
  simp only [fill, pixel?_setPixels p colour hx hy, Rectangle.mem_pixels]

end Pixels

/-- A picture is what its pixels are. -/
theorem eq_of_pixel? {p p' : Picture}
    (h : ∀ x < width, ∀ y < height, p.pixel? x y = p'.pixel? x y) : p = p' := by
  refine congrArg Picture.mk (Vector.ext fun i hi => ?_)
  have hx : i % width < width := Nat.mod_lt _ (by decide)
  have hy : i / width < height := Nat.div_lt_of_lt_mul (by simpa [width, height] using hi)
  have hpixel := h _ hx _ hy
  simpa only [pixel?, if_pos hx, Nat.div_add_mod', Vector.getElem?_eq_getElem hi,
    Option.some_inj] using hpixel

/-- The picture shows the screen: a pixel has the colour of lit cells if its cell is lit, and of
dark ones if it is dark. -/
def Shows (p : Picture) (s : Screen) : Prop :=
  ∀ x < width, ∀ y < height,
    p.pixel? x y = some (if s.get (x / scale) (y / scale) then .on else .off)

theorem Shows.eq {p p' : Picture} {s : Screen} (h : p.Shows s) (h' : p'.Shows s) : p = p' :=
  eq_of_pixel? fun x hx y hy => (h x hx y hy).trans (h' x hx y hy).symm

/-- Each cell is seen in the corner of its square. -/
theorem Shows.screen_eq {p : Picture} {s s' : Screen} (h : p.Shows s) (h' : p.Shows s') :
    s = s' := by
  apply Screen.eq_of_get
  intro column row
  have hcolumn : column % Screen.width < Screen.width := Nat.mod_lt _ (by decide)
  have hrow : row % Screen.height < Screen.height := Nat.mod_lt _ (by decide)
  have hplace : Screen.place column row =
      Screen.place (column % Screen.width) (row % Screen.height) := by
    simp only [Screen.place_eq_iff, Nat.mod_mod, and_self]
  have hx : scale * (column % Screen.width) < width :=
    Nat.mul_lt_mul_of_pos_left hcolumn (by decide)
  have hy : scale * (row % Screen.height) < height := Nat.mul_lt_mul_of_pos_left hrow (by decide)
  have hpixel := (h _ hx _ hy).symm.trans (h' _ hx _ hy)
  have hcolour : ∀ lit lit' : Bool,
      (if lit then Colour.on else .off) = (if lit' then .on else .off) → lit = lit' := by decide
  rw [Option.some_inj, Nat.mul_div_cancel_left _ (by decide),
    Nat.mul_div_cancel_left _ (by decide)] at hpixel
  rw [Screen.get_eq_of_place s hplace, Screen.get_eq_of_place s' hplace]
  exact hcolour _ _ hpixel

end Picture

/-! ### Canvases -/

/-- A canvas with states `σ`, as far as it is relied on. -/
structure Surface (σ ε : Type) extends Renderer σ ε where
  drawColour : σ → Colour
  drawn : σ → Picture
  shown : σ → Picture
  drawColour_set (c : σ) (colour : Colour) : drawColour (setDrawColour c colour) = colour
  drawn_set (c : σ) (colour : Colour) : drawn (setDrawColour c colour) = drawn c
  /-- All pixels are cleared in the colour to draw with. -/
  pixel?_clear (c : σ) (x y : Nat) (hx : x < width) (hy : y < height) :
    (drawn (clear c)).pixel? x y = some (drawColour c)
  /-- The pixels of the rectangle get the colour to draw with, and no other pixel changes. -/
  fills (c : σ) (r : Rectangle) (hr : r.InWindow) :
    ∃ filled, fillRectangle c r = .ok filled ∧ drawColour filled = drawColour c ∧
      ∀ x < width, ∀ y < height, (drawn filled).pixel? x y =
        if r.Covers x y then some (drawColour c) else (drawn c).pixel? x y
  shown_present (c : σ) : shown (present c) = drawn c

def Surface.memory : Surface Canvas Empty where
  toRenderer := renderer
  drawColour := Canvas.drawColour
  drawn := Canvas.drawn
  shown := Canvas.shown
  drawColour_set _ _ := rfl
  drawn_set _ _ := rfl
  pixel?_clear c _ _ hx hy := Picture.pixel?_plain c.drawColour hx hy
  fills c r _ := ⟨_, rfl, rfl, fun _ hx _ hy => c.drawn.pixel?_fill c.drawColour hx hy r⟩
  shown_present _ := rfl

theorem mem_litCells {s : Screen} {cell : Nat × Nat} :
    cell ∈ Renderer.litCells s ↔
      cell.1 < Screen.width ∧ cell.2 < Screen.height ∧ s.get cell.1 cell.2 = true := by
  simp only [Renderer.litCells, List.mem_flatMap, List.mem_map, List.mem_filter, List.mem_range]
  constructor
  · rintro ⟨y, hy, x, ⟨hx, hlit⟩, rfl⟩
    exact ⟨hx, hy, hlit⟩
  · rintro ⟨hx, hy, hlit⟩
    exact ⟨cell.2, hy, cell.1, ⟨hx, hlit⟩, rfl⟩

namespace Surface

variable {σ ε : Type} (surface : Surface σ ε)

/-- The squares of some cells can be filled one after the other, in whatever order. -/
theorem exists_fill_squares (c : σ) (cells : List (Nat × Nat))
    (hcells : ∀ cell ∈ cells, (Rectangle.square cell).InWindow) :
    ∃ filled,
      cells.foldlM (fun c cell => surface.fillRectangle c (.square cell)) c = .ok filled ∧
      ∀ x < width, ∀ y < height, (surface.drawn filled).pixel? x y =
        if (x / scale, y / scale) ∈ cells then some (surface.drawColour c)
        else (surface.drawn c).pixel? x y := by
  induction cells generalizing c with
  | nil => exact ⟨c, rfl, fun x _ y _ => by simp⟩
  | cons cell rest ih =>
      rw [List.forall_mem_cons] at hcells
      obtain ⟨first, hfirst, hcolour, hpixel⟩ := surface.fills c _ hcells.1
      obtain ⟨filled, hrest, hpixels⟩ := ih first hcells.2
      refine ⟨filled, ?_, fun x hx y hy => ?_⟩
      · rw [List.foldlM_cons, hfirst]
        exact hrest
      · rw [hpixels x hx y hy, hcolour, hpixel x hx y hy, ← ite_or]
        simp only [Rectangle.covers_square_iff, List.mem_cons, eq_comm, or_comm]

/-- Drawing succeeds, and shows the screen and nothing of what was drawn before. -/
theorem exists_draw (c : σ) (s : Screen) :
    ∃ after, surface.draw c s = .ok after ∧ (surface.shown after).Shows s := by
  have hinside : ∀ cell ∈ Renderer.litCells s, (Rectangle.square cell).InWindow := by
    intro cell hcell
    obtain ⟨hx, hy, -⟩ := mem_litCells.mp hcell
    exact Rectangle.inWindow_square hx hy
  obtain ⟨filled, hfilled, hpixels⟩ := surface.exists_fill_squares
    (surface.setDrawColour (surface.clear (surface.setDrawColour c .off)) .on) _ hinside
  refine ⟨surface.present filled, by rw [Renderer.draw, hfilled]; rfl, fun x hx y hy => ?_⟩
  have hcolumn : x / scale < Screen.width := Nat.div_lt_of_lt_mul hx
  have hrow : y / scale < Screen.height := Nat.div_lt_of_lt_mul hy
  rw [surface.shown_present, hpixels x hx y hy, surface.drawColour_set, surface.drawn_set,
    surface.pixel?_clear _ x y hx hy, surface.drawColour_set]
  simp only [mem_litCells, hcolumn, hrow, true_and]
  split <;> rfl

/-- The picture of a screen is the screen ten times as large, on any canvas and whatever was drawn
on it before: a pixel has the colour of lit cells if its cell is lit, and of dark ones if it is
dark. So a picture tells the screen, and equal screens have equal pictures. -/
theorem draw_exact_picture :
    (∀ (c : σ) (s : Screen), ∃ after, surface.draw c s = .ok after ∧
      ∀ x < 640, ∀ y < 320, (surface.shown after).pixel? x y =
        some (if s.get (x / 10) (y / 10) then .on else .off)) ∧
    Colour.on ≠ Colour.off ∧
    ∀ (c c' after after' : σ) (s s' : Screen), surface.draw c s = .ok after →
      surface.draw c' s' = .ok after' →
        (surface.shown after = surface.shown after' ↔ s = s') := by
  refine ⟨surface.exists_draw, by decide, fun c c' after after' s s' hdraw hdraw' => ?_⟩
  obtain ⟨_, hdrawn, hshows⟩ := surface.exists_draw c s
  obtain ⟨_, hdrawn', hshows'⟩ := surface.exists_draw c' s'
  obtain rfl := Except.ok.inj (hdraw.symm.trans hdrawn)
  obtain rfl := Except.ok.inj (hdraw'.symm.trans hdrawn')
  constructor
  · intro heq
    exact hshows.screen_eq (heq ▸ hshows')
  · rintro rfl
    exact hshows.eq hshows'

theorem draw_memory (c : Canvas) (s : Screen) : memory.draw c s = .ok (c.draw s) := by
  unfold Canvas.draw
  cases hdraw : renderer.draw c s with
  | ok after => exact hdraw
  | error failure => exact failure.elim

/-- In memory, the last cell after the first one: the two pictures differ, and of the first nothing
is left. -/
theorem draw_exact_picture_in_memory :
    let first := Canvas.opening.draw (Screen.blank.flip 0 0)
    let last := first.draw (Screen.blank.flip 63 31)
    (memory.shown first).pixel? 9 9 = some .on ∧ (memory.shown last).pixel? 9 9 = some .off ∧
      (memory.shown last).pixel? 630 310 = some .on ∧
      (memory.shown last).pixel? 629 310 = some .off ∧ memory.shown first ≠ memory.shown last := by
  intro first last
  obtain ⟨hpixels, -, hpictures⟩ := draw_exact_picture memory
  have hfirst : memory.draw Canvas.opening (Screen.blank.flip 0 0) = .ok first := draw_memory _ _
  have hlast : memory.draw first (Screen.blank.flip 63 31) = .ok last := draw_memory _ _
  obtain ⟨_, hdraw, hseen⟩ := hpixels Canvas.opening (Screen.blank.flip 0 0)
  obtain rfl := Except.ok.inj (hfirst.symm.trans hdraw)
  obtain ⟨_, hdraw', hseen'⟩ := hpixels first (Screen.blank.flip 63 31)
  obtain rfl := Except.ok.inj (hlast.symm.trans hdraw')
  have hlit : (Screen.blank.flip 0 0).get 0 0 = true := by simp [Screen.get_flip]
  have hdark : (Screen.blank.flip 63 31).get 0 0 = false := by
    simp [Screen.get_flip, Screen.place_eq_iff]
  refine ⟨?_, ?_, ?_, ?_, fun hsame => ?_⟩
  · rw [hseen 9 (by decide) 9 (by decide), hlit, if_pos rfl]
  · rw [hseen' 9 (by decide) 9 (by decide), hdark, if_neg Bool.false_ne_true]
  · rw [hseen' 630 (by decide) 310 (by decide)]
    simp [Screen.get_flip]
  · rw [hseen' 629 (by decide) 310 (by decide)]
    simp [Screen.get_flip, Screen.place_eq_iff, Screen.width]
  · have hscreens := (hpictures _ _ _ _ _ _ hfirst hlast).mp hsame
    rw [hscreens, hdark] at hlit
    exact Bool.false_ne_true hlit

end Surface

end Chip8.Console
