import Chip8.Proofs.Execute
import Mathlib.Data.List.Nodup

/-!
Drawing. No sprite has more rows than the screen, so wrapping never lets it cover a cell twice: each
cell under it is flipped once, whatever was flipped before. What the flag says of one flip after the
other is then a fact about the screens before and after the whole sprite.
-/

namespace Chip8

namespace Screen

def places (cells : List (Nat × Nat)) : List (Fin (height * width)) :=
  cells.map fun cell => place cell.1 cell.2

theorem places_append (cells cells' : List (Nat × Nat)) :
    places (cells ++ cells') = places cells ++ places cells' :=
  List.map_append

theorem mem_places {cells : List (Nat × Nat)} {p : Fin (height * width)} :
    p ∈ places cells ↔ ∃ x y, (x, y) ∈ cells ∧ place x y = p := by
  simp [places]

theorem mem_places_cons {cell : Nat × Nat} {rest : List (Nat × Nat)} {p : Fin (height * width)} :
    p ∈ places (cell :: rest) ↔ p = place cell.1 cell.2 ∨ p ∈ places rest :=
  List.mem_cons

theorem nodup_places_cons {cell : Nat × Nat} {rest : List (Nat × Nat)} :
    (places (cell :: rest)).Nodup ↔ place cell.1 cell.2 ∉ places rest ∧ (places rest).Nodup :=
  List.nodup_cons

theorem get_eq_of_place {x y x' y' : Nat} (s : Screen) (h : place x y = place x' y') :
    s.get x y = s.get x' y' := by
  simp only [get, h]

theorem get_flip_of_ne {x y x' y' : Nat} (s : Screen) (h : place x y ≠ place x' y') :
    (s.flip x y).get x' y' = s.get x' y' := by
  rw [get_flip, if_neg h]

/-- Cells of different places are flipped independently of each other. -/
theorem get_flipAll_ne_iff (s : Screen) {cells : List (Nat × Nat)} (h : (places cells).Nodup)
    (x y : Nat) : (s.flipAll cells).1.get x y ≠ s.get x y ↔ place x y ∈ places cells := by
  induction cells generalizing s with
  | nil => exact iff_of_false (fun hne => hne rfl) List.not_mem_nil
  | cons cell rest ih =>
      obtain ⟨hnew, hrest⟩ := nodup_places_cons.mp h
      have hstep : (s.flipAll (cell :: rest)).1 = ((s.flip cell.1 cell.2).flipAll rest).1 := rfl
      have hlater := ih (s.flip cell.1 cell.2) hrest
      rw [hstep, mem_places_cons]
      by_cases hcell : place cell.1 cell.2 = place x y
      · -- flipped now, and not again later
        have hkept := Decidable.not_not.mp (mt hlater.mp (hcell ▸ hnew))
        rw [get_flip, if_pos hcell, s.get_eq_of_place hcell] at hkept
        rw [hkept]
        exact iff_of_true (by simp) (.inl hcell.symm)
      · rw [s.get_flip_of_ne hcell] at hlater
        exact hlater.trans (or_iff_right (Ne.symm hcell)).symm

theorem erased_flipAll (s : Screen) {cells : List (Nat × Nat)} (h : (places cells).Nodup) :
    (s.flipAll cells).2 = true ↔ ∃ x y, place x y ∈ places cells ∧ s.get x y = true := by
  induction cells generalizing s with
  | nil => simp [flipAll, places]
  | cons cell rest ih =>
      obtain ⟨hnew, hrest⟩ := nodup_places_cons.mp h
      have hstep : (s.flipAll (cell :: rest)).2 =
          (s.get cell.1 cell.2 || ((s.flip cell.1 cell.2).flipAll rest).2) := rfl
      -- the cell that is flipped first is not among the rest
      have hkept : ∀ x y, place x y ∈ places rest →
          (s.flip cell.1 cell.2).get x y = s.get x y := by
        intro x y hmem
        exact s.get_flip_of_ne fun hcell => hnew (hcell ▸ hmem)
      rw [hstep, Bool.or_eq_true, ih _ hrest]
      constructor
      · rintro (hlit | ⟨x, y, hmem, hlit⟩)
        · exact ⟨cell.1, cell.2, mem_places_cons.mpr (.inl rfl), hlit⟩
        · exact ⟨x, y, mem_places_cons.mpr (.inr hmem), hkept x y hmem ▸ hlit⟩
      · rintro ⟨x, y, hmem, hlit⟩
        rcases mem_places_cons.mp hmem with hcell | hmem
        · exact .inl (s.get_eq_of_place hcell ▸ hlit)
        · exact .inr ⟨x, y, hmem, (hkept x y hmem).trans hlit⟩

/-- Something was erased if a lit cell is dark afterwards. -/
theorem erased_flipAll_iff (s : Screen) {cells : List (Nat × Nat)} (h : (places cells).Nodup) :
    (s.flipAll cells).2 = true ↔
      ∃ x y, s.get x y = true ∧ (s.flipAll cells).1.get x y = false := by
  rw [s.erased_flipAll h]
  refine exists_congr fun x => exists_congr fun y => ?_
  rw [← s.get_flipAll_ne_iff h, and_comm]
  refine and_congr_right fun hlit => ?_
  rw [hlit, ne_eq, Bool.not_eq_true]

end Screen

namespace Sprite

open Screen (place places place_eq_iff)

theorem mem_columns {row : UInt8} {column : Nat} :
    column ∈ columns row ↔ column < width ∧ row.toNat.testBit (7 - column) = true := by
  rw [columns, List.mem_filter, List.mem_range]

theorem nodup_columns (row : UInt8) : (columns row).Nodup := List.nodup_range.filter _

theorem mem_footprint {x y i j : Nat} {rows : List UInt8} :
    (i, j) ∈ footprint x y rows ↔
      ∃ line row column, rows[line]? = some row ∧ column ∈ columns row ∧
        i = x + column ∧ j = y + line := by
  induction rows generalizing y with
  | nil => simp [footprint]
  | cons row rest ih =>
      rw [footprint, List.mem_append, ih, List.mem_map]
      constructor
      · rintro (⟨column, hcolumn, hcell⟩ | ⟨line, row', column, hrow, hcolumn, hi, hj⟩)
        · obtain ⟨rfl, rfl⟩ := Prod.mk.inj hcell
          exact ⟨0, row, column, rfl, hcolumn, rfl, rfl⟩
        · exact ⟨line + 1, row', column, hrow, hcolumn, hi, by omega⟩
      · rintro ⟨line, row', column, hrow, hcolumn, hi, hj⟩
        cases line with
        | zero =>
            rw [List.getElem?_cons_zero, Option.some_inj] at hrow
            exact .inl ⟨column, hrow ▸ hcolumn, Prod.ext hi.symm hj.symm⟩
        | succ line => exact .inr ⟨line, row', column, hrow, hcolumn, hi, by omega⟩

/-- A sprite that is no higher than the screen covers no cell twice. -/
theorem nodup_places_footprint (x y : Nat) {rows : List UInt8} (h : rows.length ≤ Screen.height) :
    (places (footprint x y rows)).Nodup := by
  induction rows generalizing y with
  | nil => exact List.nodup_nil
  | cons row rest ih =>
      rw [List.length_cons] at h
      have hrow : (places ((columns row).map (x + ·, y))).Nodup := by
        rw [places, List.map_map]
        refine (nodup_columns row).map_on fun column hcolumn column' hcolumn' hplace => ?_
        have hleft := (mem_columns.mp hcolumn).1
        have hright := (mem_columns.mp hcolumn').1
        have hwrap := (place_eq_iff.mp hplace).1
        simp only [width, Screen.width] at hleft hright hwrap
        omega
      rw [footprint, Screen.places_append]
      refine hrow.append (ih (y + 1) (by omega)) fun p hfirst hbelow => ?_
      -- the rows below the first one do not get around to its line again
      obtain ⟨i, j, hcell, rfl⟩ := Screen.mem_places.mp hfirst
      obtain ⟨i', j', hcell', hplace⟩ := Screen.mem_places.mp hbelow
      obtain ⟨column, -, hcell⟩ := List.mem_map.mp hcell
      obtain ⟨-, rfl⟩ := Prod.mk.inj hcell
      obtain ⟨line, row', column', hline, -, -, rfl⟩ := mem_footprint.mp hcell'
      have hlt : line < rest.length := (List.getElem?_eq_some_iff.mp hline).1
      have hwrap := (place_eq_iff.mp hplace).2
      simp only [Screen.height] at h hwrap
      omega

/-- Which cells a sprite covers, seen from the cell: its distance from the corner, right and down,
around the edges, names a row and a column that is set in it. -/
theorem mem_places_footprint {x y : Nat} (hx : x < Screen.width) (hy : y < Screen.height)
    {rows : List UInt8} (h : rows.length ≤ Screen.height) (px py : Nat) :
    place px py ∈ places (footprint x y rows) ↔
      ∃ row, rows[(py + 32 - y) % 32]? = some row ∧ (px + 64 - x) % 64 ∈ columns row := by
  simp only [Screen.width, Screen.height] at hx hy h
  rw [Screen.mem_places]
  constructor
  · rintro ⟨i, j, hcell, hplace⟩
    obtain ⟨line, row, column, hrow, hcolumn, rfl, rfl⟩ := mem_footprint.mp hcell
    obtain ⟨hi, hj⟩ := place_eq_iff.mp hplace
    simp only [Screen.width, Screen.height] at hi hj
    have hlt : line < rows.length := (List.getElem?_eq_some_iff.mp hrow).1
    have hwidth := (mem_columns.mp hcolumn).1
    have hline : (py + 32 - y) % 32 = line := by omega
    have hdistance : (px + 64 - x) % 64 = column := by
      simp only [width] at hwidth
      omega
    rw [hline, hdistance]
    exact ⟨row, hrow, hcolumn⟩
  · rintro ⟨row, hrow, hcolumn⟩
    refine ⟨_, _, mem_footprint.mpr ⟨_, row, _, hrow, hcolumn, rfl, rfl⟩, ?_⟩
    rw [place_eq_iff]
    simp only [Screen.width, Screen.height]
    omega

end Sprite

namespace Machine

section Draw

variable (m : Machine) (x y : Register) (n : Nat)

def spriteRows : List UInt8 := (m.memory.readRun m.index.toNat n).1

/-- The screen and the flag of drawing a sprite as far as its rows are in memory. -/
def drawRows : Screen × Bool :=
  m.screen.draw ((m.registers.get x).toNat % Screen.width)
    ((m.registers.get y).toNat % Screen.height) (m.spriteRows n)

theorem exists_spriteRows (line column : Nat) :
    (∃ row, (m.spriteRows n)[line]? = some row ∧ column ∈ Sprite.columns row) ↔
      line < min n (Memory.size - m.index.toNat) ∧ column < Sprite.width ∧
        (m.memory.peek (m.index.toNat + line)).toNat.testBit (7 - column) = true := by
  simp only [spriteRows, Memory.getElem?_readRun, Option.ite_none_right_eq_some, Option.some_inj,
    ← Sprite.mem_columns]
  constructor
  · rintro ⟨row, ⟨hline, rfl⟩, hcolumn⟩
    exact ⟨hline, hcolumn⟩
  · rintro ⟨hline, hcolumn⟩
    exact ⟨_, ⟨hline, rfl⟩, hcolumn⟩

theorem draw_machine :
    (m.draw x y n).machine =
      { m with
        screen := (m.drawRows x y n).1
        registers := m.registers.set .flag (flagOf (m.drawRows x y n).2) } := by
  unfold draw
  dsimp only
  split <;> rfl

end Draw

/-- Drawing flips exactly the cells under its sprite, whole or cut off at the end of memory.

The sprite's corner is where the two registers say, wrapped onto the screen, even when one of them
is the flag register. Those of its rows are drawn that are in memory. A cell changes if its distance
from the corner, right and down, names a bit that is set in one of them. The flag says whether a lit
cell is dark afterwards. The drawing fails if a row was missing, and then names the first address
behind memory. Nothing but the screen and the flag register changes. -/
theorem draw_exact (m : Machine) (input : Input) (x y : Register) (n : Fin 16) :
    let x0 := (m.registers.get x).toNat % 64
    let y0 := (m.registers.get y).toNat % 32
    let i := m.index.toNat
    let k := min n.val (4096 - i)
    let drawn := m.execute input (.draw x y n)
    (∀ px py,
      let r := (py + 32 - y0) % 32
      let c := (px + 64 - x0) % 64
      drawn.machine.screen.get px py ≠ m.screen.get px py ↔
        r < k ∧ c < 8 ∧ (m.memory.peek (i + r)).toNat.testBit (7 - c) = true) ∧
    (∃ erased : Bool,
      (erased = true ↔
        ∃ px py, m.screen.get px py = true ∧ drawn.machine.screen.get px py = false) ∧
      drawn.machine =
        { m with
          screen := drawn.machine.screen
          registers := m.registers.set .flag (if erased then 1 else 0) }) ∧
    drawn.fault? = if k = n.val then none else some (.memoryFault (max i 4096)) := by
  intro x0 y0 i k drawn
  have hmachine : drawn.machine = _ := m.draw_machine x y n.val
  have hfault : drawn.fault? = _ := m.draw_fault? x y n.val
  have hrows : (m.spriteRows n.val).length ≤ Screen.height :=
    Nat.le_trans (m.memory.length_readRun_le i n.val) (by simp only [Screen.height]; omega)
  have hx0 : x0 < Screen.width := Nat.mod_lt _ (by decide)
  have hy0 : y0 < Screen.height := Nat.mod_lt _ (by decide)
  have honce := Sprite.nodup_places_footprint x0 y0 hrows
  refine ⟨fun px py => ?_, ⟨(m.drawRows x y n.val).2, ?_, ?_⟩, ?_⟩
  · have hcovered := Sprite.mem_places_footprint hx0 hy0 hrows px py
    rw [hmachine]
    exact (m.screen.get_flipAll_ne_iff honce px py).trans
      (hcovered.trans (m.exists_spriteRows n.val _ _))
  · rw [hmachine]
    exact m.screen.erased_flipAll_iff honce
  · rw [hmachine]
    rfl
  · rw [hfault, Memory.overrun?_eq_ite]

end Machine

end Chip8
