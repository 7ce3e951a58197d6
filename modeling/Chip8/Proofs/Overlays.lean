import Chip8.Proofs.Drawing
import Chip8.Proofs.Footprint
import Mathlib.Data.List.FinRange

/-!
Sprites drawn over each other. A sprite at a place covers a set of cells, and drawing it flips these
cells and no others, whatever is on the screen. So it does not matter in which order sprites are
drawn, and the same sprite drawn twice at one place leaves no trace. How many cells are lit, and
what the flag says, follows from the same fact, counted over the whole screen.
-/

namespace Chip8

def Sprite.bitCount (row : UInt8) : Nat := (List.range width).countP row.toNat.testBit

/-- A sprite at a place: where its top left corner is, and its rows, no more than fit on the
screen. -/
structure Stamp where
  column : Fin Screen.width
  line : Fin Screen.height
  rows : List UInt8
  length_le : rows.length ≤ Screen.height
  deriving DecidableEq, Repr

namespace Stamp

/-- Whether a set bit of the sprite is on the cell. The distance of the cell from the corner, right
and down, goes around the edges of the screen. -/
def covers (stamp : Stamp) (px py : Nat) : Bool :=
  match stamp.rows[(py + 32 - stamp.line.val) % 32]? with
  | none => false
  | some row =>
    let distance := (px + 64 - stamp.column.val) % 64
    distance < 8 && row.toNat.testBit (7 - distance)

def setBits (stamp : Stamp) : Nat :=
  stamp.rows.foldr (fun row rest => Sprite.bitCount row + rest) 0

def cells (stamp : Stamp) : List (Nat × Nat) :=
  Sprite.footprint stamp.column.val stamp.line.val stamp.rows

def drawOn (stamp : Stamp) (s : Screen) : Screen × Bool :=
  s.draw stamp.column.val stamp.line.val stamp.rows

end Stamp

/-! ### The cells of a sprite -/

namespace Sprite

/-- A row has as many columns as set bits. -/
theorem length_columns (row : UInt8) : (columns row).length = bitCount row := by
  have hreverse : ((List.range width).map fun column => 7 - column).Perm (List.range width) := by
    decide
  rw [columns, bitCount, ← List.countP_eq_length_filter, ← hreverse.countP_eq, List.countP_map]
  rfl

theorem length_footprint (x y : Nat) (rows : List UInt8) :
    (footprint x y rows).length = rows.foldr (fun row rest => bitCount row + rest) 0 := by
  induction rows generalizing y with
  | nil => rfl
  | cons row rest ih =>
      rw [footprint, List.length_append, List.length_map, length_columns, ih, List.foldr_cons]

end Sprite

namespace Stamp

variable (stamp : Stamp) (s : Screen)

theorem nodup_places : (Screen.places stamp.cells).Nodup :=
  Sprite.nodup_places_footprint _ _ stamp.length_le

theorem mem_places_iff (px py : Nat) :
    Screen.place px py ∈ Screen.places stamp.cells ↔ stamp.covers px py = true := by
  have hcells := Sprite.mem_places_footprint stamp.column.isLt stamp.line.isLt stamp.length_le px py
  refine hcells.trans ?_
  unfold covers
  cases stamp.rows[(py + 32 - stamp.line.val) % 32]? with
  | none => simp
  | some row => simp [Sprite.mem_columns]

theorem length_places : (Screen.places stamp.cells).length = stamp.setBits := by
  rw [Screen.places, List.length_map]
  exact Sprite.length_footprint _ _ stamp.rows

/-- Drawing a sprite flips the cells that it covers. -/
theorem get_drawOn (px py : Nat) :
    (stamp.drawOn s).1.get px py = (s.get px py ^^ stamp.covers px py) := by
  have hflips : (stamp.drawOn s).1.get px py ≠ s.get px py ↔ stamp.covers px py = true :=
    (s.get_flipAll_ne_iff stamp.nodup_places px py).trans (stamp.mem_places_iff px py)
  cases hcovers : stamp.covers px py with
  | false =>
      have hkept := mt hflips.mp (by rw [hcovers]; exact Bool.false_ne_true)
      rw [Decidable.not_not.mp hkept, Bool.xor_false]
  | true =>
      rw [Bool.xor_true]
      exact Bool.eq_not_of_ne (hflips.mpr hcovers)

/-- The flag says whether a lit cell was covered. -/
theorem erases_iff :
    (stamp.drawOn s).2 = true ↔
      ∃ px py, stamp.covers px py = true ∧ s.get px py = true := by
  have herased := s.erased_flipAll stamp.nodup_places
  simp only [mem_places_iff] at herased
  exact herased

end Stamp

namespace Screen

/-! ### Sprites over each other -/

theorem place_cell (p : Fin (height * width)) : place (p.val % width) (p.val / width) = p := by
  have hlt : p.val < 32 * 64 := p.isLt
  apply Fin.ext
  simp only [place, width, height]
  omega

/-- A screen is what its cells are. -/
theorem eq_of_get {s t : Screen} (h : ∀ px py, s.get px py = t.get px py) : s = t := by
  refine congrArg Screen.mk (Vector.ext fun p hlt => ?_)
  have hcell := h (p % width) (p / width)
  simp only [get, place_cell ⟨p, hlt⟩] at hcell
  exact hcell

/-- The screen after sprites are drawn on it, one after the other. -/
def overlay (s : Screen) (stamps : List Stamp) : Screen :=
  stamps.foldl (fun screen stamp => (stamp.drawOn screen).1) s

theorem overlay_cons (s : Screen) (stamp : Stamp) (rest : List Stamp) :
    s.overlay (stamp :: rest) = (stamp.drawOn s).1.overlay rest := rfl

theorem overlay_append (s : Screen) (stamps stamps' : List Stamp) :
    s.overlay (stamps ++ stamps') = (s.overlay stamps).overlay stamps' :=
  List.foldl_append

/-- A cell is flipped once for each sprite that covers it. -/
theorem get_overlay (s : Screen) (stamps : List Stamp) (px py : Nat) :
    (s.overlay stamps).get px py =
      stamps.foldl (fun lit stamp => lit ^^ stamp.covers px py) (s.get px py) := by
  induction stamps generalizing s with
  | nil => rfl
  | cons stamp rest ih => rw [overlay_cons, ih, Stamp.get_drawOn, List.foldl_cons]

theorem drawOn_comm (s : Screen) (stamp stamp' : Stamp) :
    (stamp'.drawOn (stamp.drawOn s).1).1 = (stamp.drawOn (stamp'.drawOn s).1).1 := by
  refine eq_of_get fun px py => ?_
  simp only [Stamp.get_drawOn]
  exact Bool.xor_right_comm ..

theorem drawOn_twice (s : Screen) (stamp : Stamp) : (stamp.drawOn (stamp.drawOn s).1).1 = s := by
  refine eq_of_get fun px py => ?_
  simp only [Stamp.get_drawOn, Bool.xor_assoc, Bool.xor_self, Bool.xor_false]

theorem overlay_perm (s : Screen) {stamps stamps' : List Stamp} (h : stamps.Perm stamps') :
    s.overlay stamps = s.overlay stamps' :=
  h.foldl_eq' (fun stamp _ stamp' _ screen => screen.drawOn_comm stamp stamp') s

/-- What is drawn twice is not there. -/
theorem overlay_cancel (s : Screen) (stamp : Stamp) (front between back : List Stamp) :
    s.overlay (front ++ stamp :: (between ++ stamp :: back)) =
      s.overlay (front ++ (between ++ back)) := by
  have hnext : (between ++ stamp :: back).Perm (stamp :: (between ++ back)) := List.perm_middle
  rw [overlay_append, overlay_cons, overlay_perm _ hnext, overlay_cons, drawOn_twice,
    ← overlay_append]

/-! ### Counting cells -/

theorem litCount_eq (s : Screen) :
    s.litCount = (List.finRange (height * width)).countP fun p => s.cells[p] := by
  have hcells : List.ofFn (fun p : Fin (height * width) => s.cells[p]) = s.cells.toList :=
    Vector.toList_ofFn.symm.trans (congrArg Vector.toList Vector.ofFn_getElem)
  rw [litCount, ← Vector.count_toList, ← hcells, List.ofFn_eq_map, List.count_eq_countP,
    List.countP_map]
  exact List.countP_congr fun p _ => by simp

/-- How many of the cells that are lit on the first screen are dark on the second one. -/
def erasedCount (s t : Screen) : Nat :=
  (List.finRange (height * width)).countP fun p => s.cells[p] && !t.cells[p]

theorem erasedCount_eq_zero_iff (s t : Screen) :
    s.erasedCount t = 0 ↔ ¬∃ px py, s.get px py = true ∧ t.get px py = false := by
  rw [erasedCount, List.countP_eq_zero]
  constructor
  · rintro hnone ⟨px, py, hlit, hdark⟩
    have hcell := hnone (place px py) (List.mem_finRange _)
    simp only [get] at hlit hdark
    simp [hlit, hdark] at hcell
  · intro hnone p _ hcell
    rw [Bool.and_eq_true, Bool.not_eq_true'] at hcell
    refine hnone ⟨p.val % width, p.val / width, ?_⟩
    simp only [get, place_cell]
    exact hcell

/-- Where some elements change sides, those inside afterwards are as many as those inside before and
those that change, less two for each that leaves. -/
theorem countP_flip {α : Type} {before after changed : α → Bool}
    (h : ∀ a, after a = (before a ^^ changed a)) (l : List α) :
    l.countP after + 2 * l.countP (fun a => before a && !after a) =
      l.countP before + l.countP changed := by
  induction l with
  | nil => rfl
  | cons a rest ih =>
      simp only [List.countP_cons]
      rw [h a]
      cases before a <;> cases changed a <;> simp <;> omega

end Screen

namespace Stamp

variable (stamp : Stamp) (s : Screen)

/-- No two of the set bits cover the same cell. -/
theorem countP_covers :
    (List.finRange (Screen.height * Screen.width)).countP
        (fun p => stamp.covers (p.val % Screen.width) (p.val / Screen.width)) =
      stamp.setBits := by
  have hperm : ((List.finRange (Screen.height * Screen.width)).filter
      fun p => stamp.covers (p.val % Screen.width) (p.val / Screen.width)).Perm
      (Screen.places stamp.cells) := by
    refine (List.perm_ext_iff_of_nodup ((List.nodup_finRange _).filter _) stamp.nodup_places).mpr
      fun p => ?_
    rw [List.mem_filter, ← stamp.mem_places_iff, Screen.place_cell]
    exact and_iff_right (List.mem_finRange p)
  rw [List.countP_eq_length_filter, hperm.length_eq, stamp.length_places]

theorem litCount_drawOn :
    (stamp.drawOn s).1.litCount + 2 * s.erasedCount (stamp.drawOn s).1 =
      s.litCount + stamp.setBits := by
  rw [Screen.litCount_eq, Screen.litCount_eq, ← stamp.countP_covers]
  refine Screen.countP_flip (fun p => ?_) _
  have hcell := stamp.get_drawOn s (p.val % Screen.width) (p.val / Screen.width)
  simp only [Screen.get, Screen.place_cell] at hcell
  exact hcell

/-- Without the flag every set bit is a new lit cell. -/
theorem drawOn_eq_false_iff :
    (stamp.drawOn s).2 = false ↔ (stamp.drawOn s).1.litCount = s.litCount + stamp.setBits := by
  have hcount := stamp.litCount_drawOn s
  have hflag : (stamp.drawOn s).2 = true ↔
      ∃ px py, s.get px py = true ∧ (stamp.drawOn s).1.get px py = false :=
    s.erased_flipAll_iff stamp.nodup_places
  rw [← Bool.not_eq_true, hflag, ← Screen.erasedCount_eq_zero_iff]
  omega

/-- The second time a sprite is drawn, it erases the cells that the first time lit. -/
theorem erases_again_iff :
    (stamp.drawOn (stamp.drawOn s).1).2 = true ↔
      ∃ px py, stamp.covers px py = true ∧ s.get px py = false := by
  rw [stamp.erases_iff]
  refine exists_congr fun px => exists_congr fun py => and_congr_right fun hcovers => ?_
  rw [stamp.get_drawOn, hcovers, Bool.xor_true, Bool.not_eq_true']

end Stamp

/-! ### Drawings of a machine -/

theorem flagOf_eq_zero_iff {b : Bool} : flagOf b = 0 ↔ b = false := by
  cases b <;> decide

theorem flagOf_eq_one_iff {b : Bool} : flagOf b = 1 ↔ b = true := by
  cases b <;> decide

/-- A draw in a sequence of them: its operands, its input, and the machine that it comes upon, apart
from memory and screen. -/
structure Drawing where
  x : Register
  y : Register
  n : Fin 16
  input : Input
  around : Machine

/-- The sprite that is drawn: as many of its rows as are in memory. -/
def Drawing.stamp (d : Drawing) (memory : Memory) : Stamp where
  column := ⟨(d.around.registers.get d.x).toNat % Screen.width, Nat.mod_lt _ (by decide)⟩
  line := ⟨(d.around.registers.get d.y).toNat % Screen.height, Nat.mod_lt _ (by decide)⟩
  rows := (List.range (min d.n.val (Memory.size - d.around.index.toNat))).map
    fun row => memory.peek (d.around.index.toNat + row)
  length_le := by
    rw [List.length_map, List.length_range]
    have hn := d.n.isLt
    exact Nat.le_trans (Nat.min_le_left ..) (by simp only [Screen.height]; omega)

namespace Machine

def drawing (m : Machine) (d : Drawing) : Effect :=
  { d.around with memory := m.memory, screen := m.screen }.execute d.input (.draw d.x d.y d.n)

def afterDrawings (m : Machine) (ds : List Drawing) : Machine :=
  ds.foldl (fun machine d => (machine.drawing d).machine) m

theorem afterDrawings_cons (m : Machine) (d : Drawing) (rest : List Drawing) :
    m.afterDrawings (d :: rest) = (m.drawing d).machine.afterDrawings rest := rfl

section One

variable (m : Machine) (d : Drawing)

theorem spriteRows_eq (n : Nat) :
    m.spriteRows n = (List.range (min n (Memory.size - m.index.toNat))).map
      fun row => m.memory.peek (m.index.toNat + row) := by
  refine List.ext_getElem? fun row => ?_
  rw [spriteRows, Memory.getElem?_readRun, List.getElem?_map]
  by_cases hrow : row < min n (Memory.size - m.index.toNat)
  · rw [if_pos hrow, List.getElem?_range hrow]
    rfl
  · rw [if_neg hrow, List.getElem?_eq_none (by rw [List.length_range]; omega)]
    rfl

theorem drawing_machine :
    (m.drawing d).machine =
      { d.around with
        memory := m.memory
        screen := ((d.stamp m.memory).drawOn m.screen).1
        registers := d.around.registers.set .flag
          (flagOf ((d.stamp m.memory).drawOn m.screen).2) } := by
  rw [drawing, execute, draw_machine]
  simp only [drawRows, spriteRows_eq]
  rfl

theorem drawing_memory : (m.drawing d).machine.memory = m.memory := by
  rw [drawing_machine]

theorem drawing_screen :
    (m.drawing d).machine.screen = ((d.stamp m.memory).drawOn m.screen).1 := by
  rw [drawing_machine]

theorem drawing_flag :
    (m.drawing d).machine.registers.get .flag =
      flagOf ((d.stamp m.memory).drawOn m.screen).2 := by
  rw [drawing_machine, Registers.get_set, if_pos rfl]

end One

theorem afterDrawings_screen (m : Machine) (ds : List Drawing) :
    (m.afterDrawings ds).screen = m.screen.overlay (ds.map (·.stamp m.memory)) := by
  induction ds generalizing m with
  | nil => rfl
  | cons d rest ih =>
      rw [afterDrawings_cons, ih, drawing_memory, drawing_screen, List.map_cons,
        Screen.overlay_cons]

/-! ### The drawings of a run -/

def drawing? (m : Machine) (input : Input) : Option Drawing :=
  if m.Executes input (.first 0xD) then
    let word := m.memory.peekWord m.pc.toNat
    some ⟨Opcode.digit word 2, Opcode.digit word 1, Opcode.digit word 0, input,
      (m.ready input).advance⟩
  else none

def drawings (m : Machine) (inputs : List Input) : List Drawing :=
  (m.stages inputs).filterMap fun stage => stage.machine.drawing? stage.input

section Run

variable {m : Machine} {input : Input}

theorem step_screen_of_drawing {d : Drawing} (h : m.drawing? input = some d) :
    (m.step input).machine.screen = ((d.stamp m.memory).drawOn m.screen).1 := by
  unfold drawing? at h
  split at h
  case isFalse => contradiction
  case isTrue hdraw =>
    obtain ⟨word, hfetch, hmatches⟩ := hdraw
    obtain ⟨-, -, rfl⟩ := fetches_iff.mp hfetch
    have hmet : (m.effect input (m.memory.peekWord m.pc.toNat)).machine =
        (m.drawing d).machine := by
      rw [effect, Instruction.decode_of_draw hmatches, ← Option.some_inj.mp h, drawing]
      simp only [advance, ← m.ready_memory input, ← m.ready_screen input]
    rw [step_of_fetches hfetch, hmet, drawing_screen]

/-- A step that draws nothing and does not clear the screen leaves it as it is. -/
theorem step_screen_of_none (h : m.drawing? input = none)
    (hclear : ¬m.Executes input (.whole 0x00E0)) : (m.step input).machine.screen = m.screen := by
  refine Classical.byContradiction fun hne => ?_
  have hchanged : ¬Part.screen.Same m (m.step input).machine := hne
  obtain hreadied | ⟨word, hfetch, p, hp, hmatches⟩ := affected_of_step hchanged
  · exact hreadied
  · simp only [List.mem_cons, List.not_mem_nil, or_false] at hp
    rcases hp with rfl | rfl
    · exact hclear ⟨word, hfetch, hmatches⟩
    · have hdraw : m.Executes input (.first 0xD) := ⟨word, hfetch, hmatches⟩
      rw [drawing?, if_pos hdraw] at h
      contradiction

theorem step_memory (hdecimal : ¬m.Executes input (.firstAndByte 0xF 0x33))
    (hstore : ¬m.Executes input (.firstAndByte 0xF 0x55)) :
    (m.step input).machine.memory = m.memory := by
  refine Memory.eq_of_peek fun address _ => Classical.byContradiction fun hne => ?_
  have hchanged : ¬(Part.byte address).Same m (m.step input).machine := hne
  obtain hreadied | ⟨word, hfetch, -, -, ⟨hword, -⟩ | ⟨hword, -⟩⟩ := affected_of_step hchanged
  · exact hreadied
  · exact hdecimal ⟨word, hfetch, hword⟩
  · exact hstore ⟨word, hfetch, hword⟩

/-- Where a run neither clears the screen nor writes memory, its screen is the first one with what
the run draws over it. -/
theorem run_screen {inputs : List Input}
    (h : ∀ stage ∈ m.stages inputs,
      ∀ p ∈ [Pattern.whole 0x00E0, .firstAndByte 0xF 0x33, .firstAndByte 0xF 0x55],
        ¬stage.machine.Executes stage.input p) :
    (m.run inputs).screen =
      m.screen.overlay ((m.drawings inputs).map (·.stamp m.memory)) := by
  induction inputs generalizing m with
  | nil => rfl
  | cons input rest ih =>
      obtain ⟨hnow, hlater⟩ := List.forall_mem_cons.mp h
      have hmemory : (m.step input).machine.memory = m.memory :=
        step_memory (hnow _ (by simp)) (hnow _ (by simp))
      have hrest : (m.run (input :: rest)).screen = _ := ih hlater
      rw [hrest, hmemory]
      cases hdrawing : m.drawing? input with
      | none =>
          have hdrawings : m.drawings (input :: rest) = (m.step input).machine.drawings rest :=
            List.filterMap_cons_none hdrawing
          rw [hdrawings, step_screen_of_none hdrawing (hnow _ (by simp))]
      | some d =>
          have hdrawings :
              m.drawings (input :: rest) = d :: (m.step input).machine.drawings rest :=
            List.filterMap_cons_some hdrawing
          rw [hdrawings, step_screen_of_drawing hdrawing, List.map_cons, Screen.overlay_cons]

end Run

/-- Drawing sprites is adding them up, cell by cell.

Sprites are drawn one after the other while memory and the screen are otherwise left alone, whatever
happens to the rest of the machine in between. In the end a cell is lit if it was lit to begin with
and an even number of sprites covers it, or if it was dark and their number is odd. So the order of
the sprites does not matter, and two that are the same leave no trace, whatever is drawn before,
between and after them. A single sprite changes the number of lit cells by its set bits less two for
each cell that it erases, and the flag is off exactly when the number grows by all of its set bits.
Drawn once more, it gives the old screen back, with the flag on exactly when a set bit was on a dark
cell at first. The screen of a run that neither clears it nor writes memory is the one that its
draws make. A draw that fails at the end of memory counts with the rows that it has drawn. -/
theorem drawings_add_up (m : Machine) :
    (∀ (ds : List Drawing) (px py : Nat),
      (m.afterDrawings ds).screen.get px py =
        ds.foldl (fun lit d => lit ^^ (d.stamp m.memory).covers px py) (m.screen.get px py)) ∧
    (∀ ds ds' : List Drawing, ds.Perm ds' →
      (m.afterDrawings ds).screen = (m.afterDrawings ds').screen) ∧
    (∀ (front between back : List Drawing) (d d' : Drawing),
      d'.stamp m.memory = d.stamp m.memory →
      (m.afterDrawings (front ++ d :: (between ++ d' :: back))).screen =
        (m.afterDrawings (front ++ (between ++ back))).screen) ∧
    (∀ d : Drawing,
      let drawn := (m.drawing d).machine
      let bits := (d.stamp m.memory).setBits
      (drawn.screen.litCount : Int) - m.screen.litCount =
          bits - 2 * m.screen.erasedCount drawn.screen ∧
        (drawn.registers.get .flag = 0 ↔ drawn.screen.litCount = m.screen.litCount + bits)) ∧
    (∀ d d' : Drawing, d'.stamp m.memory = d.stamp m.memory →
      let again := ((m.drawing d).machine.drawing d').machine
      again.screen = m.screen ∧
        (again.registers.get .flag = 1 ↔
          ∃ px py, (d.stamp m.memory).covers px py = true ∧ m.screen.get px py = false)) ∧
    ∀ inputs : List Input,
      (∀ stage ∈ m.stages inputs,
        ∀ p ∈ [Pattern.whole 0x00E0, .firstAndByte 0xF 0x33, .firstAndByte 0xF 0x55],
          ¬stage.machine.Executes stage.input p) →
      (m.run inputs).screen = (m.afterDrawings (m.drawings inputs)).screen := by
  refine ⟨fun ds px py => ?_, fun ds ds' hperm => ?_, fun front between back d d' hsame => ?_,
    fun d => ?_, fun d d' hsame => ?_, fun inputs h => ?_⟩
  · rw [afterDrawings_screen, Screen.get_overlay, List.foldl_map]
  · rw [afterDrawings_screen, afterDrawings_screen, Screen.overlay_perm _ (hperm.map _)]
  · simp only [afterDrawings_screen, List.map_append, List.map_cons, hsame]
    exact Screen.overlay_cancel ..
  · intro drawn bits
    have hscreen : drawn.screen = _ := m.drawing_screen d
    have hflag : drawn.registers.get .flag = _ := m.drawing_flag d
    rw [hscreen, hflag, ← Stamp.drawOn_eq_false_iff, flagOf_eq_zero_iff]
    have hcount := (d.stamp m.memory).litCount_drawOn m.screen
    exact ⟨by omega, Iff.rfl⟩
  · intro again
    have hstamp : d'.stamp (m.drawing d).machine.memory = d.stamp m.memory := by
      rw [drawing_memory, hsame]
    have hscreen : again.screen = _ := (m.drawing d).machine.drawing_screen d'
    have hflag : again.registers.get .flag = _ := (m.drawing d).machine.drawing_flag d'
    rw [hstamp, m.drawing_screen d] at hscreen hflag
    rw [hscreen, hflag, Screen.drawOn_twice, flagOf_eq_one_iff]
    exact ⟨rfl, Stamp.erases_again_iff ..⟩
  · rw [run_screen h, afterDrawings_screen]

/-- Two zeros from the font, the second one over a part of the first. -/
theorem drawings_add_up_of_zeros :
    let m := (build [0xD0, 0x05, 0x60, 0x03, 0xD0, 0x05] Font.builtIn 0).1
    let still : Input := ⟨.released, 0, 0⟩
    let moved := m.setRegister 0 3
    let zero : Drawing := ⟨0, 0, 5, still, m⟩
    let right : Drawing := ⟨0, 0, 5, still, moved⟩
    let other : Drawing := ⟨1, 1, 5, still, moved⟩
    let inputs := [still, still, still]
    (m.drawing zero).machine.screen.litCount = m.screen.litCount + 14 ∧
      (m.afterDrawings [zero, right]).screen = (m.afterDrawings [right, zero]).screen ∧
      (m.afterDrawings [zero, right, other]).screen = (m.afterDrawings [right]).screen ∧
      ((m.drawing zero).machine.drawing other).machine.screen = m.screen ∧
      (m.run inputs).screen = (m.afterDrawings (m.drawings inputs)).screen ∧
      (m.drawings inputs).length = 2 := by
  intro m still moved zero right other inputs
  have hsame : other.stamp m.memory = zero.stamp m.memory := by decide +kernel
  have hflag : (m.drawing zero).machine.registers.get .flag = 0 := by decide +kernel
  have hbits : (zero.stamp m.memory).setBits = 14 := by decide +kernel
  obtain ⟨-, hperm, hcancel, hone, htwice, hrun⟩ := drawings_add_up m
  refine ⟨((hone zero).2.mp hflag).trans (by rw [hbits]), hperm _ _ (.swap _ _ _),
    hcancel [] [right] [] zero other hsame, (htwice zero other hsame).1, hrun inputs ?_, ?_⟩
  · decide +kernel
  · decide +kernel

end Machine

end Chip8
