import Chip8.Console.Keyboard
import Mathlib.Logic.ExistsUnique

/-!
What looking at the keyboard tells. The layout is left open: all that is relied on is that no two
positions produce the same one of the seventeen codes that matter, those of Escape and of the keys
that stand for the keypad. Then each of these is one key of the keyboard, and it is told whether
this key is down, whatever else is down and in whatever order the keys are listed.
-/

namespace Chip8.Console

/-! ### The keypad on the keyboard -/

/-- The rows of the keyboard that stand for the keypad, each beside the keypad's, from the top. -/
def padRows : List (List Char × List Nat) :=
  [(['1', '2', '3', '4'], [0x1, 0x2, 0x3, 0xC]),
   (['q', 'w', 'e', 'r'], [0x4, 0x5, 0x6, 0xD]),
   (['a', 's', 'd', 'f'], [0x7, 0x8, 0x9, 0xE]),
   (['z', 'x', 'c', 'v'], [0xA, 0x0, 0xB, 0xF])]

def legend : List (Char × Nat) :=
  padRows.flatMap fun (characters, numbers) => characters.zip numbers

namespace Keycode

def ofChar (character : Char) : Keycode := (character.toNat : Int)

/-- The code is that of the character which stands for the key of the keypad. -/
def StandsFor (code : Keycode) (key : Key) : Prop :=
  ∃ character, (character, key.val) ∈ legend ∧ code = ofChar character

/-- The code is one of the seventeen that are looked for. -/
def Matters (code : Keycode) : Prop := code = escape ∨ ∃ key, code.StandsFor key

theorem mem_legend_iff {character : Char} {key : Key} :
    (character, key.val) ∈ legend ↔ (character, key) ∈ keyLayout := by
  have hperm : (keyLayout.map (Prod.map id Fin.val)).Perm legend := by decide
  rw [← hperm.mem_iff, List.mem_map]
  constructor
  · rintro ⟨⟨found, number⟩, hmem, heq⟩
    obtain ⟨rfl, hnumber⟩ := Prod.mk.inj heq
    obtain rfl := Fin.ext hnumber
    exact hmem
  · intro hmem
    exact ⟨_, hmem, rfl⟩

theorem hexKey?_ofChar {entry : Char × Key} (h : entry ∈ keyLayout) :
    (ofChar entry.1).hexKey? = some entry.2 := by
  have hall : ∀ entry ∈ keyLayout, (ofChar entry.1).hexKey? = some entry.2 := by decide
  exact hall entry h

theorem hexKey?_eq_some_iff {code : Keycode} {key : Key} :
    code.hexKey? = some key ↔ code.StandsFor key := by
  constructor
  · intro h
    obtain ⟨⟨character, found⟩, hfind, hkey⟩ := Option.map_eq_some_iff.mp h
    obtain rfl : found = key := hkey
    have hfound := List.find?_some hfind
    have hcode : ofChar character = code := beq_iff_eq.mp hfound
    exact ⟨character, mem_legend_iff.mpr (List.mem_of_find?_eq_some hfind), hcode.symm⟩
  · rintro ⟨character, hmem, rfl⟩
    exact hexKey?_ofChar (mem_legend_iff.mp hmem)

/-- Each key of the keypad has a code that stands for it. -/
theorem exists_standsFor (key : Key) : ∃ code : Keycode, code.StandsFor key := by
  have hall : ∀ key : Key, ∃ entry ∈ keyLayout, entry.2 = key := by decide
  obtain ⟨⟨character, found⟩, hmem, rfl⟩ := hall key
  exact ⟨_, character, mem_legend_iff.mpr hmem, rfl⟩

/-- No two codes stand for the same key of the keypad. -/
theorem StandsFor.unique {code code' : Keycode} {key : Key} (h : code.StandsFor key)
    (h' : code'.StandsFor key) : code = code' := by
  have hall : ∀ entry ∈ legend, ∀ entry' ∈ legend, entry.2 = entry'.2 → entry.1 = entry'.1 := by
    decide
  obtain ⟨character, hmem, rfl⟩ := h
  obtain ⟨character', hmem', rfl⟩ := h'
  exact congrArg ofChar (hall _ hmem _ hmem' rfl)

end Keycode

/-! ### Layouts -/

namespace Layout

def Assigns (layout : Layout) (position : Scancode) (key : Key) : Prop :=
  ∃ code, layout position = some code ∧ code.StandsFor key

/-- No two positions produce the same one of the codes that matter. -/
def Distinct (layout : Layout) : Prop :=
  ∀ code : Keycode, code.Matters → ∀ position position', layout position = some code →
    layout position' = some code → position = position'

variable {layout : Layout} {position position' : Scancode}

theorem Distinct.escape_unique (h : layout.Distinct) (hpos : layout position = some .escape)
    (hpos' : layout position' = some .escape) : position = position' :=
  h _ (.inl rfl) _ _ hpos hpos'

/-- At most one key of the keyboard stands for a key of the keypad. -/
theorem Distinct.assigns_unique {key : Key} (h : layout.Distinct)
    (hpos : layout.Assigns position key) (hpos' : layout.Assigns position' key) :
    position = position' := by
  obtain ⟨code, hcode, hstands⟩ := hpos
  obtain ⟨code', hcode', hstands'⟩ := hpos'
  obtain rfl := hstands.unique hstands'
  exact h _ (.inr ⟨key, hstands⟩) _ _ hcode hcode'

theorem exists_mem_filterMap_iff {held : List Scancode} {key : Key} :
    (∃ code ∈ held.filterMap layout, code.StandsFor key) ↔
      ∃ position ∈ held, layout.Assigns position key := by
  constructor
  · rintro ⟨code, hmem, hstands⟩
    obtain ⟨position, hheld, hcode⟩ := List.mem_filterMap.mp hmem
    exact ⟨position, hheld, code, hcode, hstands⟩
  · rintro ⟨position, hheld, code, hcode, hstands⟩
    exact ⟨code, List.mem_filterMap.mpr ⟨position, hheld, hcode⟩, hstands⟩

/-- The plain layout tells all keys apart. -/
theorem keycode_injective : Function.Injective Scancode.keycode := by
  intro position position' h
  have ha : 'a'.toNat = 97 := rfl
  have hone : '1'.toNat = 49 := rfl
  have hzero : '0'.toNat = 48 := rfl
  simp only [Scancode.keycode, Keycode.escape, ha, hone, hzero] at h
  grind

theorem distinct_plain : plain.Distinct := by
  intro code _ position position' hpos hpos'
  exact keycode_injective (Option.some_inj.mp (hpos.trans hpos'.symm))

end Layout

/-! ### Looking at the keys -/

section Codes

variable (pad : Keypad) {code : Keycode} {codes : List Keycode}

theorem isHeld_holdCode (key : Key) :
    (holdCode pad code).isHeld key.val = true ↔
      pad.isHeld key.val = true ∨ code.StandsFor key := by
  rw [← Keycode.hexKey?_eq_some_iff, holdCode]
  cases hkey : code.hexKey? with
  | some added =>
      have hsame : some added = some key ↔ key.val = added.val := by
        rw [Option.some_inj, Fin.val_inj, eq_comm]
      rw [Keypad.isHeld_hold, Bool.or_eq_true, decide_eq_true_eq, hsame, or_comm]
  | none => exact (or_iff_left nofun).symm

theorem isHeld_foldl_holdCode (key : Key) :
    (codes.foldl holdCode pad).isHeld key.val = true ↔
      pad.isHeld key.val = true ∨ ∃ code ∈ codes, code.StandsFor key := by
  induction codes generalizing pad with
  | nil => simp
  | cons code rest ih =>
      rw [List.foldl_cons, ih, isHeld_holdCode]
      simp only [List.mem_cons, exists_eq_or_imp, or_assoc]

namespace Poll

/-- Wherever Escape is in the list, it ends the run. -/
theorem ofCodes_of_escape (h : Keycode.escape ∈ codes) : ofCodes pad codes = .quit := by
  induction codes generalizing pad with
  | nil => exact absurd h List.not_mem_nil
  | cons code rest ih =>
      by_cases hcode : code = Keycode.escape
      · rw [ofCodes, if_pos hcode]
      · rw [ofCodes, if_neg hcode]
        exact ih _ ((List.mem_cons.mp h).resolve_left (Ne.symm hcode))

/-- Without Escape every code is looked at. -/
theorem ofCodes_of_no_escape (h : Keycode.escape ∉ codes) :
    ofCodes pad codes = .keys (codes.foldl holdCode pad) := by
  induction codes generalizing pad with
  | nil => rfl
  | cons code rest ih =>
      rw [List.mem_cons, not_or] at h
      rw [ofCodes, if_neg (Ne.symm h.1), List.foldl_cons]
      exact ih _ h.2

end Poll

end Codes

namespace Keyboard

theorem afterQuit?_eq_none_iff {messages : List Message} :
    afterQuit? messages = none ↔ .quit ∉ messages := by
  induction messages with
  | nil => simp [afterQuit?]
  | cons message rest ih =>
      cases message with
      | quit => simp [afterQuit?]
      | other => simp [afterQuit?, ih]

section Poll

variable (layout : Layout) (k : Keyboard)

theorem poll_of_quit (h : .quit ∈ k.messages) : (k.poll layout).1 = .quit := by
  unfold poll
  cases hafter : afterQuit? k.messages with
  | some rest => rfl
  | none => exact absurd h (afterQuit?_eq_none_iff.mp hafter)

theorem poll_of_not_quit (h : .quit ∉ k.messages) :
    (k.poll layout).1 = .ofCodes .released (k.held.filterMap layout) := by
  rw [poll, afterQuit?_eq_none_iff.mpr h]

/-- The window is to be closed, or Escape is down. -/
def Ends : Prop :=
  .quit ∈ k.messages ∨ ∃ position ∈ k.held, layout position = some .escape

theorem poll_of_ends (h : k.Ends layout) : (k.poll layout).1 = .quit := by
  by_cases hquit : .quit ∈ k.messages
  · exact k.poll_of_quit layout hquit
  · rw [k.poll_of_not_quit layout hquit]
    exact Poll.ofCodes_of_escape .released (List.mem_filterMap.mpr (h.resolve_left hquit))

theorem exists_poll_of_not_ends (h : ¬k.Ends layout) :
    ∃ pad, (k.poll layout).1 = .keys pad ∧ ∀ key : Key,
      pad.isHeld key.val = true ↔ ∃ position ∈ k.held, layout.Assigns position key := by
  obtain ⟨hquit, hescape⟩ := not_or.mp h
  have hnone : Keycode.escape ∉ k.held.filterMap layout := mt List.mem_filterMap.mp hescape
  refine ⟨_, (k.poll_of_not_quit layout hquit).trans (Poll.ofCodes_of_no_escape _ hnone), ?_⟩
  intro key
  rw [isHeld_foldl_holdCode, Keypad.isHeld_released, Layout.exists_mem_filterMap_iff]
  exact or_iff_right Bool.false_ne_true

theorem poll_eq_quit_iff : (k.poll layout).1 = .quit ↔ k.Ends layout := by
  refine ⟨fun hpoll => ?_, k.poll_of_ends layout⟩
  by_cases h : k.Ends layout
  · exact h
  · obtain ⟨pad, hpad, -⟩ := k.exists_poll_of_not_ends layout h
    exact nomatch hpoll.symm.trans hpad

variable {k}

/-- Neither the order of the keys nor what else is in the queue matters. -/
theorem poll_congr {k' : Keyboard} (hquit : .quit ∈ k'.messages ↔ .quit ∈ k.messages)
    (hheld : ∀ position, position ∈ k'.held ↔ position ∈ k.held) :
    (k'.poll layout).1 = (k.poll layout).1 := by
  have hends : k'.Ends layout ↔ k.Ends layout := by simp only [Ends, hquit, hheld]
  by_cases h : k.Ends layout
  · rw [k.poll_of_ends layout h, k'.poll_of_ends layout (hends.mpr h)]
  · obtain ⟨pad, hpad, hkeys⟩ := k.exists_poll_of_not_ends layout h
    obtain ⟨pad', hpad', hkeys'⟩ := k'.exists_poll_of_not_ends layout (mt hends.mp h)
    have hsame : pad' = pad := by
      refine Keypad.eq_of_isHeld fun key => Bool.eq_iff_iff.mpr ?_
      simp only [hkeys', hkeys, hheld]
    rw [hpad, hpad', hsame]

end Poll

/-- If only one position can be meant, it is the one that is looked up. -/
theorem exists_mem_iff_mem {P : Scancode → Prop} {held : List Scancode} {position : Scancode}
    (hunique : ∀ other, P other → other = position) (h : P position) :
    (∃ other ∈ held, P other) ↔ position ∈ held := by
  constructor
  · rintro ⟨other, hmem, hother⟩
    exact hunique other hother ▸ hmem
  · intro hmem
    exact ⟨position, hmem, h⟩

/-- What looking at the keyboard tells. It ends the run exactly if the queue has a request to close
the window, wherever it stands, or Escape is down. Otherwise it tells a mask in which the bit of
each key of the keypad is set exactly if the one key of the keyboard that stands for it is down;
without such a key on the keyboard the bit is not set. What stands for a key of the keypad is one
code, and the order of the keys that are down changes nothing. -/
theorem poll_tells_held_keys (layout : Layout) (h : layout.Distinct) (k : Keyboard) :
    let poll := (k.poll layout).1
    (poll = .quit ↔
      .quit ∈ k.messages ∨ ∃ position ∈ k.held, layout position = some .escape) ∧
    (∀ position, layout position = some .escape →
      (poll = .quit ↔ .quit ∈ k.messages ∨ position ∈ k.held)) ∧
    (poll ≠ .quit → ∃ pad, poll = .keys pad ∧ ∀ key : Key,
      (pad.mask.toNat.testBit key.val = true ↔
        ∃ position ∈ k.held, layout.Assigns position key) ∧
      ∀ position, layout.Assigns position key →
        (pad.mask.toNat.testBit key.val = true ↔ position ∈ k.held)) ∧
    (∀ key : Key, ∃! code : Keycode, code.hexKey? = some key) ∧
    ∀ k' : Keyboard, (.quit ∈ k'.messages ↔ .quit ∈ k.messages) →
      (∀ position, position ∈ k'.held ↔ position ∈ k.held) → (k'.poll layout).1 = poll := by
  intro poll
  have hquit : poll = .quit ↔
      .quit ∈ k.messages ∨ ∃ position ∈ k.held, layout position = some .escape :=
    k.poll_eq_quit_iff layout
  refine ⟨hquit, ?_, ?_, ?_, fun k' => poll_congr layout⟩
  · intro position hescape
    rw [hquit, exists_mem_iff_mem (fun _ hother => h.escape_unique hother hescape) hescape]
  · intro hne
    obtain ⟨pad, hpad, hheld⟩ :=
      k.exists_poll_of_not_ends layout (mt (k.poll_of_ends layout) hne)
    refine ⟨pad, hpad, fun key => ?_⟩
    rw [Keypad.testBit_mask]
    refine ⟨hheld key, fun position hassigns => ?_⟩
    rw [hheld, exists_mem_iff_mem (fun _ hother => h.assigns_unique hother hassigns) hassigns]
  · intro key
    obtain ⟨code, hcode⟩ := Keycode.exists_standsFor key
    refine ⟨code, Keycode.hexKey?_eq_some_iff.mpr hcode, fun other hother => ?_⟩
    exact (Keycode.hexKey?_eq_some_iff.mp hother).unique hcode

/-- X and A are down on a plain keyboard, and the space bar with them: of the keypad 0 and 7 are
held and 1 is not. With Escape between them the run ends. -/
theorem poll_tells_held_keys_on_plain_keyboard :
    Layout.plain.Distinct ∧
    (∃ pad, (poll ⟨[27, 44, 4], [.other]⟩).1 = .keys pad ∧
      pad.mask.toNat.testBit 0 = true ∧ pad.mask.toNat.testBit 7 = true ∧
        pad.mask.toNat.testBit 1 = false) ∧
    (poll ⟨[27, 41, 4], [.other]⟩).1 = .quit := by
  have hx : Layout.plain.Assigns 27 0x0 := ⟨.ofChar 'x', by decide, 'x', by decide, rfl⟩
  have ha : Layout.plain.Assigns 4 0x7 := ⟨.ofChar 'a', by decide, 'a', by decide, rfl⟩
  have hone : Layout.plain.Assigns 30 0x1 := ⟨.ofChar '1', by decide, '1', by decide, rfl⟩
  have hescape : Layout.plain 41 = some .escape := by decide
  obtain ⟨-, hquit, hkeys, -⟩ :=
    poll_tells_held_keys .plain Layout.distinct_plain ⟨[27, 44, 4], [.other]⟩
  obtain ⟨-, hquit', -⟩ :=
    poll_tells_held_keys .plain Layout.distinct_plain ⟨[27, 41, 4], [.other]⟩
  refine ⟨Layout.distinct_plain, ?_, (hquit' 41 hescape).mpr (by decide)⟩
  obtain ⟨pad, hpad, hheld⟩ := hkeys (mt (hquit 41 hescape).mp (by decide))
  have hzero := ((hheld 0x0).2 27 hx).mpr (by decide)
  have hseven := ((hheld 0x7).2 4 ha).mpr (by decide)
  have hfree := mt ((hheld 0x1).2 30 hone).mp (by decide)
  exact ⟨pad, hpad, hzero, hseven, Bool.eq_false_iff.mpr hfree⟩

end Keyboard

end Chip8.Console
