import Chip8.Proofs.Checked.Arithmetic
import Chip8.Proofs.Clock

/-!
The parts of the machine on numbers and arrays: memory, the call stack, the timers, the keypad and
the screen. Behind each operation stands that it does not trap, and that in every build it does what
the operation of the machine does.
-/

namespace Chip8

/-- A word is its high byte shifted and its low byte. -/
theorem Memory.word_eq_or (high low : UInt8) :
    word high low = UInt16.ofNat (high.toNat <<< 8 % 2 ^ 16 ||| low.toNat) := by
  have hhigh := high.toNat_lt
  have hlow : low.toNat < 2 ^ 8 := low.toNat_lt
  have hshift : high.toNat <<< 8 % 2 ^ 16 = high.toNat <<< 8 := by
    rw [Nat.shiftLeft_eq]
    omega
  rw [word, hshift, ← Nat.shiftLeft_add_eq_or_of_lt hlow, Nat.shiftLeft_eq, Nat.mul_comm]

theorem Screen.get_mod (s : Screen) (x y : Nat) : s.get (x % 64) (y % 32) = s.get x y := by
  have hplace : place (x % 64) (y % 32) = place x y :=
    place_eq_iff.mpr ⟨Nat.mod_mod x 64, Nat.mod_mod y 32⟩
  exact congrArg (fun cell : Fin (height * width) => s.cells[cell]) hplace

namespace Checked

/-! ### Memory -/

namespace Build

variable (b : Build)

def load (memory : Memory) (offset : Nat) (image : List UInt8) : Attempt (Memory × Nat) := do
  let start := min offset Memory.size
  let count := min image.length (← b.sub b.sizeBits Memory.size start)
  let stop ← b.add b.sizeBits start count
  let bytes ← overwrite memory.bytes start stop (← front image count)
  return (⟨bytes⟩, count)

def readWord (memory : Memory) (address : Nat) : Attempt (Except Fault UInt16) :=
  match memory.read address with
  | .error fault => return .error fault
  | .ok high => do
    match memory.read (← b.add b.sizeBits address 1) with
    | .error fault => return .error fault
    | .ok low => return .ok (UInt16.ofNat ((← b.shl 16 high.toNat 8) ||| low.toNat))

theorem load_eq (memory : Memory) (offset : Nat) (image : List UInt8) :
    b.load memory offset image = .ok (memory.load offset image) := by
  have hsize : Memory.size = 4096 := rfl
  have hstart : min offset Memory.size ≤ Memory.size := Nat.min_le_right _ _
  generalize hcount : min image.length (Memory.size - min offset Memory.size) = count
  have hfits : min offset Memory.size + count ≤ Memory.size := by omega
  have hlength : (image.take count).length = count := by
    rw [List.length_take]
    omega
  have hover := overwrite_of_le memory.bytes (hlength.symm ▸ hfits)
  rw [hlength] at hover
  simp only [load, b.sub_of_le hstart, hcount, ok_bind, pure_eq_ok,
    b.add_size_of_lt (Nat.lt_of_le_of_lt hfits (by decide)),
    front_of_le (hcount ▸ Nat.min_le_left _ _), hover]
  refine congrArg _ (Prod.ext (Memory.eq_of_peek fun address hin => ?_) hcount.symm)
  rw [Memory.load, Memory.peek_writeRun]
  simp only [Memory.peek, Vector.getElem?_ofFn, hin, dite_true, Option.getD_some]
  by_cases hbehind : offset ≤ address
  · have hoffset : min offset Memory.size = offset := by omega
    have himage : (image.take count)[address - offset]? = image[address - offset]? := by
      rw [List.getElem?_take]
      split
      · rfl
      · rw [List.getElem?_eq_none (by omega)]
    simp [hoffset, hbehind, himage, hin]
  · have hstart : ¬min offset Memory.size ≤ address := by omega
    simp [hstart, hbehind, hin]

theorem readWord_eq (memory : Memory) (address : Nat) :
    b.readWord memory address = .ok (memory.readWord address) := by
  unfold readWord Memory.readWord
  by_cases h : address < Memory.size
  · have hsum : address + 1 < 2 ^ 32 := Nat.lt_of_le_of_lt h (by decide)
    rw [memory.read_of_lt h]
    simp only [b.add_size_of_lt hsum, ok_bind]
    cases memory.read (address + 1) with
    | error fault => rfl
    | ok low => simp [b.shl_of_lt, Memory.word_eq_or]
  · rw [memory.read_of_le (Nat.not_lt.mp h)]
    rfl

end Build

/-! ### The call stack -/

/-- Return addresses in an array, from the oldest on, and how many there are. What is behind them in
the array does not count. -/
structure Frames where
  slots : Vector UInt16 254
  depth : Nat

namespace Frames

def empty : Frames := ⟨Vector.replicate 254 0, 0⟩

def push (b : Build) (s : Frames) (address : UInt16) : Attempt (Except Fault Frames) :=
  if h : s.depth < 254 then do
    return .ok ⟨s.slots.set s.depth address, ← b.add b.sizeBits s.depth 1⟩
  else return .error (.stackOverflow s.depth)

def pop (b : Build) (s : Frames) : Attempt (Option UInt16 × Frames) :=
  if s.depth = 0 then return (none, s)
  else do
    let depth ← b.sub b.sizeBits s.depth 1
    return (some (← item s.slots depth), { s with depth })

end Frames

/-- The slots hold the return addresses of the stack. -/
def Saved (slots : Vector UInt16 254) (s : CallStack) : Prop :=
  slots.toList.take s.depth = s.frames.reverse

theorem saved_empty (slots : Vector UInt16 254) : Saved slots .empty := by
  simp [Saved, CallStack.empty, CallStack.depth]

section Stack

variable {b : Build} {slots : Vector UInt16 254} {s : CallStack} {address : UInt16}

theorem push_of_lt (h : s.depth < 254) :
    Frames.push b ⟨slots, s.depth⟩ address =
      .ok (.ok ⟨slots.set s.depth address, s.depth + 1⟩) := by
  have hsum : s.depth + 1 < 2 ^ 32 := Nat.lt_of_le_of_lt h (by decide)
  simp [Frames.push, h, b.add_size_of_lt hsum]

theorem push_of_le (h : 254 ≤ s.depth) :
    Frames.push b ⟨slots, s.depth⟩ address = .ok (.error (.stackOverflow s.depth)) :=
  dif_neg (Nat.not_lt.mpr h)

theorem Saved.push (hs : Saved slots s) (address : UInt16) (h : s.depth < 254) :
    Saved (slots.set s.depth address) ⟨address :: s.frames⟩ := by
  have hdepth : (CallStack.mk (address :: s.frames)).depth = s.depth + 1 := rfl
  have hlength : s.depth < (slots.set s.depth address).toList.length := by simpa using h
  rw [Saved, hdepth, List.take_succ_eq_append_getElem hlength, List.reverse_cons, ← hs,
    Vector.getElem_toList, Vector.getElem_set_self, Vector.toList_set,
    List.take_set_of_le (Nat.le_refl _)]

theorem pop_of_nil (h : s.frames = []) :
    Frames.pop b ⟨slots, s.depth⟩ = .ok (none, ⟨slots, s.depth⟩) := by
  simp [Frames.pop, CallStack.depth, h]

theorem Saved.pop {rest : List UInt16} (hs : Saved slots s) (h : s.frames = address :: rest) :
    Frames.pop b ⟨slots, s.depth⟩ = .ok (some address, ⟨slots, rest.length⟩) ∧
      Saved slots ⟨rest⟩ := by
  have hdepth : s.depth = rest.length + 1 := by rw [CallStack.depth, h, List.length_cons]
  have hle : s.depth ≤ 254 := by
    have hlength := congrArg List.length hs
    rw [List.length_take, List.length_reverse, Vector.length_toList] at hlength
    exact Nat.le_trans (Nat.le_of_eq hlength.symm) (Nat.min_le_right _ _)
  have hlt : rest.length < 254 := by omega
  -- the newest address is in the last of the slots that count
  have hsplit : slots.toList.take rest.length ++ [slots[rest.length]] =
      rest.reverse ++ [address] := by
    rw [← List.reverse_cons, ← h, ← hs, hdepth, List.take_succ_eq_append_getElem (by simpa),
      Vector.getElem_toList]
  obtain ⟨hrest, haddress⟩ := List.append_singleton_inj.mp hsplit
  refine ⟨?_, hrest⟩
  simp [Frames.pop, hdepth, b.sub_of_le, item_of_lt slots hlt, haddress]

end Stack

/-! ### The timers -/

namespace Build

variable (b : Build)

def down (value : UInt8) : Attempt UInt8 :=
  if 0 < value then UInt8.ofNat <$> b.sub 8 value.toNat 1 else return value

def advance (t : Timers) (elapsed : UInt32) : Attempt (Timers × Bool) :=
  let gathered := saturate 64 (t.gathered + elapsed.toNat)
  if saturate 64 (gathered * Timers.rate) ≤ 1000 then return ({ t with gathered }, false)
  else do
    let delay ← b.down t.delay
    let sound ← b.down t.sound
    return (⟨delay, sound, 0⟩, 0 < t.sound && sound == 0)

theorem down_eq (value : UInt8) : b.down value = .ok (Timers.down value) := by
  unfold down
  rw [← UInt8.ofNat_toNat (x := Timers.down value), Timers.toNat_down]
  split
  · rename_i hpos
    have hone : 1 ≤ value.toNat := UInt8.lt_iff_toNat_lt.mp hpos
    rw [b.sub_of_le hone, map_ok]
  · rename_i hzero
    rw [UInt8.pos_iff_ne_zero, not_not] at hzero
    rw [hzero]
    rfl

/-- A timer runs out if it was running and is zero now, that is, from one. -/
theorem expired_eq (value : UInt8) :
    (decide (0 < value) && Timers.down value == 0) = (value == 1) := by
  rw [Bool.eq_iff_iff]
  simp only [Bool.and_eq_true, decide_eq_true_eq, beq_iff_eq, Timers.down_eq_zero_iff,
    UInt8.pos_iff_ne_zero]
  constructor
  · rintro ⟨hne, hzero | hone⟩
    · exact absurd hzero hne
    · exact hone
  · rintro rfl
    decide

/-- As long as little time is gathered, none of it is lost to the ends of its type. -/
theorem advance_eq {t : Timers} (h : t.gathered ≤ 16) (elapsed : UInt32) :
    b.advance t elapsed = .ok (t.advance elapsed) := by
  have helapsed := elapsed.toNat_lt
  have hsum : t.gathered + elapsed.toNat < 2 ^ 64 := by omega
  have hproduct : (t.gathered + elapsed.toNat) * Timers.rate < 2 ^ 64 := by
    rw [Timers.rate]
    omega
  unfold advance
  simp only [saturate_of_lt hsum, saturate_of_lt hproduct, down_eq, ok_bind, pure_eq_ok]
  by_cases htick : t.ticks elapsed = true
  · have hover : ¬(t.gathered + elapsed.toNat) * Timers.rate ≤ 1000 := by
      simpa [Timers.ticks] using htick
    rw [if_neg hover, Timers.advance_of_ticks htick, expired_eq]
  · have hunder : (t.gathered + elapsed.toNat) * Timers.rate ≤ 1000 := by
      simpa [Timers.ticks] using htick
    rw [if_pos hunder, Timers.advance_of_not_ticks htick]

end Build

/-! ### The keypad -/

namespace Build

variable (b : Build)

def isHeld (keys : Keypad) (number : Nat) : Attempt Bool :=
  if number < 16 then do return (keys.mask.toNat &&& (← b.shl 16 1 number)) != 0
  else return false

def firstHeld (keys : Keypad) : List Nat → Attempt (Option Nat)
  | [] => return none
  | number :: rest => do
    if ← b.isHeld keys number then return some number else firstHeld keys rest

theorem isHeld_eq (keys : Keypad) (number : Nat) :
    b.isHeld keys number = .ok (keys.isHeld number) := by
  unfold isHeld Keypad.isHeld
  by_cases h : number < 16
  · have hbit : 1 <<< number % 2 ^ 16 = 2 ^ number := by
      rw [Nat.one_shiftLeft, Nat.mod_eq_of_lt (Nat.pow_lt_pow_right (by decide) h)]
    rw [if_pos h, b.shl_of_lt h, hbit, ok_bind, pure_eq_ok, Nat.and_two_pow]
    cases keys.mask.toNat.testBit number <;> simp [h]
  · simp [h]

theorem firstHeld_eq (keys : Keypad) (numbers : List Nat) :
    b.firstHeld keys numbers = .ok (numbers.find? keys.isHeld) := by
  induction numbers with
  | nil => rfl
  | cons number rest ih =>
      simp only [firstHeld, isHeld_eq, ok_bind, ih, List.find?_cons]
      cases keys.isHeld number <;> rfl

theorem firstHeld_range (keys : Keypad) :
    b.firstHeld keys (List.range 16) = .ok (keys.lowest?.map Fin.val) := by
  have hrange : List.range 16 = (List.finRange 16).map Fin.val := rfl
  rw [firstHeld_eq, Keypad.lowest?, hrange, List.find?_map]
  rfl

end Build

/-! ### The screen -/

/-- The cells of the screen, an array of rows. -/
abbrev Cells := Vector (Vector Bool 64) 32

namespace Cells

def ofScreen (s : Screen) : Cells := .ofFn fun y => .ofFn fun x => s.get x y

def dark : Cells := Vector.replicate 32 (Vector.replicate 64 false)

def get (cells : Cells) (x y : Nat) : Attempt Bool := do
  let x ← remainder x 64
  let y ← remainder y 32
  item (← item cells y) x

def flip (cells : Cells) (x y : Nat) : Attempt (Cells × Bool) := do
  let x ← remainder x 64
  let y ← remainder y 32
  let row ← item cells y
  let lit ← item row x
  return (← replace cells y (← replace row x !lit), lit)

def litCount (b : Build) (cells : Cells) : Attempt Nat :=
  (cells.toList.map fun row => row.count true).foldlM (b.add b.sizeBits) 0

theorem ofScreen_blank : ofScreen .blank = dark := by
  ext y hy x hx
  simp [ofScreen, dark]

theorem get_ofScreen (s : Screen) (x y : Nat) : (ofScreen s).get x y = .ok (s.get x y) := by
  have hx : x % 64 < 64 := Nat.mod_lt _ (by decide)
  have hy : y % 32 < 32 := Nat.mod_lt _ (by decide)
  simp [get, remainder_of_ne_zero, item_of_lt, hx, hy, ofScreen, s.get_mod]

theorem flip_ofScreen (s : Screen) (x y : Nat) :
    (ofScreen s).flip x y = .ok (ofScreen (s.flip x y), s.get x y) := by
  have hx : x % 64 < 64 := Nat.mod_lt _ (by decide)
  have hy : y % 32 < 32 := Nat.mod_lt _ (by decide)
  simp only [flip, ofScreen, remainder_of_ne_zero (Nat.succ_ne_zero _), item_of_lt _ hx,
    item_of_lt _ hy, replace_of_lt _ hx, replace_of_lt _ hy, Vector.getElem_ofFn, ok_bind,
    pure_eq_ok, s.get_mod]
  refine congrArg (fun cells => Except.ok (cells, s.get x y)) ?_
  ext i hi j hj
  have hsame : Screen.place x y = Screen.place j i ↔ y % 32 = i ∧ x % 64 = j := by
    rw [Screen.place_eq_iff, Nat.mod_eq_of_lt hi, Nat.mod_eq_of_lt hj, and_comm]
  simp only [Vector.getElem_set, Vector.getElem_ofFn, Screen.get_flip, hsame]
  by_cases hrow : y % 32 = i
  · subst hrow
    simp [Vector.getElem_set]
  · simp [hrow]

theorem foldlM_add_eq (b : Build) {counts : List Nat} {count : Nat}
    (h : count + counts.sum < 2 ^ 32) :
    counts.foldlM (b.add b.sizeBits) count = .ok (count + counts.sum) := by
  induction counts generalizing count with
  | nil => rfl
  | cons first rest ih =>
      rw [List.sum_cons] at h
      rw [List.foldlM_cons, b.add_size_of_lt (by omega), ok_bind, ih (by omega), List.sum_cons,
        Nat.add_assoc]

/-- The cells in rows are the cells of the screen one after the other. -/
theorem flatten_ofScreen (s : Screen) : (ofScreen s).flatten = s.cells := by
  ext i hi
  have hcell : Screen.place (i % 64) (i / 64) = ⟨i, hi⟩ := by
    apply Fin.ext
    change i / 64 % 32 * 64 + i % 64 % 64 = i
    omega
  have hget : s.get (i % 64) (i / 64) = s.cells[i] := by
    rw [Screen.get, Fin.getElem_fin]
    simp only [hcell]
  rw [Vector.getElem_flatten, ofScreen, Vector.getElem_ofFn, Vector.getElem_ofFn, hget]

theorem litCount_ofScreen (b : Build) (s : Screen) :
    (ofScreen s).litCount b = .ok s.litCount := by
  have hsum : ((ofScreen s).toList.map fun row => row.count true).sum = s.litCount := by
    rw [Screen.litCount, ← flatten_ofScreen s, Vector.count_flatten, ← Vector.sum_toList,
      Vector.toList_map]
  have hle : s.litCount ≤ 2048 := s.cells.count_le_size
  rw [litCount, foldlM_add_eq b (by omega), Nat.zero_add, hsum]

end Cells

end Checked

end Chip8
