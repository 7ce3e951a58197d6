import Chip8.Proofs.Checked.Machine
import Chip8.Proofs.Execute
import Chip8.Proofs.Patterns

/-!
Registers by index, the operands of a word, and the loops of the machine on numbers and arrays: none
of them traps, and in every build they come to what the machine does.
-/

namespace Chip8

namespace Registers

theorem set_set (r : Registers) (x : Register) (value value' : UInt8) :
    (r.set x value).set x value' = r.set x value' := by
  simp [set]

/-- The registers from `i` on replaced by the given bytes, as far as these reach. -/
def fillFrom (r : Registers) (i : Nat) (bytes : List UInt8) : Registers :=
  ⟨Vector.ofFn fun x => if i ≤ x.val then bytes[x.val - i]?.getD (r.get x) else r.get x⟩

theorem fillFrom_zero (r : Registers) (bytes : List UInt8) : r.fillFrom 0 bytes = r.fill bytes := by
  simp [fillFrom, fill]

theorem fillFrom_nil (r : Registers) (i : Nat) : r.fillFrom i [] = r := by
  simp [fillFrom, get]

theorem fillFrom_cons (r : Registers) (x : Register) (byte : UInt8) (rest : List UInt8) :
    r.fillFrom x.val (byte :: rest) = (r.set x byte).fillFrom (x.val + 1) rest := by
  refine congrArg Registers.mk (Vector.ext fun y hy => ?_)
  simp only [Vector.getElem_ofFn, get_set, Fin.ext_iff]
  obtain hbefore | rfl | hbehind := Nat.lt_trichotomy y x.val
  · rw [if_neg (by omega), if_neg (by omega), if_neg (by omega)]
  · rw [if_pos (Nat.le_refl _), if_neg (by omega), if_pos rfl, Nat.sub_self]
    rfl
  · have hplace : y - x.val = (y - (x.val + 1)) + 1 := by omega
    rw [if_pos (by omega), if_pos (by omega), if_neg (by omega), hplace, List.getElem?_cons_succ]

end Registers

theorem Screen.flipAll_append (s : Screen) (cells cells' : List (Nat × Nat)) :
    s.flipAll (cells ++ cells') =
      (((s.flipAll cells).1.flipAll cells').1,
        (s.flipAll cells).2 || ((s.flipAll cells).1.flipAll cells').2) := by
  induction cells generalizing s with
  | nil => simp [flipAll]
  | cons cell rest ih => simp [flipAll, ih, Bool.or_assoc]

namespace Checked

open Instruction

/-! ### Registers -/

@[simp] theorem readRegister_val (r : Registers) (x : Register) :
    readRegister r x.val = .ok (r.get x) :=
  item_of_lt r.values x.isLt

@[simp] theorem writeRegister_val (r : Registers) (x : Register) (value : UInt8) :
    writeRegister r x.val value = .ok (r.set x value) := by
  simp [writeRegister, replace_of_lt r.values x.isLt, Registers.set]

/-- The bytes in the registers up to `x`, read one by one. -/
theorem map_readRegister (r : Registers) (x : Register) :
    (List.range (x.val + 1)).map (readRegister r) = (r.upTo x).map .ok := by
  have hx := x.isLt
  apply List.ext_getElem
  · rw [List.length_map, List.length_range, List.length_map, r.length_upTo]
  · intro i hi hi'
    have hlt : i < 16 := by
      rw [List.length_map, List.length_range] at hi
      omega
    simp [Registers.upTo, readRegister, item_of_lt r.values hlt]

/-- What is left of a number when bits are masked and shifted down. -/
theorem and_mask_shiftRight (value amount bits : Nat) :
    (value &&& (2 ^ bits - 1) <<< amount) >>> amount = value >>> amount % 2 ^ bits := by
  rw [Nat.shiftRight_and_distrib, Nat.shiftLeft_shiftRight, Nat.and_two_pow_sub_one_eq_mod]

section Shifts

variable (value : UInt8)

theorem ofNat_shiftRight_one : UInt8.ofNat (value.toNat >>> 1) = value >>> 1 := by
  have hshift : (value >>> 1).toNat = value.toNat >>> 1 := UInt8.toNat_shiftRight value 1
  rw [← hshift, UInt8.ofNat_toNat]

theorem ofNat_highest_bit : UInt8.ofNat ((value &&& 0x80).toNat >>> 7) = value >>> 7 := by
  have hvalue := value.toNat_lt
  have hbit : (value >>> 7).toNat = value.toNat >>> 7 := UInt8.toNat_shiftRight value 7
  have hmask : (value &&& 0x80).toNat >>> 7 = value.toNat >>> 7 := by
    rw [UInt8.toNat_and]
    refine (and_mask_shiftRight value.toNat 7 1).trans ?_
    rw [Nat.shiftRight_eq_div_pow]
    omega
  rw [hmask, ← hbit, UInt8.ofNat_toNat]

theorem ofNat_shiftLeft_one : UInt8.ofNat (value.toNat <<< 1 % 2 ^ 8) = value <<< 1 := by
  have hshift : (value <<< 1).toNat = value.toNat <<< 1 % 2 ^ 8 := UInt8.toNat_shiftLeft value 1
  rw [← hshift, UInt8.ofNat_toNat]

end Shifts

/-- An erased cell is noted beside those before. -/
theorem noteErased_eq (r : Registers) (erased lit : Bool) :
    noteErased (r.set .flag (flagOf erased)) lit = .ok (r.set .flag (flagOf (erased || lit))) := by
  cases lit with
  | false => simp [noteErased]
  | true => simp [noteErased, Registers.set_set, flagOf]

theorem combine_eq (b : Build) (m : Machine) (operation : Operation) (x y : Register) :
    combine b m.settings.shift m.registers x.val y.val operation =
      .ok (m.combine operation x y).registers := by
  -- the place of the byte to shift, and the byte there
  have hplace : (if m.settings.shift then x.val else y.val) =
      (if m.settings.shift then x else y : Register).val := (apply_ite Fin.val _ x y).symm
  have hsource : (if m.settings.shift then m.registers.get x else m.registers.get y) =
      m.registers.get (if m.settings.shift then x else y) :=
    (apply_ite m.registers.get _ x y).symm
  cases operation with
  | add =>
      have hx := (m.registers.get x).toNat_lt
      have hy := (m.registers.get y).toNat_lt
      have hsum : (m.registers.get x).toNat + (m.registers.get y).toNat < 2 ^ 16 := by omega
      simp [combine, Machine.combine, Operation.compute, b.add_of_lt hsum]
  | shiftRight =>
      simp only [combine, Machine.combine, Operation.compute, hplace, hsource, readRegister_val,
        writeRegister_val, ok_bind, b.shr_of_lt (show 1 < 8 by decide), ofNat_shiftRight_one]
  | shiftLeft =>
      simp only [combine, Machine.combine, Operation.compute, hplace, hsource, readRegister_val,
        writeRegister_val, ok_bind, b.shr_of_lt (show 7 < 8 by decide),
        b.shl_of_lt (show 1 < 8 by decide), ofNat_highest_bit, ofNat_shiftLeft_one]
  | _ => simp [combine, Machine.combine, Operation.compute]

theorem decimalDigits_eq (value : UInt8) :
    decimalDigits value = (Machine.decimalDigits value).map .ok := by
  have hhundreds : (value / 100).toNat = value.toNat / 100 := UInt8.toNat_div value 100
  have htens : (value % 100 / 10).toNat = value.toNat % 100 / 10 :=
    (UInt8.toNat_div (value % 100) 10).trans (by rw [UInt8.toNat_mod]; rfl)
  have hones : (value % 10).toNat = value.toNat % 10 := UInt8.toNat_mod value 10
  simp only [decimalDigits, Machine.decimalDigits, List.map_cons, List.map_nil,
    quotient_of_ne_zero (Nat.succ_ne_zero _), remainder_of_ne_zero (Nat.succ_ne_zero _), ok_bind,
    pure_eq_ok, ← hhundreds, ← htens, ← hones, UInt8.ofNat_toNat]

/-! ### Operands -/

def Operands.ofWord (word : UInt16) : Operands where
  x := (Opcode.digit word 2).val
  y := (Opcode.digit word 1).val
  n := (Opcode.digit word 0).val
  nn := Opcode.lowByte word
  nnn := (Opcode.lowAddress word).toWord

theorem operands_eq (b : Build) (word : UInt16) :
    b.operands word = .ok (.ofWord word) := by
  have hdigit (amount : Nat) := and_mask_shiftRight word.toNat amount 4
  have hnn : (word &&& 0x00FF).toUInt8 = Opcode.lowByte word := by
    have hmask : word.toNat &&& 0x00FF = word.toNat % 256 :=
      Nat.and_two_pow_sub_one_eq_mod word.toNat 8
    rw [← UInt8.toNat_inj, Opcode.toNat_lowByte, UInt16.toNat_toUInt8, UInt16.toNat_and]
    change (word.toNat &&& 0x00FF) % 256 = word.toNat % 256
    rw [hmask, Nat.mod_mod]
  have hnnn : word &&& 0x0FFF = (Opcode.lowAddress word).toWord := by
    rw [← UInt16.toNat_inj, Address.toNat_toWord, UInt16.toNat_and]
    exact Nat.and_two_pow_sub_one_eq_mod word.toNat 12
  simp only [Build.operands, b.shr_of_lt (show 12 < 16 by decide),
    b.shr_of_lt (show 8 < 16 by decide), b.shr_of_lt (show 4 < 16 by decide), ok_bind, pure_eq_ok,
    UInt16.toNat_and, hnn, hnnn]
  exact congrArg Except.ok ((Operands.mk.injEq ..).mpr ⟨hdigit 8, hdigit 4, hdigit 0, rfl, rfl⟩)

def Operands.Hold (o : Operands) : Instruction → Prop
  | .jump nnn | .jumpOffset nnn | .call nnn | .setIndex nnn => o.nnn = nnn.toWord
  | .skipIf (.byteEq x nn) | .skipIf (.byteNe x nn) => o.x = x.val ∧ o.nn = nn
  | .skipIf (.regEq x y) | .skipIf (.regNe x y) => o.x = x.val ∧ o.y = y.val
  | .skipIf (.keyHeld x) | .skipIf (.keyFree x) => o.x = x.val
  | .setByte x nn | .addByte x nn | .random x nn => o.x = x.val ∧ o.nn = nn
  | .combine _ x y => o.x = x.val ∧ o.y = y.val
  | .draw x y n => o.x = x.val ∧ o.y = y.val ∧ o.n = n.val
  | .readDelay x | .waitKey x | .setDelay x | .setSound x | .addIndex x | .fontGlyph x
  | .storeDecimal x | .storeRegisters x | .loadRegisters x => o.x = x.val
  | .clearScreen | .ret | .unknown _ => True

theorem hold_encode (i : Instruction) : (Operands.ofWord i.encode).Hold i := by
  cases i with
  | clearScreen | ret | unknown _ => trivial
  | skipIf condition =>
      cases condition with
      | byteEq x nn | byteNe x nn =>
          have hnn := nn.toNat_lt
          simp (disch := omega) [Operands.Hold, Operands.ofWord, encode, encodeSkip,
            digit_two_wordXNN, lowByte_wordXNN]
      | regEq x y | regNe x y =>
          simp (disch := omega) [Operands.Hold, Operands.ofWord, encode, encodeSkip,
            digit_two_wordXYN, digit_one_wordXYN]
      | keyHeld x | keyFree x =>
          simp (disch := omega) [Operands.Hold, Operands.ofWord, encode, encodeSkip,
            digit_two_wordXNN]
  | jump nnn | call nnn | setIndex nnn | jumpOffset nnn =>
      simp (disch := omega) [Operands.Hold, Operands.ofWord, encode, lowAddress_wordNNN]
  | setByte x nn | addByte x nn | random x nn =>
      have hnn := nn.toNat_lt
      simp (disch := omega) [Operands.Hold, Operands.ofWord, encode, digit_two_wordXNN,
        lowByte_wordXNN]
  | combine operation x y =>
      have hdigit := operation.digit_lt
      simp (disch := omega) [Operands.Hold, Operands.ofWord, encode, digit_two_wordXYN,
        digit_one_wordXYN]
  | draw x y n =>
      have hn := n.isLt
      simp (disch := omega) [Operands.Hold, Operands.ofWord, encode, digit_two_wordXYN,
        digit_one_wordXYN, digit_zero_wordXYN]
  | _ => simp (disch := omega) [Operands.Hold, Operands.ofWord, encode, digit_two_wordXNN]

theorem hold_decode (word : UInt16) : (Operands.ofWord word).Hold (Instruction.decode word) := by
  have hhold := hold_encode (Instruction.decode word)
  rwa [Instruction.encode_decode] at hhold

/-! ### Loops -/

section Loops

variable (b : Build)

theorem writeEach_eq (memory : Memory) {base i : Nat} (bytes : List UInt8)
    (h : base + i + bytes.length < 2 ^ 32) :
    b.writeEach memory base i (bytes.map .ok) = .ok (memory.writeRun (base + i) bytes) := by
  induction bytes generalizing memory i with
  | nil => rfl
  | cons byte rest ih =>
      rw [List.length_cons] at h
      have hsum : base + i < 2 ^ 32 := by omega
      have hrest : base + (i + 1) + rest.length < 2 ^ 32 := by omega
      rw [List.map_cons]
      simp only [Build.writeEach, b.add_size_of_lt hsum, ok_bind, Memory.write, Memory.writeRun]
      by_cases hin : base + i < Memory.size
      · simp only [dif_pos hin]
        exact ih _ hrest
      · simp only [dif_neg hin]
        rfl

theorem loadEach_eq (memory : Memory) {base i : Nat} (r : Registers) {count : Nat}
    (hbase : base < 2 ^ 16) (h : i + count ≤ 16) :
    b.loadEach memory base r (List.range' i count) =
      .ok (r.fillFrom i (memory.readRun (base + i) count).1,
        (memory.readRun (base + i) count).2) := by
  induction count generalizing i r with
  | zero => simp [Build.loadEach, Memory.readRun, Registers.fillFrom_nil]
  | succ count ih =>
      have hi : i < 16 := by omega
      have hsum : base + i < 2 ^ 32 := by omega
      simp only [List.range'_succ, Build.loadEach, b.add_size_of_lt hsum, ok_bind, Memory.readRun]
      cases memory.read (base + i) with
      | error fault => simp [Registers.fillFrom_nil]
      | ok byte =>
          have hwrite : writeRegister r i byte = .ok (r.set ⟨i, hi⟩ byte) :=
            writeRegister_val r ⟨i, hi⟩ byte
          have hrest : i + 1 + count ≤ 16 := by omega
          simp only [hwrite, ok_bind, ih _ hrest, Nat.add_assoc]
          rw [← Registers.fillFrom_cons r ⟨i, hi⟩]

theorem bit_eq_zero_iff (sprite : UInt8) {shift : Nat} (h : shift < 8) :
    sprite.toNat &&& 0x80 >>> shift = 0 ↔ sprite.toNat.testBit (7 - shift) = false := by
  have hbit : 0x80 >>> shift = 2 ^ (7 - shift) := by
    rw [Nat.shiftRight_eq_div_pow, ← Nat.pow_div (by omega) (by decide)]
  rw [hbit, Nat.and_two_pow]
  cases sprite.toNat.testBit (7 - shift) <;> simp

/-- The cells that the bits of a row flip, by how far each is from the left. -/
def rowCells (x y : Nat) (sprite : UInt8) (shifts : List Nat) : List (Nat × Nat) :=
  (shifts.filter fun shift => sprite.toNat.testBit (7 - shift)).map (x + ·, y)

theorem rowCells_cons (x y : Nat) (sprite : UInt8) (shift : Nat) (rest : List Nat) :
    rowCells x y sprite (shift :: rest) =
      if sprite.toNat.testBit (7 - shift) then (x + shift, y) :: rowCells x y sprite rest
      else rowCells x y sprite rest := by
  simp only [rowCells, List.filter_cons]
  split <;> rfl

theorem drawRow_eq {x y row : Nat} (sprite : UInt8) (s : Screen) (r : Registers) (erased : Bool)
    {shifts : List Nat} (hx : x < 64) (hy : y + row < 2 ^ 32)
    (hshifts : ∀ shift ∈ shifts, shift < 8) :
    let drawn := s.flipAll (rowCells x (y + row) sprite shifts)
    b.drawRow x y row sprite (.ofScreen s) (r.set .flag (flagOf erased)) shifts =
      .ok (.ofScreen drawn.1, r.set .flag (flagOf (erased || drawn.2))) := by
  induction shifts generalizing s erased with
  | nil => simp [Build.drawRow, rowCells, Screen.flipAll]
  | cons shift rest ih =>
      obtain ⟨hshift, hrest⟩ := List.forall_mem_cons.mp hshifts
      have hcolumn : x + shift < 2 ^ 32 := by omega
      simp only [Build.drawRow, b.shr_of_lt hshift, ok_bind, bit_eq_zero_iff sprite hshift,
        rowCells_cons]
      cases hbit : sprite.toNat.testBit (7 - shift) with
      | false => exact ih s erased hrest
      | true =>
          simp only [b.add_size_of_lt hcolumn, b.add_size_of_lt hy, ok_bind, Cells.flip_ofScreen,
            noteErased_eq, Bool.true_eq_false, if_false]
          rw [ih _ _ hrest]
          simp only [if_true, Screen.flipAll, Bool.or_assoc]

theorem drawRows_eq (memory : Memory) {index x y row count : Nat} (s : Screen) (r : Registers)
    (erased : Bool) (hindex : index < 2 ^ 16) (hx : x < 64) (hy : y < 32) (h : row + count ≤ 16) :
    let sprite := memory.readRun (index + row) count
    let drawn := s.draw x (y + row) sprite.1
    b.drawRows memory index x y (.ofScreen s) (r.set .flag (flagOf erased))
        (List.range' row count) =
      .ok (.ofScreen drawn.1, r.set .flag (flagOf (erased || drawn.2)), sprite.2) := by
  induction count generalizing row s erased with
  | zero => simp [Build.drawRows, Memory.readRun, Screen.draw, Sprite.footprint, Screen.flipAll]
  | succ count ih =>
      have haddress : index + row < 2 ^ 32 := by omega
      have hline : y + row < 2 ^ 32 := by omega
      have hrest : row + 1 + count ≤ 16 := by omega
      simp only [List.range'_succ, Build.drawRows, b.add_size_of_lt haddress, ok_bind,
        Memory.readRun]
      cases memory.read (index + row) with
      | error fault => simp [Screen.draw, Sprite.footprint, Screen.flipAll]
      | ok sprite =>
          have hrow := drawRow_eq b sprite s r erased hx hline fun _ => List.mem_range.mp
          simp only [hrow, ok_bind]
          rw [ih _ _ hrest]
          simp only [Screen.draw, Sprite.footprint, Screen.flipAll_append, Bool.or_assoc,
            Nat.add_assoc]
          rfl

end Loops

end Checked

end Chip8
