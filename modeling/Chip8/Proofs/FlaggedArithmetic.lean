import Chip8.Machine.Execute

/-!
Operations with a flag, in numbers. An operation reads both of its registers before it writes, and
writes the flag before the value. So whichever of the registers are the same, the value is the one
of the registers as they were, and the flag is lost only where the value goes to the flag register
itself.
-/

namespace Chip8

/-- What an operation with a flag makes of the numbers in its registers, where a shift works on
`source`: the number for the first register, and the number for the flag. -/
def Operation.numbers? (vx vy source : Nat) : Operation → Option (Nat × Nat)
  | add => some ((vx + vy) % 256, (vx + vy) / 256)
  | sub => some ((vx + 256 - vy) % 256, if vy ≤ vx then 1 else 0)
  | subReverse => some ((vy + 256 - vx) % 256, if vx < vy then 1 else 0)
  | shiftRight => some (source / 2, source % 2)
  | shiftLeft => some (2 * source % 256, 2 * source / 256)
  | copy | or | and | xor => none

def Computed.numbers? (computed : Computed) : Option (Nat × Nat) :=
  computed.flag?.map fun flag => (computed.value.toNat, flag.toNat)

theorem toNat_flagOf (p : Prop) [Decidable p] :
    (flagOf (decide p)).toNat = if p then 1 else 0 := by
  by_cases h : p <;> simp [flagOf, h]

section Bytes

variable (a b : UInt8)

theorem toNat_carry : (flagOf (decide (a.toNat + b.toNat > 255))).toNat =
    (a.toNat + b.toNat) / 256 := by
  have ha := a.toNat_lt
  have hb := b.toNat_lt
  rw [toNat_flagOf]
  split <;> omega

theorem toNat_sub_eq : (a - b).toNat = (a.toNat + 256 - b.toNat) % 256 := by
  have hb := b.toNat_lt
  rw [UInt8.toNat_sub]
  omega

theorem toNat_half : (a >>> 1).toNat = a.toNat / 2 := by
  rw [UInt8.toNat_shiftRight, Nat.shiftRight_eq_div_pow]
  rfl

theorem toNat_lowest : (a &&& 1).toNat = a.toNat % 2 := by
  rw [UInt8.toNat_and]
  exact Nat.and_one_is_mod a.toNat

theorem toNat_double : (a <<< 1).toNat = 2 * a.toNat % 256 := by
  rw [UInt8.toNat_shiftLeft, Nat.shiftLeft_eq, Nat.mul_comm]
  rfl

theorem toNat_highest : (a >>> 7).toNat = 2 * a.toNat / 256 := by
  have hshift : (a >>> 7).toNat = a.toNat / 128 := by
    rw [UInt8.toNat_shiftRight, Nat.shiftRight_eq_div_pow]
    rfl
  omega

end Bytes

/-- What is computed on bytes is what the operation makes of their numbers. -/
theorem Operation.compute_numbers? (operation : Operation) (inPlace : Bool) (vx vy : UInt8) :
    (operation.compute inPlace vx vy).numbers? =
      operation.numbers? vx.toNat vy.toNat (if inPlace then vx.toNat else vy.toNat) := by
  rw [← apply_ite UInt8.toNat]
  generalize hsource : (if inPlace = true then vx else vy) = source
  cases operation with
  | copy | or | and | xor => rfl
  | add => simp only [compute, Computed.numbers?, numbers?, Option.map_some, toNat_carry,
      UInt8.toNat_add, Nat.reducePow]
  | sub => simp only [compute, Computed.numbers?, numbers?, Option.map_some, toNat_flagOf,
      toNat_sub_eq, UInt8.le_iff_toNat_le, ge_iff_le]
  | subReverse => simp only [compute, Computed.numbers?, numbers?, Option.map_some, toNat_flagOf,
      toNat_sub_eq, UInt8.lt_iff_toNat_lt]
  | shiftRight => simp only [compute, Computed.numbers?, numbers?, Option.map_some, hsource,
      toNat_half, toNat_lowest]
  | shiftLeft => simp only [compute, Computed.numbers?, numbers?, Option.map_some, hsource,
      toNat_double, toNat_highest]

namespace Machine

section Combine

variable {m : Machine} {operation : Operation} {x y : Register}

/-- The registers other than the first one and the flag are not written. -/
theorem get_combine_of_ne {r : Register} (hx : r ≠ x) (hflag : r ≠ .flag) :
    (m.combine operation x y).registers.get r = m.registers.get r := by
  simp only [combine, Registers.get_set, if_neg (Ne.symm hx)]
  split
  · rfl
  · rw [Registers.get_set, if_neg (Ne.symm hflag)]

/-- The value is in the first register, and the flag in its own unless the value went there. -/
theorem get_combine_numbers {value flag : Nat}
    (h : operation.numbers? (m.registers.get x).toNat (m.registers.get y).toNat
      (if m.settings.shift then (m.registers.get x).toNat else (m.registers.get y).toNat) =
        some (value, flag)) :
    ((m.combine operation x y).registers.get x).toNat = value ∧
      (x ≠ .flag → ((m.combine operation x y).registers.get .flag).toNat = flag) := by
  rw [← Operation.compute_numbers?, Computed.numbers?, Option.map_eq_some_iff] at h
  obtain ⟨byte, hbyte, hnumbers⟩ := h
  obtain ⟨rfl, rfl⟩ := Prod.mk.inj hnumbers
  constructor
  · simp only [combine, Registers.get_set, if_true]
  · intro hx
    simp only [combine, hbyte, Registers.get_set, if_neg hx, if_true]

end Combine

/-- What the operations with a flag leave in the registers, whichever of their registers are the
same, in terms of the numbers that were there before.

Where the first register is not the flag register, value and flag together are the exact result of
an addition or a shift. The flag of a subtraction says that nothing was borrowed. The flag of the
reverse subtraction says that the first number is the smaller one; so it is always the other way
round than that of the subtraction, and on equal numbers it is no sign of a borrow. Where the first
register is the flag register, it has the value and the flag is lost. No operation writes any other
register, changes anything else, or fails. -/
theorem flagged_arithmetic (m : Machine) (input : Input) (x y : Register) :
    let vx := (m.registers.get x).toNat
    let vy := (m.registers.get y).toNat
    let s := if m.settings.shift then vx else vy
    let after (operation : Operation) := (m.execute input (.combine operation x y)).machine
    let value (operation : Operation) := ((after operation).registers.get x).toNat
    let flag (operation : Operation) := ((after operation).registers.get .flag).toNat
    (x ≠ .flag →
      value .add + 256 * flag .add = vx + vy ∧
      ((value .sub : Int) = vx - vy + 256 * (1 - flag .sub) ∧ (flag .sub = 1 ↔ vx ≥ vy)) ∧
      ((value .subReverse : Int) = (vy - vx) % 256 ∧ (flag .subReverse = 1 ↔ vx < vy) ∧
        flag .subReverse = 1 - flag .sub) ∧
      2 * value .shiftRight + flag .shiftRight = s ∧
      256 * flag .shiftLeft + value .shiftLeft = 2 * s ∧
      ∀ operation ∈ [Operation.add, .sub, .subReverse, .shiftRight, .shiftLeft],
        flag operation = 0 ∨ flag operation = 1) ∧
    (x = .flag →
      flag .add = (vx + vy) % 256 ∧
      (flag .sub : Int) = (vx - vy) % 256 ∧
      (flag .subReverse : Int) = (vy - vx) % 256 ∧
      flag .shiftRight = s / 2 ∧
      flag .shiftLeft = 2 * s % 256) ∧
    ∀ operation : Operation,
      (∀ r, r ≠ x → r ≠ .flag → (after operation).registers.get r = m.registers.get r) ∧
      after operation = { m with registers := (after operation).registers } ∧
      (m.execute input (.combine operation x y)).fault? = none := by
  intro vx vy s after value flag
  have hvx : vx < 256 := (m.registers.get x).toNat_lt
  have hvy : vy < 256 := (m.registers.get y).toNat_lt
  have hs : s < 256 := by
    simp only [s]
    split <;> assumption
  have hnumbers (operation : Operation) {v f : Nat} :
      operation.numbers? vx vy s = some (v, f) →
        value operation = v ∧ (x ≠ .flag → flag operation = f) :=
    get_combine_numbers
  obtain ⟨hadd, hcarry⟩ := hnumbers .add rfl
  obtain ⟨hsub, hkept⟩ := hnumbers .sub rfl
  obtain ⟨hreverse, hless⟩ := hnumbers .subReverse rfl
  obtain ⟨hright, hlowest⟩ := hnumbers .shiftRight rfl
  obtain ⟨hleft, hhighest⟩ := hnumbers .shiftLeft rfl
  clear_value vx vy s
  refine ⟨fun hx => ?_, ?_, fun operation => ⟨fun r => get_combine_of_ne, rfl, rfl⟩⟩
  · rw [hadd, hsub, hreverse, hright, hleft, hcarry hx, hkept hx, hless hx, hlowest hx, hhighest hx]
    refine ⟨by omega, ⟨?_, ?_⟩, ⟨by omega, ?_, ?_⟩, by omega, by omega, ?_⟩
    · split <;> omega
    · split <;> omega
    · split <;> omega
    · split <;> split <;> omega
    · simp only [List.forall_mem_cons, hcarry hx, hkept hx, hless hx, hlowest hx, hhighest hx]
      refine ⟨by omega, ?_, ?_, by omega, by omega, fun _ h => absurd h List.not_mem_nil⟩
      · split <;> omega
      · split <;> omega
  · intro hx
    have hflag (operation : Operation) : flag operation = value operation := by
      simp only [flag, value, hx]
    rw [hflag, hflag, hflag, hflag, hflag, hadd, hsub, hreverse, hright, hleft]
    exact ⟨rfl, by omega, by omega, rfl, rfl⟩

/-- Equal numbers in two registers, and in the flag register and another one. -/
theorem flagged_arithmetic_on_equal_numbers :
    let m : Machine := { empty 0 with registers := ⟨Vector.replicate 16 200⟩ }
    let after (operation : Operation) (x : Register) :=
      (m.execute ⟨.released, 0, 0⟩ (.combine operation x 4)).machine.registers
    ((after .add 3).get 3).toNat + 256 * ((after .add 3).get .flag).toNat = 400 ∧
      ((after .subReverse 3).get .flag).toNat = 1 - ((after .sub 3).get .flag).toNat ∧
      ((after .add .flag).get .flag).toNat = 144 := by
  intro m after
  obtain ⟨hsum, -, ⟨-, -, hopposite⟩, -⟩ :=
    (flagged_arithmetic m ⟨.released, 0, 0⟩ 3 4).1 (by decide)
  obtain ⟨hvalue, -⟩ := (flagged_arithmetic m ⟨.released, 0, 0⟩ .flag 4).2.1 rfl
  exact ⟨hsum.trans (by decide), hopposite, hvalue.trans (by decide)⟩

end Machine

end Chip8
