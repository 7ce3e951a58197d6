/-!
The keypad: sixteen keys, named by the numbers below 16, and which of them are held.
-/

namespace Chip8

abbrev Key := Fin 16

/-- The held keys: bit `k` of the mask is set while key `k` is held. -/
structure Keypad where
  mask : UInt16
  deriving DecidableEq, Repr

namespace Keypad

def released : Keypad := ⟨0⟩

/-- Whether the key of a number is held. No key has a number from 16 on. -/
def isHeld (pad : Keypad) (number : Nat) : Bool := number < 16 && pad.mask.toNat.testBit number

def lowest? (pad : Keypad) : Option Key := (List.finRange 16).find? fun key => pad.isHeld key

def hold (pad : Keypad) (key : Key) : Keypad := ⟨pad.mask ||| UInt16.ofNat (1 <<< key.val)⟩

@[simp] theorem isHeld_released (number : Nat) : released.isHeld number = false := by
  simp [released, isHeld]

theorem isHeld_hold (pad : Keypad) (key : Key) (number : Nat) :
    (pad.hold key).isHeld number = (decide (number = key.val) || pad.isHeld number) := by
  have hk : 2 ^ key.val < 65536 := Nat.pow_lt_pow_right (by decide) key.isLt
  have hbit : (UInt16.ofNat (1 <<< key.val)).toNat = 2 ^ key.val := by
    rw [UInt16.toNat_ofNat', Nat.one_shiftLeft, Nat.mod_eq_of_lt hk]
  by_cases h : number < 16
  · simp only [isHeld, hold, UInt16.toNat_or, hbit]
    simp [h, Nat.testBit_two_pow, eq_comm, Bool.or_comm]
  · have hne : number ≠ key.val := by omega
    simp [isHeld, h, hne]

theorem testBit_mask (pad : Keypad) (number : Nat) :
    pad.mask.toNat.testBit number = pad.isHeld number := by
  by_cases h : number < 16
  · simp [isHeld, h]
  · have hlt : pad.mask.toNat < 2 ^ number :=
      Nat.lt_of_lt_of_le pad.mask.toNat_lt (Nat.pow_le_pow_right (by decide) (Nat.not_lt.mp h))
    simp [isHeld, h, Nat.testBit_lt_two_pow hlt]

/-- A keypad is what its keys are. -/
theorem eq_of_isHeld {pad pad' : Keypad}
    (h : ∀ key : Key, pad.isHeld key.val = pad'.isHeld key.val) : pad = pad' := by
  refine congrArg Keypad.mk (UInt16.toNat_inj.mp (Nat.eq_of_testBit_eq fun number => ?_))
  rw [testBit_mask, testBit_mask]
  by_cases hn : number < 16
  · exact h ⟨number, hn⟩
  · simp [isHeld, hn]

/-- There is a lowest held key unless none is held. -/
theorem lowest?_eq_none_iff {pad : Keypad} : pad.lowest? = none ↔ pad = released := by
  constructor
  · intro h
    refine eq_of_isHeld fun key => ?_
    simpa using List.find?_eq_none.mp h key (List.mem_finRange _)
  · rintro rfl
    simp [lowest?]

end Keypad

end Chip8
