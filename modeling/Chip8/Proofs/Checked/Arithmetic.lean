import Mathlib.Data.Nat.Bitwise

/-!
Arithmetic on numbers of so many bits, and access to arrays by index, with everything that can go
wrong. An operation that leaves its type traps in one build and wraps in another; an index outside
its array, a division by zero and a copy between unequal lengths trap in every build. Where nothing
goes wrong an operation is the one on natural numbers, in every build alike.
-/

namespace Chip8.Checked

inductive Trap where
  | overflow
  | outOfBounds
  | divisionByZero
  | unequalLengths
  deriving DecidableEq, Repr

abbrev Attempt := Except Trap

@[simp] theorem ok_bind {α β : Type} (a : α) (f : α → Attempt β) :
    ((.ok a : Attempt α) >>= f) = f a := rfl

@[simp] theorem pure_eq_ok {α : Type} (a : α) : (pure a : Attempt α) = .ok a := rfl

@[simp] theorem map_ok {α β : Type} (f : α → β) (a : α) :
    f <$> (.ok a : Attempt α) = .ok (f a) := rfl

/-- How the program was built. -/
structure Build where
  /-- Whether a number that leaves its type traps. Otherwise it wraps. -/
  traps : Bool
  /-- Whether sizes and indices have 64 bits. Otherwise they have 32. -/
  wide : Bool
  deriving DecidableEq, Repr

namespace Build

def sizeBits (b : Build) : Nat := if b.wide then 64 else 32

section Operations

variable (b : Build) (bits x y : Nat)

/-- The result of an operation whose exact value is not below zero. -/
def fit (value : Nat) : Attempt Nat :=
  if value < 2 ^ bits then .ok value
  else if b.traps then .error .overflow else .ok (value % 2 ^ bits)

def add : Attempt Nat := b.fit bits (x + y)

def mul : Attempt Nat := b.fit bits (x * y)

def sub : Attempt Nat :=
  if y ≤ x then .ok (x - y)
  else if b.traps then .error .overflow else .ok (x + 2 ^ bits - y)

/-- The amount of a shift, which is to be less than the bits there are. -/
def shiftAmount (amount : Nat) : Attempt Nat :=
  if amount < bits then .ok amount
  else if b.traps then .error .overflow else .ok (amount % bits)

/-- Shifts to the left. The bits that leave the type are dropped. -/
def shl (amount : Nat) : Attempt Nat := do
  return (x <<< (← b.shiftAmount bits amount)) % 2 ^ bits

def shr (amount : Nat) : Attempt Nat := do
  return x >>> (← b.shiftAmount bits amount)

end Operations

section Exact

variable (b : Build) {bits x y amount : Nat}

theorem two_pow_thirtyTwo_le : 2 ^ 32 ≤ 2 ^ b.sizeBits := by
  unfold sizeBits
  split <;> decide

theorem add_of_lt (h : x + y < 2 ^ bits) : b.add bits x y = .ok (x + y) := if_pos h

theorem mul_of_lt (h : x * y < 2 ^ bits) : b.mul bits x y = .ok (x * y) := if_pos h

theorem sub_of_le (h : y ≤ x) : b.sub bits x y = .ok (x - y) := if_pos h

/-- A sum that has no more than 32 bits is right for a size. -/
theorem add_size_of_lt (h : x + y < 2 ^ 32) : b.add b.sizeBits x y = .ok (x + y) :=
  b.add_of_lt (Nat.lt_of_lt_of_le h b.two_pow_thirtyTwo_le)

theorem shl_of_lt (h : amount < bits) : b.shl bits x amount = .ok (x <<< amount % 2 ^ bits) := by
  simp [shl, shiftAmount, h]

theorem shr_of_lt (h : amount < bits) : b.shr bits x amount = .ok (x >>> amount) := by
  simp [shr, shiftAmount, h]

end Exact

/-- A sum that does not fit tells the builds apart. -/
example : (Build.mk true true).add 8 255 1 = .error .overflow ∧
    (Build.mk false true).add 8 255 1 = .ok 0 := ⟨rfl, rfl⟩

end Build

def saturate (bits value : Nat) : Nat := min value (2 ^ bits - 1)

theorem saturate_of_lt {bits value : Nat} (h : value < 2 ^ bits) : saturate bits value = value :=
  Nat.min_eq_left (Nat.le_sub_one_of_lt h)

def quotient (x y : Nat) : Attempt Nat := if y = 0 then .error .divisionByZero else .ok (x / y)

def remainder (x y : Nat) : Attempt Nat := if y = 0 then .error .divisionByZero else .ok (x % y)

theorem quotient_of_ne_zero {x y : Nat} (h : y ≠ 0) : quotient x y = .ok (x / y) := if_neg h

theorem remainder_of_ne_zero {x y : Nat} (h : y ≠ 0) : remainder x y = .ok (x % y) := if_neg h

/-! ### Arrays -/

section Arrays

variable {α : Type} {n : Nat} (values : Vector α n)

def item (i : Nat) : Attempt α := if h : i < n then .ok values[i] else .error .outOfBounds

def replace (i : Nat) (value : α) : Attempt (Vector α n) :=
  if h : i < n then .ok (values.set i value) else .error .outOfBounds

def front (source : List α) (count : Nat) : Attempt (List α) :=
  if count ≤ source.length then .ok (source.take count) else .error .outOfBounds

def overwrite (start stop : Nat) (source : List α) : Attempt (Vector α n) :=
  if start ≤ stop ∧ stop ≤ n then
    if source.length = stop - start then
      .ok (.ofFn fun i => if start ≤ i then source[i.val - start]?.getD values[i] else values[i])
    else .error .unequalLengths
  else .error .outOfBounds

theorem item_of_lt {i : Nat} (h : i < n) : item values i = .ok values[i] := dif_pos h

theorem replace_of_lt {i : Nat} (h : i < n) (value : α) :
    replace values i value = .ok (values.set i value) := dif_pos h

theorem front_of_le {source : List α} {count : Nat} (h : count ≤ source.length) :
    front source count = .ok (source.take count) := if_pos h

theorem overwrite_of_le {start : Nat} {source : List α} (h : start + source.length ≤ n) :
    overwrite values start (start + source.length) source =
      .ok (.ofFn fun i =>
        if start ≤ i then source[i.val - start]?.getD values[i] else values[i]) := by
  rw [overwrite, if_pos ⟨Nat.le_add_right _ _, h⟩, if_pos (Nat.add_sub_cancel_left _ _).symm]

end Arrays

end Chip8.Checked
