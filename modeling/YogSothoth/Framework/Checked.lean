import Mathlib.Algebra.Order.Ring.Nat

namespace YogSothoth

/-! Unsigned integers of `w` bits, as naturals under `2 ^ w`. -/

def checkedAdd (w a b : Nat) : Option Nat := if a + b < 2 ^ w then some (a + b) else none

def checkedSub (a b : Nat) : Option Nat := if b ≤ a then some (a - b) else none

def checkedMul (w a b : Nat) : Option Nat := if a * b < 2 ^ w then some (a * b) else none

def checkedDiv (a b : Nat) : Option Nat := if b = 0 then none else some (a / b)

/-- The shift itself is checked, not the bits it loses. -/
def checkedShl (w a bits : Nat) : Option Nat :=
  if bits < w then some (a * 2 ^ bits % 2 ^ w) else none

/-- The conversion to a width: refused past it. -/
def tryFrom (w a : Nat) : Option Nat := if a < 2 ^ w then some a else none

variable {w a b c : Nat}

/-- A product's bits are those of its terms at most. -/
theorem mul_lt_two_pow {m n : Nat} (ha : a < 2 ^ m) (hb : b < 2 ^ n) : a * b < 2 ^ (m + n) := by
  rw [Nat.pow_add]
  exact Nat.mul_lt_mul'' ha hb

theorem checkedSub_eq_some : checkedSub a b = some c ↔ b ≤ a ∧ a - b = c := by
  unfold checkedSub
  split_ifs with h <;> simp [h]

theorem checkedMul_eq_some : checkedMul w a b = some c ↔ a * b < 2 ^ w ∧ a * b = c := by
  unfold checkedMul
  split_ifs with h <;> simp [h]

theorem checkedMul_of_lt (h : a * b < 2 ^ w) : checkedMul w a b = some (a * b) := if_pos h

theorem checkedSub_of_le (h : b ≤ a) : checkedSub a b = some (a - b) := if_pos h

theorem checkedSub_of_lt (h : a < b) : checkedSub a b = none := if_neg (by omega)

theorem checkedDiv_of_ne (h : b ≠ 0) : checkedDiv a b = some (a / b) := if_neg h

theorem tryFrom_of_lt (h : a < 2 ^ w) : tryFrom w a = some a := if_pos h

/-- A shift that loses no bit. -/
theorem checkedShl_of_lt {bits : Nat} (hbits : bits < w) (h : a * 2 ^ bits < 2 ^ w) :
    checkedShl w a bits = some (a * 2 ^ bits) := by
  unfold checkedShl
  rw [if_pos hbits, Nat.mod_eq_of_lt h]

end YogSothoth
