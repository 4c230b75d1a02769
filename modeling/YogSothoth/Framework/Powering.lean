import Mathlib.Algebra.Order.Field.Basic
import Mathlib.Algebra.Order.Field.Rat
import Mathlib.Tactic.FieldSimp
import Mathlib.Tactic.Linarith
import Mathlib.Tactic.Positivity
import Mathlib.Tactic.Ring

namespace YogSothoth

/-! Powers of a fixed-point number under one by squaring, each product rounded down. -/

section Powering

/-- `x ^ 2 ^ i`, in units of `1 / s`. -/
def squares (s x : Nat) : Nat → Nat
  | 0 => x
  | i + 1 => squares s x i * squares s x i / s

/-- `x ^ (n mod 2 ^ i)`, from the low `i` bits of `n`. -/
def powering (s x n : Nat) : Nat → Nat
  | 0 => s
  | i + 1 =>
    if n / 2 ^ i % 2 = 1 then powering s x n i * squares s x i / s else powering s x n i

variable {s x n : Nat}

theorem squares_add_one (i : Nat) :
    squares s x (i + 1) = squares s x i * squares s x i / s := rfl

theorem powering_add_one (i : Nat) : powering s x n (i + 1) =
    if n / 2 ^ i % 2 = 1 then powering s x n i * squares s x i / s else powering s x n i := rfl

theorem mul_div_le {a b : Nat} (h : a ≤ s) : a * b / s ≤ b :=
  Nat.div_le_of_le_mul (Nat.mul_le_mul_right b h)

theorem squares_le (hx : x ≤ s) (i : Nat) : squares s x i ≤ s := by
  induction i with
  | zero => exact hx
  | succ i ih => exact (mul_div_le ih).trans ih

theorem powering_le (hx : x ≤ s) (n i : Nat) : powering s x n i ≤ s := by
  induction i with
  | zero => exact le_refl s
  | succ i ih =>
    rw [powering_add_one]
    split_ifs
    · exact (mul_div_le ih).trans (squares_le hx i)
    · exact ih

/-- One more in the exponent: a run of ones gives way to the next square, which is less. -/
theorem powering_succ (hs : 0 < s) (hx : x ≤ s) (n i : Nat) :
    (n % 2 ^ i + 1 = 2 ^ i ∧ powering s x (n + 1) i = s ∧ squares s x i ≤ powering s x n i) ∨
    (n % 2 ^ i + 1 < 2 ^ i ∧ powering s x (n + 1) i ≤ powering s x n i) := by
  induction i with
  | zero => exact .inl ⟨by simp [Nat.mod_one], rfl, hx⟩
  | succ i ih =>
    have hmod : n % 2 ^ (i + 1) = n % 2 ^ i + 2 ^ i * (n / 2 ^ i % 2) := by
      rw [Nat.pow_succ, Nat.mod_mul]
    have hsplit := Nat.div_add_mod n (2 ^ i)
    have hpow : 2 ^ (i + 1) = 2 * 2 ^ i := by rw [Nat.pow_succ, Nat.mul_comm]
    have hpos : 0 < 2 ^ i := Nat.two_pow_pos i
    have hlt := Nat.mod_lt (n / 2 ^ i) (by decide : 0 < 2)
    rw [powering_add_one, powering_add_one, squares_add_one, hmod, hpow]
    cases ih with
    | inl hones =>
      obtain ⟨hlow, hnext, hsquare⟩ := hones
      have hdiv : (n + 1) / 2 ^ i = n / 2 ^ i + 1 := by
        have hstep : n + 1 = 2 ^ i * (n / 2 ^ i + 1) := by
          rw [Nat.mul_succ]
          omega
        rw [hstep, Nat.mul_div_cancel_left _ hpos]
      rw [hdiv, hnext]
      by_cases hbit : n / 2 ^ i % 2 = 1
      · rw [if_pos hbit, if_neg (by omega), hbit]
        exact .inl ⟨by omega, rfl, Nat.div_le_div_right (Nat.mul_le_mul_right _ hsquare)⟩
      · have hzero : n / 2 ^ i % 2 = 0 := by omega
        rw [if_neg hbit, if_pos (by omega), hzero, Nat.mul_div_cancel_left _ hs]
        exact .inr ⟨by omega, hsquare⟩
    | inr hrest =>
      obtain ⟨hlow, hle⟩ := hrest
      have hdiv : (n + 1) / 2 ^ i = n / 2 ^ i := by
        have hstep : n + 1 = 2 ^ i * (n / 2 ^ i) + (n % 2 ^ i + 1) := by omega
        rw [hstep, Nat.mul_add_div hpos, Nat.div_eq_of_lt hlow, Nat.add_zero]
      have hbound : 2 ^ i * (n / 2 ^ i % 2) ≤ 2 ^ i * 1 := Nat.mul_le_mul_left _ (by omega)
      rw [hdiv]
      refine .inr ⟨by omega, ?_⟩
      split_ifs
      · exact Nat.div_le_div_right (Nat.mul_le_mul_right _ hle)
      · exact hle

/-- A power does not grow with its exponent. -/
theorem powering_antitone (hs : 0 < s) (hx : x ≤ s) {n m i : Nat} (hnm : n ≤ m) (hm : m < 2 ^ i) :
    powering s x m i ≤ powering s x n i := by
  induction m, hnm using Nat.le_induction with
  | base => exact le_refl _
  | succ m _ ih =>
    have hstep := powering_succ hs hx m i
    rw [Nat.mod_eq_of_lt (by omega)] at hstep
    cases hstep with
    | inl hones => omega
    | inr hrest => exact hrest.2.trans (ih (by omega))

/-- A product rounded down of two numbers rounded down by so much. -/
theorem mul_div_bounds {a b : Nat} {α β d e : ℚ} (hs : 0 < s) (hα : 0 ≤ α) (hα' : α ≤ 1)
    (hb : b ≤ s) (ha : s * α - d ≤ a ∧ (a : ℚ) ≤ s * α)
    (hb' : s * β - e ≤ b ∧ (b : ℚ) ≤ s * β) (hd : 0 ≤ d) (he : 0 ≤ e) :
    s * (α * β) - (d + e + 1) ≤ (a * b / s : Nat) ∧ ((a * b / s : Nat) : ℚ) ≤ s * (α * β) := by
  have hs' : (0 : ℚ) < s := by exact_mod_cast hs
  have hb0 : (0 : ℚ) ≤ b := Nat.cast_nonneg b
  have hbs : (b : ℚ) ≤ s := by exact_mod_cast hb
  have hlow : ((a * b / s : Nat) : ℚ) * s ≤ a * b := by
    exact_mod_cast Nat.div_mul_le_self (a * b) s
  have hhigh : (a : ℚ) * b ≤ ((a * b / s : Nat) + 1) * s := by
    have hlt := Nat.lt_div_mul_add (a := a * b) hs
    have hle : a * b ≤ (a * b / s + 1) * s := by
      rw [Nat.add_mul, Nat.one_mul]
      exact hlt.le
    exact_mod_cast hle
  constructor
  · have hproduct : s * (s * (α * β) - (d + e)) ≤ a * b := by
      calc s * (s * (α * β) - (d + e)) ≤ s * α * (s * β - e) - d * s := by
            have hone : s * e * α ≤ s * e * 1 :=
              mul_le_mul_of_nonneg_left hα' (mul_nonneg hs'.le he)
            linarith
        _ ≤ s * α * b - d * b := by
            have hfirst : s * α * (s * β - e) ≤ s * α * b :=
              mul_le_mul_of_nonneg_left hb'.1 (mul_nonneg hs'.le hα)
            have hsecond : d * b ≤ d * s := mul_le_mul_of_nonneg_left hbs hd
            linarith
        _ = (s * α - d) * b := by ring
        _ ≤ a * b := mul_le_mul_of_nonneg_right ha.1 hb0
    have hquot : s * (s * (α * β) - (d + e)) ≤ s * ((a * b / s : Nat) + 1) := by
      rw [mul_comm (s : ℚ) ((a * b / s : Nat) + 1)]
      exact hproduct.trans hhigh
    linarith [le_of_mul_le_mul_left hquot hs']
  · have hproduct : (a : ℚ) * b ≤ s * (α * β) * s := by
      calc (a : ℚ) * b ≤ s * α * (s * β) :=
            mul_le_mul ha.2 hb'.2 hb0 (mul_nonneg hs'.le hα)
        _ = s * (α * β) * s := by ring
    exact le_of_mul_le_mul_right (hlow.trans hproduct) hs'

/-- A square is the exact one less a unit at most for each product that made it. -/
theorem squares_bounds (hs : 0 < s) (hx : x ≤ s) (i : Nat) :
    s * ((x : ℚ) / s) ^ 2 ^ i - (2 ^ i - 1) ≤ squares s x i ∧
      (squares s x i : ℚ) ≤ s * ((x : ℚ) / s) ^ 2 ^ i := by
  have hs' : (0 : ℚ) < s := by exact_mod_cast hs
  have hy : 0 ≤ (x : ℚ) / s := by positivity
  have hy' : (x : ℚ) / s ≤ 1 := by
    rw [div_le_one hs']
    exact_mod_cast hx
  induction i with
  | zero =>
    have hexact : s * ((x : ℚ) / s) ^ 2 ^ 0 = x := by
      rw [pow_zero, pow_one]
      field_simp
    rw [hexact]
    change x - (2 ^ 0 - 1) ≤ (x : ℚ) ∧ (x : ℚ) ≤ x
    constructor
    · linarith
    · exact le_refl _
  | succ i ih =>
    have hpow : ((x : ℚ) / s) ^ 2 ^ i * ((x : ℚ) / s) ^ 2 ^ i = ((x : ℚ) / s) ^ 2 ^ (i + 1) := by
      rw [← pow_add, ← two_mul, ← pow_succ']
    have hone : (1 : ℚ) ≤ 2 ^ i := one_le_pow₀ (by norm_num)
    have hbounds := mul_div_bounds hs (pow_nonneg hy _) (pow_le_one₀ hy hy')
      (squares_le hx i) ih ih (by linarith) (by linarith)
    rw [hpow] at hbounds
    rw [squares_add_one]
    refine ⟨le_trans (le_of_eq ?_) hbounds.1, hbounds.2⟩
    rw [pow_succ]
    ring

/-- A power is the exact one less a unit at most for each one in the exponent. -/
theorem powering_bounds (hs : 0 < s) (hx : x ≤ s) (n i : Nat) :
    s * ((x : ℚ) / s) ^ (n % 2 ^ i) - (n % 2 ^ i : Nat) ≤ powering s x n i ∧
      (powering s x n i : ℚ) ≤ s * ((x : ℚ) / s) ^ (n % 2 ^ i) := by
  have hs' : (0 : ℚ) < s := by exact_mod_cast hs
  have hy : 0 ≤ (x : ℚ) / s := by positivity
  have hy' : (x : ℚ) / s ≤ 1 := by
    rw [div_le_one hs']
    exact_mod_cast hx
  induction i with
  | zero =>
    rw [pow_zero, Nat.mod_one, pow_zero]
    change (s : ℚ) * 1 - (0 : Nat) ≤ s ∧ (s : ℚ) ≤ s * 1
    constructor
    · simp
    · simp
  | succ i ih =>
    have hmod : n % 2 ^ (i + 1) = n % 2 ^ i + 2 ^ i * (n / 2 ^ i % 2) := by
      rw [Nat.pow_succ, Nat.mod_mul]
    rw [powering_add_one, hmod]
    by_cases hbit : n / 2 ^ i % 2 = 1
    · have hone : (1 : ℚ) ≤ 2 ^ i := one_le_pow₀ (by norm_num)
      have hbounds := mul_div_bounds hs (pow_nonneg hy _) (pow_le_one₀ hy hy')
        (squares_le hx i) ih (squares_bounds hs hx i) (Nat.cast_nonneg _)
        (by linarith)
      rw [← pow_add] at hbounds
      rw [if_pos hbit, hbit, Nat.mul_one]
      refine ⟨le_trans (le_of_eq ?_) hbounds.1, hbounds.2⟩
      push_cast
      ring
    · have hzero : n / 2 ^ i % 2 = 0 := by
        have hlt := Nat.mod_lt (n / 2 ^ i) (by decide : 0 < 2)
        omega
      rw [if_neg hbit, hzero, Nat.mul_zero, Nat.add_zero]
      exact ih

/-- A share of a power, rounded down, is that of the exact one or one less. -/
theorem powering_share (hs : 0 < s) (hx : x ≤ s) {n i c : Nat} (hn : n < 2 ^ i) (hc : n * c < s) :
    powering s x n i * c / s = c * x ^ n / s ^ n ∨
      powering s x n i * c / s + 1 = c * x ^ n / s ^ n := by
  have hs' : (0 : ℚ) < s := by exact_mod_cast hs
  have hc' : (0 : ℚ) ≤ c := Nat.cast_nonneg c
  have hpos : (0 : ℚ) < (s : ℚ) ^ n := pow_pos hs' n
  obtain ⟨hlow, hhigh⟩ := powering_bounds hs hx n i
  rw [Nat.mod_eq_of_lt hn, div_pow] at hlow hhigh
  have hdown : ((powering s x n i * c / s : Nat) : ℚ) * s ≤ powering s x n i * c := by
    exact_mod_cast Nat.div_mul_le_self (powering s x n i * c) s
  have hup : (powering s x n i : ℚ) * c < ((powering s x n i * c / s : Nat) + 1) * s := by
    have hlt := Nat.lt_div_mul_add (a := powering s x n i * c) hs
    have hle : powering s x n i * c < (powering s x n i * c / s + 1) * s := by
      rw [Nat.add_mul, Nat.one_mul]
      exact hlt
    exact_mod_cast hle
  have hfirst : powering s x n i * c / s ≤ c * x ^ n / s ^ n := by
    rw [Nat.le_div_iff_mul_le (Nat.pow_pos hs)]
    have hshare : ((powering s x n i * c / s : Nat) : ℚ) * s ≤ s * (c * (x ^ n / s ^ n)) := by
      calc ((powering s x n i * c / s : Nat) : ℚ) * s ≤ powering s x n i * c := hdown
        _ ≤ s * (x ^ n / s ^ n) * c := mul_le_mul_of_nonneg_right hhigh hc'
        _ = s * (c * (x ^ n / s ^ n)) := by ring
    rw [mul_comm] at hshare
    have hexact := le_of_mul_le_mul_left hshare hs'
    rw [← mul_div_assoc, le_div_iff₀ hpos] at hexact
    exact_mod_cast hexact
  have hsecond : c * x ^ n / s ^ n < powering s x n i * c / s + 2 := by
    have hfloor : ((c * x ^ n / s ^ n : Nat) : ℚ) ≤ c * (x ^ n / s ^ n) := by
      rw [← mul_div_assoc, le_div_iff₀ hpos]
      exact_mod_cast Nat.div_mul_le_self (c * x ^ n) (s ^ n)
    have hloss : (n : ℚ) * c < s := by exact_mod_cast hc
    have hshare : ((c * x ^ n / s ^ n : Nat) : ℚ) * s <
        ((powering s x n i * c / s : Nat) + 2) * s := by
      calc ((c * x ^ n / s ^ n : Nat) : ℚ) * s ≤ c * (x ^ n / s ^ n) * s :=
            mul_le_mul_of_nonneg_right hfloor hs'.le
        _ = s * (x ^ n / s ^ n) * c := by ring
        _ ≤ (powering s x n i + n) * c := mul_le_mul_of_nonneg_right (by linarith) hc'
        _ < ((powering s x n i * c / s : Nat) + 2) * s := by linarith
    exact_mod_cast lt_of_mul_lt_mul_right hshare hs'.le
  omega

end Powering

end YogSothoth
