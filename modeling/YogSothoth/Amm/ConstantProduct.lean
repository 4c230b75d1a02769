import Mathlib.Data.Nat.Init
import YogSothoth.Framework.Checked

namespace YogSothoth.Amm

/-- `CoreError::ArithmeticOverflow`. -/
structure ArithmeticOverflow where
  context : String
  deriving DecidableEq

/-- A `CoreResult`, or a panic. -/
abbrev Outcome := ExceptT ArithmeticOverflow Option

def okOr (context : String) (x : Option Nat) : Outcome Nat := x.elim (throw ⟨context⟩) pure

/-- A division that panics on a zero divisor. -/
def divide (a b : Nat) : Outcome Nat := ExceptT.lift (checkedDiv a b)

/-- Spot price of A in B, as Q64. -/
def spotPrice (reserveA reserveB : Nat) : Outcome Nat :=
  if reserveA = 0 then throw ⟨"spot_price: reserve_a is zero"⟩
  else do
    let numerator ← okOr "spot_price: reserve_b << 64 overflows u128" (checkedShl 128 reserveB 64)
    divide numerator reserveA

/-- Price impact of a swap in basis points. -/
def priceImpact (reserveA reserveB amountIn : Nat) : Outcome Nat := do
  let priceBefore ← spotPrice reserveA reserveB
  let reserveAAfter ← okOr "price_impact: reserve_a + amount_in overflows"
    (checkedAdd 128 reserveA amountIn)
  let k ← okOr "price_impact: reserve_a * reserve_b overflows" (checkedMul 128 reserveA reserveB)
  let reserveBAfter ← divide k reserveAAfter
  let priceAfter ← spotPrice reserveAAfter reserveBAfter
  let delta := priceBefore - priceAfter
  let scaled ← okOr "price_impact: delta * 10_000 overflows" (checkedMul 128 delta 10000)
  let impactBps ← divide scaled priceBefore
  return impactBps % 2 ^ 32

def Refused (outcome : Outcome Nat) : Prop := ∃ e, outcome = throw e

/-- An error, or the exact price. -/
def SpotExact (reserveA reserveB : Nat) : Prop :=
  Refused (spotPrice reserveA reserveB) ∨
    spotPrice reserveA reserveB = pure (reserveB * 2 ^ 64 / reserveA)

/-- No panic: an error, or at most the whole. -/
def ImpactBounded (reserveA reserveB amountIn : Nat) : Prop :=
  Refused (priceImpact reserveA reserveB amountIn) ∨
    ∃ bps, priceImpact reserveA reserveB amountIn = pure bps ∧ bps ≤ 10000

section Outcomes

variable {m n a b : Nat}

theorem pure_inj : (pure m : Outcome Nat) = pure n ↔ m = n := by
  constructor
  · intro h
    exact Except.ok.inj (Option.some.inj h)
  · intro h
    rw [h]

theorem not_refused_pure : ¬ Refused (pure n) := by
  intro h
  obtain ⟨e, he⟩ := h
  cases Option.some.inj he

theorem throw_bind (e : ArithmeticOverflow) (f : Nat → Outcome Nat) :
    (throw e : Outcome Nat) >>= f = throw e := rfl

theorem okOr_some (context : String) : okOr context (some n) = pure n := rfl

theorem okOr_none (context : String) : okOr context none = throw ⟨context⟩ := rfl

theorem divide_of_ne (h : b ≠ 0) : divide a b = pure (a / b) := by
  unfold divide
  rw [checkedDiv_of_ne h]
  rfl

theorem divide_zero_bind (f : Nat → Outcome Nat) : divide a 0 >>= f = (none : Option _) := rfl

end Outcomes

section Spot

variable {a b : Nat}

/-- The shift drops the high bits of the reserve. -/
theorem spotPrice_eq (ha : a ≠ 0) : spotPrice a b = pure (b % 2 ^ 64 * 2 ^ 64 / a) := by
  have hshift : b * 2 ^ 64 % 2 ^ 128 = b % 2 ^ 64 * 2 ^ 64 := Nat.mul_mod_mul_right (2 ^ 64) b (2 ^ 64)
  unfold spotPrice checkedShl
  rw [if_neg ha, if_pos (by decide), hshift, okOr_some, pure_bind]
  exact divide_of_ne ha

/-- A dropped bit is worth more than a divisor. -/
theorem spotExact_iff (ha : a < 2 ^ 128) : SpotExact a b ↔ a = 0 ∨ b < 2 ^ 64 := by
  by_cases hzero : a = 0
  · rw [hzero]
    exact iff_of_true (.inl ⟨_, rfl⟩) (.inl rfl)
  · have hpos : 0 < a := Nat.pos_of_ne_zero hzero
    unfold SpotExact
    rw [spotPrice_eq hzero, pure_inj]
    simp only [hzero, false_or, not_refused_pure]
    constructor
    · intro hexact
      by_contra hlarge
      have hlost : b % 2 ^ 64 * 2 ^ 64 + a ≤ b * 2 ^ 64 := by omega
      have hmore := Nat.div_le_div_right (c := a) hlost
      rw [Nat.add_div_right _ hpos] at hmore
      omega
    · intro hsmall
      rw [Nat.mod_eq_of_lt hsmall]

end Spot

section Impact

variable {a b amount : Nat}

/-- Past the checks of its sums, the impact is a share of the price before: none of a zero price. -/
theorem priceImpact_eq (ha : a ≠ 0) (hsum : a + amount < 2 ^ 128) (hk : a * b < 2 ^ 128) :
    ∃ delta ≤ b % 2 ^ 64 * 2 ^ 64 / a, priceImpact a b amount =
      (okOr "price_impact: delta * 10_000 overflows" (checkedMul 128 delta 10000) >>= fun scaled =>
        divide scaled (b % 2 ^ 64 * 2 ^ 64 / a) >>= fun impactBps => pure (impactBps % 2 ^ 32)) := by
  have hafter : a + amount ≠ 0 := by omega
  refine ⟨_, Nat.sub_le _ (a * b / (a + amount) % 2 ^ 64 * 2 ^ 64 / (a + amount)), ?_⟩
  unfold priceImpact checkedAdd
  simp only [spotPrice_eq ha, if_pos hsum, checkedMul_of_lt hk, okOr_some, pure_bind,
    divide_of_ne hafter, spotPrice_eq hafter]

theorem impactBounded_iff : ImpactBounded a b amount ↔
    a = 0 ∨ 2 ^ 128 ≤ a + amount ∨ 2 ^ 128 ≤ a * b ∨ a ≤ b % 2 ^ 64 * 2 ^ 64 := by
  by_cases hzero : a = 0
  · rw [hzero]
    exact iff_of_true (.inl ⟨_, rfl⟩) (.inl rfl)
  have hpos : 0 < a := Nat.pos_of_ne_zero hzero
  by_cases hsum : 2 ^ 128 ≤ a + amount
  · refine iff_of_true (.inl ⟨⟨"price_impact: reserve_a + amount_in overflows"⟩, ?_⟩)
      (.inr (.inl hsum))
    unfold priceImpact checkedAdd
    rw [spotPrice_eq hzero, if_neg (not_lt.mpr hsum), pure_bind, okOr_none, throw_bind]
  by_cases hk : 2 ^ 128 ≤ a * b
  · refine iff_of_true (.inl ⟨⟨"price_impact: reserve_a * reserve_b overflows"⟩, ?_⟩)
      (.inr (.inr (.inl hk)))
    unfold priceImpact checkedAdd checkedMul
    rw [spotPrice_eq hzero, if_pos (not_le.mp hsum), if_neg (not_lt.mpr hk), pure_bind, okOr_some,
      pure_bind, okOr_none, throw_bind]
  obtain ⟨delta, hdelta, himpact⟩ := priceImpact_eq hzero (not_le.mp hsum) (not_le.mp hk)
  unfold ImpactBounded
  rw [himpact]
  simp only [hzero, hsum, hk, false_or]
  generalize hbefore : b % 2 ^ 64 * 2 ^ 64 / a = before at hdelta ⊢
  have hprice : a ≤ b % 2 ^ 64 * 2 ^ 64 ↔ before ≠ 0 := by
    rw [← hbefore, Nat.div_ne_zero_iff]
    exact ⟨fun h => ⟨hzero, h⟩, fun h => h.2⟩
  rw [hprice]
  by_cases hne : before = 0
  · have hnone : delta = 0 := by omega
    refine iff_of_false ?_ (not_not.mpr hne)
    rw [hne, hnone, checkedMul_of_lt (by decide), okOr_some, pure_bind, divide_zero_bind]
    intro h
    cases h with
    | inl hrefused =>
      obtain ⟨e, he⟩ := hrefused
      cases he
    | inr hbps =>
      obtain ⟨bps, hbps, _⟩ := hbps
      cases hbps
  · refine iff_of_true ?_ hne
    by_cases hscaled : delta * 10000 < 2 ^ 128
    · have hshare : delta * 10000 / before ≤ 10000 :=
        Nat.div_le_of_le_mul (Nat.mul_le_mul_right _ hdelta)
      refine .inr ⟨delta * 10000 / before % 2 ^ 32, ?_, (Nat.mod_le _ _).trans hshare⟩
      rw [checkedMul_of_lt hscaled, okOr_some, pure_bind, divide_of_ne hne, pure_bind]
    · refine .inl ⟨⟨"price_impact: delta * 10_000 overflows"⟩, ?_⟩
      unfold checkedMul
      rw [if_neg hscaled, okOr_none, throw_bind]

end Impact

/-- When the helpers are exact or refuse: no bit of the reserve shifted out, and a price before
that is not zero unless a sum is refused first. -/
theorem constantProduct_iff (reserveA reserveB amountIn : BitVec 128) :
    SpotExact reserveA.toNat reserveB.toNat ∧
        ImpactBounded reserveA.toNat reserveB.toNat amountIn.toNat ↔
      reserveA.toNat = 0 ∨ reserveB.toNat < 2 ^ 64 ∧
        (2 ^ 128 ≤ reserveA.toNat + amountIn.toNat ∨ 2 ^ 128 ≤ reserveA.toNat * reserveB.toNat ∨
          reserveA.toNat ≤ reserveB.toNat * 2 ^ 64) := by
  rw [spotExact_iff reserveA.isLt, impactBounded_iff]
  by_cases hsmall : reserveB.toNat < 2 ^ 64
  · rw [Nat.mod_eq_of_lt hsmall]
    simp only [hsmall, or_true, true_and]
  · simp only [hsmall, or_false, false_and]
    exact ⟨fun h => h.1, fun h => ⟨h, .inl h⟩⟩

/-- A reserve shifted out whole: a price of zero, and then a division by it. -/
theorem shiftedOut : ¬ SpotExact (1 : BitVec 128).toNat (18446744073709551616 : BitVec 128).toNat ∧
    ¬ ImpactBounded (1 : BitVec 128).toNat (18446744073709551616 : BitVec 128).toNat
      (0 : BitVec 128).toNat := by
  rw [spotExact_iff (by decide), impactBounded_iff]
  decide

end YogSothoth.Amm
