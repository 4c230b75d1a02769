import Mathlib.Algebra.Order.Floor.Semifield
import Mathlib.Data.Nat.Log
import Mathlib.Data.Rat.Floor
import YogSothoth.Core.Decimals
import YogSothoth.Framework.Checked

namespace YogSothoth.Amm

theorem u64Bits (n : UInt64) : (n.toNat : Int).natAbs < 2 ^ 96 := by
  have hn := n.toNat_lt
  rw [Int.natAbs_natCast]
  omega

/-- `Decimal::from` of an unsigned integer. -/
def decimalFrom (n : UInt64) : Decimal := ⟨n.toNat, 0, u64Bits n, wholeDigits⟩

/-- Products and quotients of `Decimal`s, `none` for a panic. Of whole numbers the product is exact,
refused past the mantissa; by a power of ten the quotient is exact. -/
structure DecimalOps where
  mul : Decimal → Decimal → Option Decimal
  div : Decimal → Decimal → Option Decimal
  mul_whole : ∀ {a b c : Decimal}, a.scale = 0 → b.scale = 0 →
    (mul a b = some c ↔ c.scale = 0 ∧ c.mantissa = a.mantissa * b.mantissa)
  div_ten_pow : ∀ {a b : Decimal} {k : Nat}, a.scale = 0 → b.scale = 0 → b.mantissa = 10 ^ k →
    k ≤ 28 → ∃ c, div a b = some c ∧ c.value = a.value / b.value

/-- The chain's cap, in basis points. -/
def MAX_FEE_BPS : Decimal := decimalFrom 1000

def VARIABLE_FEE_SCALE : Nat := 100000000000

def VARIABLE_FEE_SATURATION_NUMERATOR : Nat := 100000000 * VARIABLE_FEE_SCALE

def decimalMin (a b : Decimal) : Decimal := if b.value < a.value then b else a

section Functions

variable (ar : DecimalOps)

/-- The loop of `base_fee_bps`, its early return, and what follows it. -/
def baseFeeLoop (ceiling : Decimal) : Nat → Decimal → Option Decimal
  | 0, fee => (ar.div fee (decimalFrom 10000)).map (fun bps => decimalMin bps MAX_FEE_BPS)
  | rounds + 1, fee =>
    if ceiling.value ≤ fee.value then some MAX_FEE_BPS
    else (ar.mul fee (decimalFrom 10)).bind (baseFeeLoop ceiling rounds)

/-- The base fee of a pool, in basis points. -/
def baseFeeBps (baseFactor binStep : UInt16) (baseFeePowerFactor : UInt8) : Option Decimal := do
  let product ← checkedMul 32 baseFactor.toNat binStep.toNat
  let fee := decimalFrom (UInt64.ofNat product)
  let ceiling ← ar.mul MAX_FEE_BPS (decimalFrom 10000)
  baseFeeLoop ar ceiling baseFeePowerFactor.toNat fee

def divCeil (a b : Nat) : Nat := if 0 < a % b then a / b + 1 else a / b

/-- What follows the products of `max_variable_fee_bps`. -/
def variableFeeOf (numerator : Nat) : Option Decimal :=
  if VARIABLE_FEE_SATURATION_NUMERATOR < numerator then some MAX_FEE_BPS
  else do
    let rate1e9 := divCeil numerator VARIABLE_FEE_SCALE
    let rate ← tryFrom 64 rate1e9
    ar.div (decimalFrom (UInt64.ofNat rate)) (decimalFrom 100000)

/-- The most the variable fee adds, in basis points. -/
def maxVariableFeeBps (variableFeeControl maxVolatilityAccumulator : UInt32) (binStep : UInt16) :
    Option Decimal := do
  let accumulated ← checkedMul 128 maxVolatilityAccumulator.toNat binStep.toNat
  ((checkedMul 128 accumulated accumulated).bind
    (fun squared => checkedMul 128 squared variableFeeControl.toNat)).elim (some MAX_FEE_BPS)
    (variableFeeOf ar)

end Functions

section Whole

theorem decimalFrom_value (n : UInt64) : (decimalFrom n).value = n.toNat := by
  unfold decimalFrom Decimal.value
  rw [pow_zero, div_one]
  exact Int.cast_natCast n.toNat

theorem maxFeeBps_value : MAX_FEE_BPS.value = 1000 := by
  unfold MAX_FEE_BPS
  rw [decimalFrom_value]
  exact Nat.cast_ofNat

theorem value_whole {d : Decimal} {n : Nat} (hscale : d.scale = 0) (h : d.mantissa = n) :
    d.value = n := by
  unfold Decimal.value
  rw [hscale, h, pow_zero, div_one]
  exact Int.cast_natCast n

theorem decimalMin_value (a b : Decimal) : (decimalMin a b).value = min a.value b.value := by
  unfold decimalMin
  split_ifs with h
  · rw [min_eq_right h.le]
  · rw [min_eq_left (not_lt.mp h)]

theorem mul_whole_isSome (ar : DecimalOps) {a b : Decimal} {m n : Nat} (ha : a.scale = 0)
    (hb : b.scale = 0) (hm : a.mantissa = m) (hn : b.mantissa = n) (h : m * n < 2 ^ 96) :
    ∃ c, ar.mul a b = some c ∧ c.scale = 0 ∧ c.mantissa = (m * n : Nat) := by
  have hbits : ((m * n : Nat) : Int).natAbs < 2 ^ 96 := by
    rw [Int.natAbs_natCast]
    exact h
  refine ⟨⟨(m * n : Nat), 0, hbits, wholeDigits⟩, (ar.mul_whole ha hb).mpr ⟨rfl, ?_⟩, rfl, rfl⟩
  rw [hm, hn]
  exact Nat.cast_mul m n

end Whole

section BaseFee

variable (ar : DecimalOps) {ceiling : Decimal}

/-- The loop is the capped power: past the ceiling the power only grows further past the cap. -/
theorem baseFeeLoop_value (hceiling : ceiling.value = 10 ^ 7) (rounds : Nat) (fee : Decimal)
    {n : Nat} (hscale : fee.scale = 0) (hfee : fee.mantissa = n) (hn : n < 2 ^ 64) :
    ∃ bps, baseFeeLoop ar ceiling rounds fee = some bps ∧
      bps.value = min ((n : ℚ) * 10 ^ rounds / 10000) 1000 := by
  induction rounds generalizing fee n with
  | zero =>
    obtain ⟨c, hdiv, hvalue⟩ := ar.div_ten_pow (b := decimalFrom 10000) (k := 4) hscale rfl rfl
      (by decide)
    refine ⟨decimalMin c MAX_FEE_BPS, ?_, ?_⟩
    · unfold baseFeeLoop
      rw [hdiv]
      rfl
    · rw [decimalMin_value, maxFeeBps_value, hvalue, decimalFrom_value, value_whole hscale hfee,
        pow_zero, mul_one]
      rfl
  | succ rounds ih =>
    unfold baseFeeLoop
    rw [hceiling, value_whole hscale hfee]
    by_cases hpast : (10 : ℚ) ^ 7 ≤ n
    · have hgrown : (1 : ℚ) ≤ 10 ^ (rounds + 1) := one_le_pow₀ (by norm_num)
      have hproduct : (10 : ℚ) ^ 7 * 1 ≤ n * 10 ^ (rounds + 1) :=
        mul_le_mul hpast hgrown (by norm_num) (by positivity)
      refine ⟨MAX_FEE_BPS, if_pos hpast, ?_⟩
      rw [maxFeeBps_value, min_eq_right]
      rw [le_div_iff₀ (by norm_num)]
      linarith
    · have hsmall : n < 10 ^ 7 := by exact_mod_cast not_le.mp hpast
      obtain ⟨c, hmul, hc, hmantissa⟩ := mul_whole_isSome ar hscale
        (b := decimalFrom 10) (n := 10) rfl hfee rfl (by omega)
      obtain ⟨bps, hloop, hbps⟩ := ih c hc hmantissa (by omega)
      refine ⟨bps, ?_, ?_⟩
      · rw [if_neg hpast, hmul]
        exact hloop
      · rw [hbps, pow_succ]
        push_cast
        ring_nf

theorem baseFeeBps_value (baseFactor binStep : UInt16) (power : UInt8) :
    ∃ bps, baseFeeBps ar baseFactor binStep power = some bps ∧
      bps.value = min ((baseFactor.toNat : ℚ) * binStep.toNat * 10 ^ power.toNat / 10000) 1000 := by
  have hproduct : baseFactor.toNat * binStep.toNat < 2 ^ 32 :=
    mul_lt_two_pow baseFactor.toNat_lt binStep.toNat_lt
  have hbits : (UInt64.ofNat (baseFactor.toNat * binStep.toNat)).toNat =
      baseFactor.toNat * binStep.toNat := UInt64.toNat_ofNat_of_lt' (by unfold UInt64.size; omega)
  obtain ⟨ceiling, hmul, hscale, hmantissa⟩ := mul_whole_isSome ar (a := MAX_FEE_BPS)
    (b := decimalFrom 10000) (m := 1000) (n := 10000) rfl rfl rfl rfl (by decide)
  have hceiling : ceiling.value = 10 ^ 7 := by
    rw [value_whole hscale hmantissa]
    norm_num
  obtain ⟨bps, hloop, hbps⟩ := baseFeeLoop_value ar hceiling power.toNat
    (decimalFrom (UInt64.ofNat (baseFactor.toNat * binStep.toNat))) rfl
    (congrArg Nat.cast hbits) (by omega)
  refine ⟨bps, ?_, ?_⟩
  · unfold baseFeeBps
    rw [checkedMul_of_lt hproduct, hmul]
    exact hloop
  · rw [hbps]
    push_cast
    rfl

end BaseFee

section VariableFee

variable {a b k : Nat}

theorem divCeil_bounds (hb : 0 < b) : a ≤ divCeil a b * b ∧ divCeil a b * b < a + b := by
  have hsplit := Nat.div_add_mod a b
  have hmod := Nat.mod_lt a hb
  rw [Nat.mul_comm] at hsplit
  unfold divCeil
  split_ifs with h
  · rw [Nat.add_mul, Nat.one_mul]
    omega
  · omega

/-- The quotient rounded up. -/
theorem divCeil_eq (hb : 0 < b) : (divCeil a b : ℚ) = ⌈(a : ℚ) / b⌉ := by
  have hb' : (0 : ℚ) < b := by exact_mod_cast hb
  obtain ⟨hlow, hhigh⟩ := divCeil_bounds (a := a) hb
  have hlow' : (a : ℚ) ≤ divCeil a b * b := by exact_mod_cast hlow
  have hhigh' : (divCeil a b : ℚ) * b < a + b := by exact_mod_cast hhigh
  have hceil : ⌈(a : ℚ) / b⌉ = (divCeil a b : ℤ) := by
    rw [Int.ceil_eq_iff, Int.cast_natCast]
    constructor
    · rw [lt_div_iff₀ hb']
      linarith
    · rw [div_le_iff₀ hb']
      exact hlow'
  rw [hceil, Int.cast_natCast]

theorem divCeil_le (hb : 0 < b) (h : a ≤ k * b) : divCeil a b ≤ k := by
  have hlt : divCeil a b * b < (k + 1) * b := by
    rw [Nat.add_mul, Nat.one_mul]
    exact (divCeil_bounds hb).2.trans_le (by omega)
  exact Nat.le_of_lt_succ (Nat.lt_of_mul_lt_mul_right hlt)

theorem le_divCeil (hb : 0 < b) (h : k * b ≤ a) : k ≤ divCeil a b :=
  Nat.le_of_mul_le_mul_right (h.trans (divCeil_bounds hb).1) hb

variable (ar : DecimalOps)

theorem variableRate_isSome (h : a ≤ VARIABLE_FEE_SATURATION_NUMERATOR) :
    tryFrom 64 (divCeil a VARIABLE_FEE_SCALE) = some (divCeil a VARIABLE_FEE_SCALE) := by
  have hrate := divCeil_le (by decide : 0 < VARIABLE_FEE_SCALE) h
  exact tryFrom_of_lt (hrate.trans_lt (by decide))

/-- A numerator past the saturation has a fee past the cap, and only then. -/
theorem variableFeeOf_value (numerator : Nat) : ∃ bps, variableFeeOf ar numerator = some bps ∧
    bps.value = min ((⌈(numerator : ℚ) / 10 ^ 11⌉ : ℚ) / 10 ^ 5) 1000 := by
  have hscale : 0 < VARIABLE_FEE_SCALE := by decide
  have hceil : (⌈(numerator : ℚ) / 10 ^ 11⌉ : ℚ) = divCeil numerator VARIABLE_FEE_SCALE := by
    rw [divCeil_eq hscale]
    norm_num [VARIABLE_FEE_SCALE]
  rw [hceil]
  unfold variableFeeOf
  split_ifs with hpast
  · have hrate : 100000000 ≤ divCeil numerator VARIABLE_FEE_SCALE := le_divCeil hscale hpast.le
    have hrate' : (100000000 : ℚ) ≤ divCeil numerator VARIABLE_FEE_SCALE := by exact_mod_cast hrate
    refine ⟨MAX_FEE_BPS, rfl, ?_⟩
    rw [maxFeeBps_value, min_eq_right]
    rw [le_div_iff₀ (by norm_num)]
    linarith
  · have hle := not_lt.mp hpast
    have hrate : divCeil numerator VARIABLE_FEE_SCALE ≤ 100000000 := divCeil_le hscale hle
    have hrate' : (divCeil numerator VARIABLE_FEE_SCALE : ℚ) ≤ 100000000 := by exact_mod_cast hrate
    have hbits : (UInt64.ofNat (divCeil numerator VARIABLE_FEE_SCALE)).toNat =
        divCeil numerator VARIABLE_FEE_SCALE := UInt64.toNat_ofNat_of_lt' (by
          unfold UInt64.size; omega)
    obtain ⟨c, hdiv, hvalue⟩ := ar.div_ten_pow (k := 5)
      (a := decimalFrom (UInt64.ofNat (divCeil numerator VARIABLE_FEE_SCALE)))
      (b := decimalFrom 100000) rfl rfl rfl (by decide)
    refine ⟨c, ?_, ?_⟩
    · simp only [variableRate_isSome hle]
      exact hdiv
    · rw [hvalue, decimalFrom_value, decimalFrom_value, hbits, min_eq_left]
      · norm_num [UInt64.toNat]
      · rw [div_le_iff₀ (by norm_num)]
        linarith

/-- The products of the variable fee fit a `u128`. -/
theorem variableFee_products (control accumulator : UInt32) (binStep : UInt16) :
    (accumulator.toNat * binStep.toNat) ^ 2 < 2 ^ 96 ∧
      (accumulator.toNat * binStep.toNat) ^ 2 * control.toNat < 2 ^ 128 := by
  have haccumulated : accumulator.toNat * binStep.toNat < 2 ^ 48 :=
    mul_lt_two_pow accumulator.toNat_lt binStep.toNat_lt
  have hsquared : (accumulator.toNat * binStep.toNat) ^ 2 < 2 ^ 96 := by
    rw [Nat.pow_two]
    exact mul_lt_two_pow haccumulated haccumulated
  exact ⟨hsquared, mul_lt_two_pow hsquared control.toNat_lt⟩

theorem maxVariableFeeBps_value (control accumulator : UInt32) (binStep : UInt16) :
    ∃ bps, maxVariableFeeBps ar control accumulator binStep = some bps ∧ bps.value =
      min ((⌈(control.toNat : ℚ) * (accumulator.toNat * binStep.toNat) ^ 2 / 10 ^ 11⌉ : ℚ) /
        10 ^ 5) 1000 := by
  have haccumulated : accumulator.toNat * binStep.toNat < 2 ^ 48 :=
    mul_lt_two_pow accumulator.toNat_lt binStep.toNat_lt
  obtain ⟨hsquared, hnumerator⟩ := variableFee_products control accumulator binStep
  obtain ⟨bps, hfee, hvalue⟩ := variableFeeOf_value ar
    ((accumulator.toNat * binStep.toNat) ^ 2 * control.toNat)
  have hexact : (((accumulator.toNat * binStep.toNat) ^ 2 * control.toNat : Nat) : ℚ) =
      control.toNat * (accumulator.toNat * binStep.toNat) ^ 2 := by
    push_cast
    ring
  rw [hexact] at hvalue
  refine ⟨bps, ?_, hvalue⟩
  rw [Nat.pow_two] at hsquared hnumerator hfee
  unfold maxVariableFeeBps
  rw [checkedMul_of_lt (haccumulated.trans (by decide))]
  simp only [Option.bind_eq_bind, Option.bind_some]
  rw [checkedMul_of_lt (hsquared.trans (by decide)), Option.bind_some, checkedMul_of_lt hnumerator]
  exact hfee

end VariableFee

/-- The fee functions are their formulas under the cap, at every width of their inputs. -/
theorem fees_capped (ar : DecimalOps) :
    (∀ (baseFactor binStep : UInt16) (power : UInt8),
      baseFactor.toNat * binStep.toNat < 2 ^ 32 ∧
      ∃ bps, baseFeeBps ar baseFactor binStep power = some bps ∧ bps.value =
        min ((baseFactor.toNat : ℚ) * binStep.toNat * 10 ^ power.toNat / 10000) 1000) ∧
    (∀ (control accumulator : UInt32) (binStep : UInt16),
      (accumulator.toNat * binStep.toNat) ^ 2 < 2 ^ 128 ∧
      (accumulator.toNat * binStep.toNat) ^ 2 * control.toNat < 2 ^ 128 ∧
      ((accumulator.toNat * binStep.toNat) ^ 2 * control.toNat ≤
          VARIABLE_FEE_SATURATION_NUMERATOR →
        (tryFrom 64 (divCeil ((accumulator.toNat * binStep.toNat) ^ 2 * control.toNat)
          VARIABLE_FEE_SCALE)).isSome) ∧
      ∃ bps, maxVariableFeeBps ar control accumulator binStep = some bps ∧ bps.value =
        min ((⌈(control.toNat : ℚ) * (accumulator.toNat * binStep.toNat) ^ 2 / 10 ^ 11⌉ : ℚ) /
          10 ^ 5) 1000) := by
  constructor
  · intro baseFactor binStep power
    exact ⟨mul_lt_two_pow baseFactor.toNat_lt binStep.toNat_lt,
      baseFeeBps_value ar baseFactor binStep power⟩
  · intro control accumulator binStep
    obtain ⟨hsquared, hnumerator⟩ := variableFee_products control accumulator binStep
    refine ⟨hsquared.trans (by decide), hnumerator, ?_,
      maxVariableFeeBps_value ar control accumulator binStep⟩
    intro hle
    rw [variableRate_isSome hle]
    rfl

section Exact

def exactMul (a b : Decimal) : Option Decimal :=
  if hbits : (a.mantissa * b.mantissa).natAbs < 2 ^ 96 then
    if hdigits : a.scale + b.scale ≤ 28 then
      some ⟨a.mantissa * b.mantissa, a.scale + b.scale, hbits, hdigits⟩
    else none
  else none

theorem exactMul_whole {a b c : Decimal} (ha : a.scale = 0) (hb : b.scale = 0) :
    exactMul a b = some c ↔ c.scale = 0 ∧ c.mantissa = a.mantissa * b.mantissa := by
  obtain ⟨mantissa, scale, bits, digits⟩ := c
  unfold exactMul
  constructor
  · intro h
    split_ifs at h
    obtain ⟨hmantissa, hscale⟩ := Decimal.mk.inj (Option.some.inj h)
    refine ⟨hscale.symm.trans ?_, hmantissa.symm⟩
    rw [ha, hb]
  · intro h
    obtain ⟨hscale, hmantissa⟩ := h
    dsimp only at hscale hmantissa
    subst hscale hmantissa
    simp only [ha, hb, bits, dif_pos, digits]

def exactDiv (a b : Decimal) : Option Decimal :=
  if h : Nat.log 10 b.mantissa.natAbs ≤ 28 ∧ b.mantissa = 10 ^ Nat.log 10 b.mantissa.natAbs then
    some ⟨a.mantissa, Nat.log 10 b.mantissa.natAbs, a.bits, h.1⟩
  else none

theorem exactDiv_ten_pow {a b : Decimal} {k : Nat} (ha : a.scale = 0) (hb : b.scale = 0)
    (hpow : b.mantissa = 10 ^ k) (hk : k ≤ 28) :
    ∃ c, exactDiv a b = some c ∧ c.value = a.value / b.value := by
  have hlog : Nat.log 10 b.mantissa.natAbs = k := by
    rw [hpow, Int.natAbs_pow]
    exact Nat.log_pow (by decide) k
  have hexact : b.mantissa = 10 ^ Nat.log 10 b.mantissa.natAbs := by
    rw [hlog]
    exact hpow
  refine ⟨⟨a.mantissa, k, a.bits, hk⟩, ?_, ?_⟩
  · unfold exactDiv
    rw [dif_pos ⟨hlog.le.trans hk, hexact⟩]
    simp only [hlog]
  · unfold Decimal.value
    rw [ha, hb, hpow]
    norm_num

def exactOps : DecimalOps where
  mul := exactMul
  div := exactDiv
  mul_whole := exactMul_whole
  div_ten_pow := exactDiv_ten_pow

/-- A power that multiplies the fee by ten, one past the cap, and a variable fee under it. -/
theorem poweredFees_capped :
    (∃ bps, baseFeeBps exactOps 10000 1 1 = some bps ∧ bps.value = 10) ∧
    (∃ bps, baseFeeBps exactOps 10000 1 255 = some bps ∧ bps.value = 1000) ∧
    ∃ bps, maxVariableFeeBps exactOps 7500 150000 10 = some bps ∧ bps.value = 168750 / 10 ^ 5 := by
  obtain ⟨hbase, hvariable⟩ := fees_capped exactOps
  obtain ⟨ten, hten, hvalueTen⟩ := (hbase 10000 1 1).2
  obtain ⟨most, hmost, hvalueMost⟩ := (hbase 10000 1 255).2
  obtain ⟨fee, hfee, hvalueFee⟩ := (hvariable 7500 150000 10).2.2.2
  refine ⟨⟨ten, hten, ?_⟩, ⟨most, hmost, ?_⟩, ⟨fee, hfee, ?_⟩⟩
  · rw [hvalueTen]
    change min (((10000 : Nat) : ℚ) * (1 : Nat) * 10 ^ 1 / 10000) 1000 = 10
    norm_num
  · rw [hvalueMost]
    change min (((10000 : Nat) : ℚ) * (1 : Nat) * 10 ^ 255 / 10000) 1000 = 1000
    norm_num
  · rw [hvalueFee]
    have hrate : ((7500 : UInt32).toNat : ℚ) *
        (((150000 : UInt32).toNat : ℚ) * (10 : UInt16).toNat) ^ 2 / 10 ^ 11 = (168750 : Int) := by
      change ((7500 : Nat) : ℚ) * (((150000 : Nat) : ℚ) * (10 : Nat)) ^ 2 / 10 ^ 11 = _
      norm_num
    rw [hrate, Int.ceil_intCast]
    norm_num

end Exact

end YogSothoth.Amm
