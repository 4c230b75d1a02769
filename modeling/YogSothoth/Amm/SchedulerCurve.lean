import YogSothoth.Amm.FeeCurve

namespace YogSothoth.Amm

open Resolver (BaseFeeKind FeeSchedulerParams)

variable {params : FeeSchedulerParams}

theorem baseFee_still (h : params.periodFrequency = 0) (point : UInt64) :
    baseFeeNumeratorAt params point = some params.cliffFeeNumerator.toNat := if_pos h

theorem baseFee_moving (h : params.periodFrequency ≠ 0) (point : UInt64) :
    baseFeeNumeratorAt params point =
      FeeSchedulerParams.feeOf params (FeeSchedulerParams.elapsedPeriods params point) := if_neg h

theorem elapsedPeriods_lt (params : FeeSchedulerParams) (point : UInt64) :
    FeeSchedulerParams.elapsedPeriods params point < 2 ^ 16 :=
  (elapsedPeriods_le params point).trans_lt params.numberOfPeriod.toNat_lt

/-- From activation on, the fee does not grow. -/
theorem baseFee_antitone
    (hkind : params.kind = .schedulerLinear ∨ params.kind = .schedulerExponential)
    {p q : UInt64} {f : Nat} (hp : params.activationPoint ≤ p) (hpq : p ≤ q)
    (h : baseFeeNumeratorAt params q = some f) :
    ∃ g, baseFeeNumeratorAt params p = some g ∧ f ≤ g ∧ g ≤ params.cliffFeeNumerator.toNat := by
  by_cases hfrequency : params.periodFrequency = 0
  · rw [baseFee_still hfrequency] at h
    rw [← Option.some.inj h]
    exact ⟨_, baseFee_still hfrequency p, le_refl _, le_refl _⟩
  · rw [baseFee_moving hfrequency] at h ⊢
    exact feeOf_antitone hkind (elapsedPeriods_mono hfrequency hp hpq) (elapsedPeriods_lt _ _) h

section Exponential

variable {cliff reduction : UInt64} {n : Nat}

/-- The power of a period, under the exact one by a unit a period at most. -/
theorem power_bounds (hone : 1 ≤ reduction.toNat) (hn : n < 2 ^ 16) :
    (keptPerPeriod reduction : ℚ) ^ n / 2 ^ (64 * ((n : ℤ) - 1)) - n ≤
        powering ONE_Q64 (keptPerPeriod reduction) n 19 ∧
      (powering ONE_Q64 (keptPerPeriod reduction) n 19 : ℚ) ≤
        (keptPerPeriod reduction : ℚ) ^ n / 2 ^ (64 * ((n : ℤ) - 1)) := by
  have hbounds := powering_bounds (by decide : 0 < ONE_Q64) (keptPerPeriod_lt hone).le n 19
  have hscale : (ONE_Q64 : ℚ) = 2 ^ 64 := by
    unfold ONE_Q64
    exact Nat.cast_ofNat
  have hexact : (ONE_Q64 : ℚ) * ((keptPerPeriod reduction : ℚ) / ONE_Q64) ^ n =
      (keptPerPeriod reduction : ℚ) ^ n / 2 ^ (64 * ((n : ℤ) - 1)) := by
    rw [hscale, zpow_mul, zpow_sub_one₀ (by positivity), zpow_natCast, div_pow]
    field_simp
  rw [Nat.mod_eq_of_lt (by omega), hexact] at hbounds
  exact hbounds

/-- With a cliff of `10 ^ 9` at most, a period's fee is the exact one or one less. -/
theorem feeInPeriod_exact {fee : Nat} (hone : 1 ≤ reduction.toNat)
    (hmax : reduction.toNat ≤ MAX_BASIS_POINT) (hn : n < 2 ^ 16) (hcliff : cliff.toNat ≤ 10 ^ 9)
    (h : feeInPeriod cliff reduction n = some fee) :
    fee = cliff.toNat * keptPerPeriod reduction ^ n / 2 ^ (64 * n) ∨
      fee + 1 = cliff.toNat * keptPerPeriod reduction ^ n / 2 ^ (64 * n) := by
  have hloss : n * cliff.toNat < ONE_Q64 := by
    have hmul : n * cliff.toNat ≤ 2 ^ 16 * 10 ^ 9 := Nat.mul_le_mul hn.le hcliff
    exact hmul.trans_lt (by decide)
  have hshare := powering_share (by decide) (keptPerPeriod_lt hone).le
    (by omega : n < 2 ^ 19) hloss
  rw [(feeInPeriod_eq hone hmax hn).2] at h
  split_ifs at h
  rw [← Option.some.inj h, Nat.pow_mul]
  exact hshare

/-- No fee of a period: a reduction past one, or a power truncated to zero. -/
theorem feeInPeriod_none (hn : n < 2 ^ 16) : feeInPeriod cliff reduction n = none ↔
    MAX_BASIS_POINT < reduction.toNat ∨ 1 ≤ reduction.toNat ∧
      powLoop n 32 1 (keptPerPeriod reduction) ONE_Q64 = some 0 := by
  by_cases hzero : reduction.toNat = 0
  · rw [feeInPeriod_zero hzero, hzero]
    simp
  · have hone : 1 ≤ reduction.toNat := Nat.one_le_iff_ne_zero.mpr hzero
    by_cases hmax : reduction.toNat ≤ MAX_BASIS_POINT
    · rw [(feeInPeriod_eq hone hmax hn).2, (pow_eq (keptPerPeriod_lt hone) hn).1]
      simp [not_lt.mpr hmax, hone]
    · simp [feeInPeriod_past (not_le.mp hmax), not_le.mp hmax]

end Exponential

/-- The fee scheduler follows its curve: it does not grow, it is that of the last period outside
the decay, and an exponential decay is the exact one to a unit, with no product past a `u128`. -/
theorem scheduler_follows_curve (params : FeeSchedulerParams)
    (hkind : params.kind = .schedulerLinear ∨ params.kind = .schedulerExponential) :
    (∀ (p q : UInt64) (f : Nat), params.activationPoint ≤ p → p ≤ q →
      baseFeeNumeratorAt params q = some f → ∃ g, baseFeeNumeratorAt params p = some g ∧
        f ≤ g ∧ g ≤ params.cliffFeeNumerator.toNat) ∧
    (0 < params.periodFrequency.toNat → ∀ p : UInt64, p < params.activationPoint ∨
      params.activationPoint.toNat +
        params.numberOfPeriod.toNat * params.periodFrequency.toNat ≤ p.toNat →
      baseFeeNumeratorAt params p =
        FeeSchedulerParams.feeOf params params.numberOfPeriod.toNat) ∧
    (params.periodFrequency.toNat = 0 → ∀ p : UInt64,
      baseFeeNumeratorAt params p = some params.cliffFeeNumerator.toNat) ∧
    (params.kind = .schedulerExponential → 1 ≤ params.reductionFactor.toNat →
      params.reductionFactor.toNat ≤ 10000 →
      params.reductionFactor.toNat * 2 ^ 64 < 2 ^ 128 ∧
      keptPerPeriod params.reductionFactor < ONE_Q64 ∧
      ∀ n : UInt16, ∃ power : Nat,
        powLoop n.toNat 32 1 (keptPerPeriod params.reductionFactor) ONE_Q64 = some power ∧
        pow (keptPerPeriod params.reductionFactor) n.toNat =
          (if power = 0 then none else some power) ∧
        (keptPerPeriod params.reductionFactor : ℚ) ^ n.toNat / 2 ^ (64 * ((n.toNat : ℤ) - 1)) -
          n.toNat ≤ power ∧
        (power : ℚ) ≤
          (keptPerPeriod params.reductionFactor : ℚ) ^ n.toNat / 2 ^ (64 * ((n.toNat : ℤ) - 1)) ∧
        power * params.cliffFeeNumerator.toNat < 2 ^ 128 ∧
        (params.cliffFeeNumerator.toNat ≤ 10 ^ 9 → ∀ fee : Nat,
          FeeSchedulerParams.feeOf params n.toNat = some fee →
          fee = params.cliffFeeNumerator.toNat *
              keptPerPeriod params.reductionFactor ^ n.toNat / 2 ^ (64 * n.toNat) ∨
            fee + 1 = params.cliffFeeNumerator.toNat *
              keptPerPeriod params.reductionFactor ^ n.toNat / 2 ^ (64 * n.toNat))) ∧
    (params.kind = .schedulerExponential → ∀ p : UInt64,
      baseFeeNumeratorAt params p = none ↔ 0 < params.periodFrequency.toNat ∧
        (10000 < params.reductionFactor.toNat ∨ 1 ≤ params.reductionFactor.toNat ∧
          powLoop (FeeSchedulerParams.elapsedPeriods params p) 32 1
            (keptPerPeriod params.reductionFactor) ONE_Q64 = some 0)) := by
  refine ⟨?_, ?_, ?_, ?_, ?_⟩
  · intro p q f hp hpq h
    exact baseFee_antitone hkind hp hpq h
  · intro hpos p h
    have hfrequency : params.periodFrequency ≠ 0 := by
      intro hzero
      rw [hzero] at hpos
      exact absurd hpos (by decide)
    rw [baseFee_moving hfrequency, elapsedPeriods_end hfrequency h]
  · intro hzero p
    exact baseFee_still (UInt64.toNat_inj.mp hzero) p
  · intro hexponential hone hmax
    have hkept := keptPerPeriod_lt hone
    refine ⟨by omega, hkept, ?_⟩
    intro n
    have hn := n.toNat_lt
    obtain ⟨hloop, hpow⟩ := pow_eq hkept hn
    obtain ⟨hlow, hhigh⟩ := power_bounds hone hn
    refine ⟨_, hloop, hpow, hlow, hhigh, ?_, ?_⟩
    · exact (feeInPeriod_eq hone hmax hn).1
    · intro hcliff fee hfee
      unfold FeeSchedulerParams.feeOf at hfee
      rw [hexponential] at hfee
      exact feeInPeriod_exact hone hmax hn hcliff hfee
  · intro hexponential p
    by_cases hzero : params.periodFrequency = 0
    · rw [baseFee_still hzero, hzero]
      simp
    · have hpos : 0 < params.periodFrequency.toNat := by
        apply Nat.pos_of_ne_zero
        intro h
        exact hzero (UInt64.toNat_inj.mp h)
      rw [baseFee_moving hzero]
      unfold FeeSchedulerParams.feeOf
      rw [hexponential]
      change feeInPeriod _ _ _ = none ↔ _
      rw [feeInPeriod_none (elapsedPeriods_lt params p)]
      simp only [hpos, true_and]
      rfl

/-- An exponential decay of a percent over two periods of ten slots. -/
def percentDecay : FeeSchedulerParams where
  cliffFeeNumerator := 500000000
  numberOfPeriod := 2
  periodFrequency := 10
  reductionFactor := 100
  activationPoint := 1000
  activationType := 0
  kind := .schedulerExponential

theorem percentDecay_floor :
    baseFeeNumeratorAt percentDecay 1020 = FeeSchedulerParams.feeOf percentDecay 2 :=
  (scheduler_follows_curve percentDecay (.inr rfl)).2.1 (by decide) 1020 (.inr (by decide))

end YogSothoth.Amm
