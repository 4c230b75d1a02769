import YogSothoth.Amm.FeeScheduler

namespace YogSothoth.Amm

open Resolver (BaseFeeKind FeeSchedulerParams)

section Pow

variable {base n : Nat}

theorem and_two_pow_pos (n i : Nat) : 0 < n &&& 2 ^ i ↔ n / 2 ^ i % 2 = 1 := by
  rw [Nat.and_two_pow, Nat.testBit_eq_decide_div_mod_eq]
  by_cases h : n / 2 ^ i % 2 = 1
  · simp [h]
  · simp [h]

theorem squares_le_base {s x : Nat} (hx : x ≤ s) (i : Nat) : squares s x i ≤ x := by
  induction i with
  | zero => exact le_refl x
  | succ i ih => exact (mul_div_le (squares_le hx i)).trans ih

/-- The loop multiplies without overflow, to the power of all the exponent's bits. -/
theorem powLoop_eq (hbase : base < ONE_Q64) {rounds i : Nat} (hi : i < 19) (hrounds : 19 ≤ rounds + i) :
    powLoop n rounds (2 ^ i) (squares ONE_Q64 base i) (powering ONE_Q64 base n i) =
      some (powering ONE_Q64 base n 19) := by
  induction rounds generalizing i with
  | zero => omega
  | succ rounds ih =>
    have hsquare : squares ONE_Q64 base i < 2 ^ 64 := (squares_le_base hbase.le i).trans_lt hbase
    have hpower : powering ONE_Q64 base n i ≤ 2 ^ 64 := powering_le hbase.le n i
    have hmul : powering ONE_Q64 base n i * squares ONE_Q64 base i < 2 ^ 128 :=
      (Nat.mul_le_mul_right _ hpower).trans_lt (by omega)
    have hmul' : squares ONE_Q64 base i * squares ONE_Q64 base i < 2 ^ 128 :=
      (Nat.mul_le_mul_right _ hsquare.le).trans_lt (by omega)
    have hresult : powBit n (2 ^ i) (squares ONE_Q64 base i) (powering ONE_Q64 base n i) =
        some (powering ONE_Q64 base n (i + 1)) := by
      unfold powBit
      rw [powering_add_one, checkedMul_of_lt hmul]
      by_cases hbit : n / 2 ^ i % 2 = 1
      · rw [if_pos ((and_two_pow_pos n i).mpr hbit), if_pos hbit]
        rfl
      · rw [if_neg (fun h => hbit ((and_two_pow_pos n i).mp h)), if_neg hbit]
    unfold powLoop
    rw [hresult, checkedMul_of_lt hmul', ← Nat.pow_succ]
    change (if MAX_EXPONENTIAL ≤ 2 ^ (i + 1) then some (powering ONE_Q64 base n (i + 1))
      else powLoop n rounds (2 ^ (i + 1)) (squares ONE_Q64 base (i + 1))
        (powering ONE_Q64 base n (i + 1))) = _
    by_cases hlast : i = 18
    · rw [hlast]
      rfl
    · have hbits : 2 ^ (i + 1) < MAX_EXPONENTIAL := by
        have hlt : 2 ^ (i + 1) < 2 ^ 19 := Nat.pow_lt_pow_right (by decide) (by omega)
        exact hlt
      rw [if_neg (not_le.mpr hbits)]
      exact ih (by omega) (by omega)

/-- The power of a period is the truncated one, refused at zero. -/
theorem pow_eq (hbase : base < ONE_Q64) (hn : n < 2 ^ 16) :
    powLoop n 32 1 base ONE_Q64 = some (powering ONE_Q64 base n 19) ∧
      pow base n = if powering ONE_Q64 base n 19 = 0 then none
        else some (powering ONE_Q64 base n 19) := by
  have hloop : powLoop n 32 1 base ONE_Q64 = some (powering ONE_Q64 base n 19) :=
    powLoop_eq hbase (by decide : 0 < 19) (by decide : 19 ≤ 32 + 0)
  refine ⟨hloop, ?_⟩
  unfold pow
  rw [if_neg (by omega)]
  by_cases hzero : n = 0
  · rw [hzero]
    rfl
  · have hsmall : ¬ MAX_EXPONENTIAL ≤ (n : Int).natAbs := by
      rw [Int.natAbs_natCast]
      exact not_le.mpr (hn.trans (by decide))
    have hsign : decide ((n : Int) < 0) = false := decide_eq_false (by omega)
    rw [if_neg (by omega)]
    simp only [Int.natAbs_natCast] at hsmall ⊢
    rw [if_neg hsmall, if_neg (not_le.mpr hbase), hsign]
    simp only [Option.bind_eq_bind, Option.bind_some, hloop, Bool.false_eq_true, if_false]

end Pow

section Period

variable {cliff reduction : UInt64} {n : Nat}

theorem keptPerPeriod_lt (hone : 1 ≤ reduction.toNat) : keptPerPeriod reduction < ONE_Q64 := by
  unfold keptPerPeriod ONE_Q64 MAX_BASIS_POINT
  omega

theorem feeInPeriod_zero (h : reduction.toNat = 0) : feeInPeriod cliff reduction n =
    some cliff.toNat := by
  have hzero : reduction = 0 := UInt64.toNat_inj.mp h
  unfold feeInPeriod
  rw [if_pos hzero]

theorem ne_zero_of_pos (hone : 1 ≤ reduction.toNat) : reduction ≠ 0 := by
  intro hzero
  rw [hzero] at hone
  exact absurd hone (by decide)

/-- The base of a period, when the reduction is one at most. -/
theorem checkedBase (hmax : reduction.toNat ≤ MAX_BASIS_POINT) :
    reduction.toNat * 2 ^ 64 / MAX_BASIS_POINT ≤ ONE_Q64 := by
  unfold MAX_BASIS_POINT at hmax ⊢
  unfold ONE_Q64
  omega

theorem scaleOffset_eq : SCALE_OFFSET = 64 := rfl

theorem feeInPeriod_bind (hne : reduction ≠ 0) : feeInPeriod cliff reduction n =
    (checkedShl 128 reduction.toNat SCALE_OFFSET).bind (fun shifted =>
      (checkedDiv shifted MAX_BASIS_POINT).bind (fun bps => (checkedSub ONE_Q64 bps).bind
        (fun base => (pow base n).bind (fun result =>
          (checkedMul 128 result cliff.toNat).bind (fun product =>
            tryFrom 64 (product / 2 ^ SCALE_OFFSET)))))) := by
  unfold feeInPeriod
  rw [if_neg hne]
  rfl

theorem feeInPeriod_base (hone : 1 ≤ reduction.toNat) : feeInPeriod cliff reduction n =
    (checkedSub ONE_Q64 (reduction.toNat * 2 ^ 64 / MAX_BASIS_POINT)).bind (fun base =>
      (pow base n).bind (fun result => (checkedMul 128 result cliff.toNat).bind (fun product =>
        tryFrom 64 (product / 2 ^ 64)))) := by
  have hlt := reduction.toNat_lt
  have hshift : reduction.toNat * 2 ^ 64 < 2 ^ 128 := by omega
  have hbits : SCALE_OFFSET < 128 := by decide
  have hdivisor : MAX_BASIS_POINT ≠ 0 := by decide
  rw [← scaleOffset_eq] at hshift ⊢
  rw [feeInPeriod_bind (ne_zero_of_pos hone), checkedShl_of_lt hbits hshift, Option.bind_some,
    checkedDiv_of_ne hdivisor, Option.bind_some, scaleOffset_eq]

theorem feeInPeriod_past (h : MAX_BASIS_POINT < reduction.toNat) :
    feeInPeriod cliff reduction n = none := by
  have hbps : ONE_Q64 < reduction.toNat * 2 ^ 64 / MAX_BASIS_POINT := by
    unfold MAX_BASIS_POINT at h ⊢
    unfold ONE_Q64
    omega
  have hone : 1 ≤ reduction.toNat := Nat.one_le_of_lt h
  rw [feeInPeriod_base hone, checkedSub_of_lt hbps]
  rfl

/-- The fee of a period: the truncated power of the cliff, with no product past a `u128`. -/
theorem feeInPeriod_eq (hone : 1 ≤ reduction.toNat) (hmax : reduction.toNat ≤ MAX_BASIS_POINT)
    (hn : n < 2 ^ 16) :
    powering ONE_Q64 (keptPerPeriod reduction) n 19 * cliff.toNat < 2 ^ 128 ∧
      feeInPeriod cliff reduction n =
        if powering ONE_Q64 (keptPerPeriod reduction) n 19 = 0 then none
        else some (powering ONE_Q64 (keptPerPeriod reduction) n 19 * cliff.toNat / 2 ^ 64) := by
  have hcliff := cliff.toNat_lt
  have hkept := keptPerPeriod_lt hone
  have hpower : powering ONE_Q64 (keptPerPeriod reduction) n 19 ≤ 2 ^ 64 :=
    powering_le hkept.le n 19
  have hproduct : powering ONE_Q64 (keptPerPeriod reduction) n 19 * cliff.toNat < 2 ^ 128 :=
    (Nat.mul_le_mul_right _ hpower).trans_lt (by omega)
  have hfee : powering ONE_Q64 (keptPerPeriod reduction) n 19 * cliff.toNat / 2 ^ 64 < 2 ^ 64 := by
    omega
  refine ⟨hproduct, ?_⟩
  rw [feeInPeriod_base hone, checkedSub_of_le (checkedBase hmax), Option.bind_some]
  change (pow (keptPerPeriod reduction) n).bind _ = _
  rw [(pow_eq hkept hn).2]
  split_ifs with hzero
  · rfl
  · rw [Option.bind_some, checkedMul_of_lt hproduct, Option.bind_some]
    exact tryFrom_of_lt hfee

/-- A fee does not grow with its period, and is the cliff at most. -/
theorem feeInPeriod_antitone {m fee : Nat} (hnm : n ≤ m) (hm : m < 2 ^ 16)
    (h : feeInPeriod cliff reduction m = some fee) :
    ∃ earlier, feeInPeriod cliff reduction n = some earlier ∧ fee ≤ earlier ∧
      earlier ≤ cliff.toNat := by
  by_cases hzero : reduction.toNat = 0
  · rw [feeInPeriod_zero hzero] at h
    rw [← Option.some.inj h]
    exact ⟨_, feeInPeriod_zero hzero, le_refl _, le_refl _⟩
  · have hone : 1 ≤ reduction.toNat := Nat.one_le_iff_ne_zero.mpr hzero
    by_cases hmax : reduction.toNat ≤ MAX_BASIS_POINT
    · have hkept := (keptPerPeriod_lt hone).le
      have hpower : powering ONE_Q64 (keptPerPeriod reduction) n 19 ≤ 2 ^ 64 :=
        powering_le hkept n 19
      have hanti : powering ONE_Q64 (keptPerPeriod reduction) m 19 ≤
          powering ONE_Q64 (keptPerPeriod reduction) n 19 :=
        powering_antitone (by decide) hkept hnm (by omega)
      rw [(feeInPeriod_eq hone hmax hm).2] at h
      split_ifs at h with hnone
      refine ⟨_, (feeInPeriod_eq hone hmax (by omega)).2.trans (if_neg (by omega)), ?_, ?_⟩
      · rw [← Option.some.inj h]
        exact Nat.div_le_div_right (Nat.mul_le_mul_right _ hanti)
      · exact mul_div_le hpower
    · rw [feeInPeriod_past (not_le.mp hmax)] at h
      cases h

end Period

section Elapsed

variable {params : FeeSchedulerParams} {point : UInt64}

theorem elapsedPeriods_eq (hfrequency : params.periodFrequency ≠ ZERO_FREQUENCY_STAYS_AT_CLIFF)
    (hpoint : params.activationPoint ≤ point) : FeeSchedulerParams.elapsedPeriods params point =
      min ((point.toNat - params.activationPoint.toNat) / params.periodFrequency.toNat)
        params.numberOfPeriod.toNat := by
  have hperiods := params.numberOfPeriod.toNat_lt
  have helapsed : ((point - params.activationPoint) / params.periodFrequency).toNat =
      (point.toNat - params.activationPoint.toNat) / params.periodFrequency.toNat := by
    rw [UInt64.toNat_div, UInt64.toNat_sub_of_le _ _ hpoint]
  unfold FeeSchedulerParams.elapsedPeriods
  rw [if_neg hfrequency, if_neg (UInt64.not_lt.mpr hpoint)]
  simp only [helapsed]
  unfold tryFrom
  split_ifs with hsmall
  · rfl
  · change min (2 ^ 16 - 1) _ = _
    omega

theorem elapsedPeriods_le (params : FeeSchedulerParams) (point : UInt64) :
    FeeSchedulerParams.elapsedPeriods params point ≤ params.numberOfPeriod.toNat := by
  unfold FeeSchedulerParams.elapsedPeriods
  split_ifs
  · exact Nat.zero_le _
  · exact le_refl _
  · exact min_le_right _ _

/-- Before activation and once all the periods are past, the fee is that of the last one. -/
theorem elapsedPeriods_end (hfrequency : params.periodFrequency ≠ ZERO_FREQUENCY_STAYS_AT_CLIFF)
    (h : point < params.activationPoint ∨ params.activationPoint.toNat +
      params.numberOfPeriod.toNat * params.periodFrequency.toNat ≤ point.toNat) :
    FeeSchedulerParams.elapsedPeriods params point = params.numberOfPeriod.toNat := by
  by_cases hbefore : point < params.activationPoint
  · unfold FeeSchedulerParams.elapsedPeriods
    rw [if_neg hfrequency, if_pos hbefore]
  · have hpast := h.resolve_left hbefore
    have hpos : 0 < params.periodFrequency.toNat := by
      apply Nat.pos_of_ne_zero
      intro hzero
      exact hfrequency (UInt64.toNat_inj.mp hzero)
    rw [elapsedPeriods_eq hfrequency (UInt64.not_lt.mp hbefore), min_eq_right]
    rw [Nat.le_div_iff_mul_le hpos]
    omega

theorem elapsedPeriods_mono (hfrequency : params.periodFrequency ≠ ZERO_FREQUENCY_STAYS_AT_CLIFF)
    {p q : UInt64} (hp : params.activationPoint ≤ p) (hpq : p ≤ q) :
    FeeSchedulerParams.elapsedPeriods params p ≤ FeeSchedulerParams.elapsedPeriods params q := by
  have hpq' : p.toNat ≤ q.toNat := hpq
  rw [elapsedPeriods_eq hfrequency hp, elapsedPeriods_eq hfrequency (UInt64.le_trans hp hpq)]
  exact min_le_min_right _ (Nat.div_le_div_right (Nat.sub_le_sub_right hpq' _))

/-- A fee does not grow with its period, and is the cliff at most. -/
theorem feeOf_antitone (hkind : params.kind = .schedulerLinear ∨ params.kind = .schedulerExponential)
    {n m fee : Nat} (hnm : n ≤ m) (hm : m < 2 ^ 16)
    (h : FeeSchedulerParams.feeOf params m = some fee) :
    ∃ earlier, FeeSchedulerParams.feeOf params n = some earlier ∧ fee ≤ earlier ∧
      earlier ≤ params.cliffFeeNumerator.toNat := by
  unfold FeeSchedulerParams.feeOf at h ⊢
  obtain hkind | hkind := hkind
  · rw [hkind] at h ⊢
    obtain ⟨drop, hdrop, hfee⟩ := Option.bind_eq_some_iff.mp h
    obtain ⟨hlt, hdrop⟩ := checkedMul_eq_some.mp hdrop
    obtain ⟨hle, hfee⟩ := checkedSub_eq_some.mp hfee
    have hmul : n * params.reductionFactor.toNat ≤ m * params.reductionFactor.toNat :=
      Nat.mul_le_mul_right _ hnm
    refine ⟨params.cliffFeeNumerator.toNat - n * params.reductionFactor.toNat, ?_, by omega,
      Nat.sub_le _ _⟩
    simp only [Option.bind_eq_bind, checkedMul_of_lt (hmul.trans_lt hlt), Option.bind_some]
    exact checkedSub_of_le (by omega)
  · rw [hkind] at h ⊢
    exact feeInPeriod_antitone hnm hm h

end Elapsed

end YogSothoth.Amm
