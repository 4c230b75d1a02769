import YogSothoth.Signals.Detectors

namespace YogSothoth.Signals

variable {texts : Texts} {ar : RustDecimal}

/-- A value a `Decimal` holds, where there is one. -/
def Reads (ar : RustDecimal) (value : Option ℚ) : Prop :=
  ∀ v, value = some v → ∃ d, ar.fromNumeric v = .ok d

def NonNegative (value : Option ℚ) : Prop := ∀ v, value = some v → 0 ≤ v

/-- The volumes of a pool and their sum fit a `Decimal`. -/
structure PoolSwapFlowRow.Fits (ar : RustDecimal) (row : PoolSwapFlowRow) : Prop where
  aToB : Reads ar row.volumeAToBUsd
  bToA : Reads ar row.volumeBToAUsd
  total : ∀ u v a b, row.volumeAToBUsd = some u → row.volumeBToAUsd = some v →
    ar.fromNumeric u = .ok a → ar.fromNumeric v = .ok b → (ar.add a b).isSome

/-- The amounts of a pool fit a `Decimal`, and its starting TVL where more is removed than added. -/
structure PoolLiquidityFlowRow.Fits (ar : RustDecimal) (row : PoolLiquidityFlowRow) : Prop where
  added : Reads ar row.addedUsd
  removed : Reads ar row.removedUsd
  tvl : Reads ar row.tvlUsd
  starting : ∀ u v w a r t n, row.addedUsd = some u → row.removedUsd = some v →
    row.tvlUsd = some w → ar.fromNumeric u = .ok a → ar.fromNumeric v = .ok r →
    ar.fromNumeric w = .ok t → ar.sub r a = some n → 0 < n.value → (ar.add t n).isSome

section Columns

variable {value : Option ℚ} {field : String} {read : Option Decimal}

theorem convertOptional_ok :
    convertOptional value field ar.convertBigdecimalToDecimal = .ok read ↔
      (value = none ∧ read = none) ∨
        ∃ v d, value = some v ∧ ar.fromNumeric v = .ok d ∧ read = some d := by
  cases value with
  | none =>
    constructor
    · intro h
      exact .inl ⟨rfl, (Except.ok.inj h).symm⟩
    · intro h
      cases h with
      | inl h => exact congrArg Except.ok h.2.symm
      | inr h =>
        obtain ⟨v, d, hv, -⟩ := h
        cases hv
  | some v =>
    unfold convertOptional RustDecimal.convertBigdecimalToDecimal
    cases hread : ar.fromNumeric v with
    | error e =>
      constructor
      · intro h
        simp only [hread] at h
        cases h
      · intro h
        cases h with
        | inl h => cases h.1
        | inr h =>
          obtain ⟨v', d, hv, hd, -⟩ := h
          cases hv
          rw [hread] at hd
          cases hd
    | ok d =>
      constructor
      · intro h
        simp only [hread] at h
        exact .inr ⟨v, d, rfl, hread, (Except.ok.inj h).symm⟩
      · intro h
        cases h with
        | inl h => cases h.1
        | inr h =>
          obtain ⟨v', d', hv, hd, hsome⟩ := h
          cases hv
          have hsame : d = d' := Except.ok.inj (hread.symm.trans hd)
          simp only [hread]
          rw [hsome, ← hsame]
          rfl

theorem convertOptional_reads
    (h : convertOptional value field ar.convertBigdecimalToDecimal = .ok read) :
    Reads ar value := by
  intro v hv
  cases convertOptional_ok.mp h with
  | inl h =>
    rw [hv] at h
    cases h.1
  | inr h =>
    obtain ⟨v', d, hv', hd, -⟩ := h
    cases hv.symm.trans hv'
    exact ⟨d, hd⟩

theorem Reads.convertOptional (h : Reads ar value) (field : String) :
    ∃ read, convertOptional value field ar.convertBigdecimalToDecimal = .ok read := by
  cases value with
  | none => exact ⟨none, rfl⟩
  | some v =>
    obtain ⟨d, hd⟩ := h v rfl
    exact ⟨some d, convertOptional_ok.mpr (.inr ⟨v, d, rfl, hd, rfl⟩)⟩

theorem convertOptional_some {v : ℚ} {d : Decimal} (hd : ar.fromNumeric v = .ok d)
    (h : convertOptional (some v) field ar.convertBigdecimalToDecimal = .ok read) :
    read = some d := by
  cases convertOptional_ok.mp h with
  | inl h => cases h.1
  | inr h =>
    obtain ⟨v', d', hv, hd', hread⟩ := h
    cases hv
    rw [hread, Except.ok.inj (hd.symm.trans hd')]

theorem convertOptional_read {d : Decimal}
    (h : convertOptional value field ar.convertBigdecimalToDecimal = .ok (some d)) :
    ∃ v, value = some v ∧ ar.fromNumeric v = .ok d := by
  cases convertOptional_ok.mp h with
  | inl h => cases h.2
  | inr h =>
    obtain ⟨v, d', hv, hd, hsome⟩ := h
    rw [Option.some.inj hsome]
    exact ⟨v, hv, hd⟩

end Columns

section Flow

variable {settings : DetectorSettings} {ctx : EvalContext} {row : PoolSwapFlowRow}

theorem PoolSwapFlow.tryFrom_ok {flow : PoolSwapFlow}
    (h : PoolSwapFlow.tryFrom texts ar row = .ok flow) :
    convertStringToPubkey texts row.poolAddress "pool_address" = .ok flow.poolAddress ∧
      convertOptional row.volumeAToBUsd "volume_a_to_b_usd" ar.convertBigdecimalToDecimal =
        .ok flow.volumeAToBUsd ∧
      convertOptional row.volumeBToAUsd "volume_b_to_a_usd" ar.convertBigdecimalToDecimal =
        .ok flow.volumeBToAUsd := by
  obtain ⟨pool, hpool, h⟩ := bind_eq_ok h
  obtain ⟨aToB, haToB, h⟩ := bind_eq_ok h
  obtain ⟨bToA, hbToA, h⟩ := bind_eq_ok h
  have hflow := Except.ok.inj h
  rw [← hflow]
  exact ⟨hpool, haToB, hbToA⟩

/-- A flow is judged when its total, where it has one, fits. -/
theorem FlowImbalanceDetector.judge_isSome {flow : PoolSwapFlow}
    (hadd : ∀ a b, flow.volumeAToBUsd = some a → flow.volumeBToAUsd = some b →
      (ar.add a b).isSome)
    (hsub : ∀ a b, flow.volumeAToBUsd = some a → flow.volumeBToAUsd = some b →
      (ar.sub a b).isSome)
    (hdiv : ∀ a b s d, flow.volumeAToBUsd = some a → flow.volumeBToAUsd = some b →
      ar.add a b = some s → ar.sub a b = some d → s.value ≠ 0 → (ar.div d s).isSome) :
    (judge ar settings ctx flow).isSome := by
  unfold judge
  cases haToB : flow.volumeAToBUsd with
  | none => rfl
  | some a =>
    cases hbToA : flow.volumeBToAUsd with
    | none => rfl
    | some b =>
      obtain ⟨s, hs⟩ := Option.isSome_iff_exists.mp (hadd a b haToB hbToA)
      obtain ⟨d, hd⟩ := Option.isSome_iff_exists.mp (hsub a b haToB hbToA)
      have hdiv := hdiv a b s d haToB hbToA hs hd
      simp only [hs, hd, bind, Option.bind]
      split_ifs with hzero
      · rfl
      · obtain ⟨q, hq⟩ := Option.isSome_iff_exists.mp (hdiv hzero)
        simp only [hq]
        split_ifs
        · rfl
        · rfl

theorem FlowImbalanceDetector.judged_iff {pool : Pubkey}
    (hpool : row.poolAddress = texts.pubkey.print pool) (hA : NonNegative row.volumeAToBUsd)
    (hB : NonNegative row.volumeBToAUsd) :
    (∃ found, Judged (fun row => (PoolSwapFlow.tryFrom texts ar row).mapError DetectorError.repository)
      (judge ar settings ctx) row found) ↔ row.Fits ar := by
  constructor
  · intro ⟨found, flow, hflow, hjudged⟩
    obtain ⟨-, haToB, hbToA⟩ := PoolSwapFlow.tryFrom_ok (mapError_eq_ok.mp hflow)
    refine ⟨convertOptional_reads haToB, convertOptional_reads hbToA, ?_⟩
    intro u v a b hu hv ha hb
    rw [hu] at haToB
    rw [hv] at hbToA
    unfold judge at hjudged
    rw [convertOptional_some ha haToB, convertOptional_some hb hbToA] at hjudged
    cases hadd : ar.add a b with
    | none =>
      simp only [hadd] at hjudged
      cases hjudged
    | some s => rfl
  · intro hfits
    obtain ⟨aToB, haToB⟩ := hfits.aToB.convertOptional "volume_a_to_b_usd"
    obtain ⟨bToA, hbToA⟩ := hfits.bToA.convertOptional "volume_b_to_a_usd"
    have hflow : PoolSwapFlow.tryFrom texts ar row = .ok ⟨pool, aToB, bToA⟩ := by
      unfold PoolSwapFlow.tryFrom
      rw [hpool, convertStringToPubkey_print, haToB, hbToA]
      rfl
    have hread {a b : Decimal} (ha : aToB = some a) (hb : bToA = some b) : ∃ u v,
        row.volumeAToBUsd = some u ∧ row.volumeBToAUsd = some v ∧ 0 ≤ u ∧ 0 ≤ v ∧
          ar.fromNumeric u = .ok a ∧ ar.fromNumeric v = .ok b := by
      rw [ha] at haToB
      rw [hb] at hbToA
      obtain ⟨u, hu, hua⟩ := convertOptional_read haToB
      obtain ⟨v, hv, hvb⟩ := convertOptional_read hbToA
      exact ⟨u, v, hu, hv, hA u hu, hB v hv, hua, hvb⟩
    have hsome : (judge ar settings ctx ⟨pool, aToB, bToA⟩).isSome := by
      apply judge_isSome
      · intro a b ha hb
        obtain ⟨u, v, hu, hv, -, -, hua, hvb⟩ := hread ha hb
        exact hfits.total u v a b hu hv hua hvb
      · intro a b ha hb
        obtain ⟨u, v, -, -, hu0, hv0, hua, hvb⟩ := hread ha hb
        exact ar.sub_isSome hu0 hv0 hua hvb
      · intro a b s d ha hb hs hd hne
        obtain ⟨u, v, -, -, hu0, hv0, hua, hvb⟩ := hread ha hb
        exact ar.div_sum_isSome hu0 hv0 hua hvb hs hd hne
    obtain ⟨found, hfound⟩ := Option.isSome_iff_exists.mp hsome
    exact ⟨found, _, mapError_eq_ok.mpr hflow, hfound⟩

theorem FlowImbalanceDetector.judge_pool {flow : PoolSwapFlow} {s : Signal}
    (h : judge ar settings ctx flow = some (some s)) : s.poolAddress = flow.poolAddress := by
  unfold judge at h
  cases haToB : flow.volumeAToBUsd with
  | none =>
    rw [haToB] at h
    cases h
  | some a =>
    cases hbToA : flow.volumeBToAUsd with
    | none =>
      rw [haToB, hbToA] at h
      cases h
    | some b =>
      rw [haToB, hbToA] at h
      obtain ⟨total, -, h⟩ := Option.bind_eq_some_iff.mp h
      split_ifs at h
      · cases h
      · obtain ⟨d, -, h⟩ := Option.bind_eq_some_iff.mp h
        obtain ⟨q, -, h⟩ := Option.bind_eq_some_iff.mp h
        simp only at h
        split_ifs at h
        · cases h
        · have hs := Option.some.inj (Option.some.inj h)
          rw [← hs]

theorem FlowImbalanceDetector.judged_pool {s : Signal} {pool : Pubkey}
    (hpool : row.poolAddress = texts.pubkey.print pool)
    (h : Judged (fun row => (PoolSwapFlow.tryFrom texts ar row).mapError DetectorError.repository)
      (judge ar settings ctx) row (some s)) : texts.pubkey.print s.poolAddress = row.poolAddress := by
  obtain ⟨flow, hflow, hs⟩ := h
  have haddress := (PoolSwapFlow.tryFrom_ok (mapError_eq_ok.mp hflow)).1
  rw [hpool, convertStringToPubkey_print, Except.ok.injEq] at haddress
  rw [judge_pool hs, hpool, haddress]

end Flow

section Drain

variable {settings : DetectorSettings} {ctx : EvalContext} {row : PoolLiquidityFlowRow}

theorem PoolLiquidityFlow.tryFrom_ok {flow : PoolLiquidityFlow}
    (h : PoolLiquidityFlow.tryFrom texts ar row = .ok flow) :
    convertStringToPubkey texts row.poolAddress "pool_address" = .ok flow.poolAddress ∧
      convertOptional row.addedUsd "added_usd" ar.convertBigdecimalToDecimal = .ok flow.addedUsd ∧
      convertOptional row.removedUsd "removed_usd" ar.convertBigdecimalToDecimal =
        .ok flow.removedUsd ∧
      convertOptional row.tvlUsd "tvl_usd" ar.convertBigdecimalToDecimal = .ok flow.tvlUsd := by
  obtain ⟨pool, hpool, h⟩ := bind_eq_ok h
  obtain ⟨added, hadded, h⟩ := bind_eq_ok h
  obtain ⟨removed, hremoved, h⟩ := bind_eq_ok h
  obtain ⟨tvl, htvl, h⟩ := bind_eq_ok h
  have hflow := Except.ok.inj h
  rw [← hflow]
  exact ⟨hpool, hadded, hremoved, htvl⟩

/-- A liquidity flow is judged when its starting TVL, where it has one, fits. -/
theorem TvlDrainDetector.judge_isSome {flow : PoolLiquidityFlow}
    (hsub : ∀ a r t, flow.addedUsd = some a → flow.removedUsd = some r → flow.tvlUsd = some t →
      (ar.sub r a).isSome)
    (hadd : ∀ a r t n, flow.addedUsd = some a → flow.removedUsd = some r → flow.tvlUsd = some t →
      ar.sub r a = some n → 0 < n.value → (ar.add t n).isSome)
    (hdiv : ∀ a r t n s, flow.addedUsd = some a → flow.removedUsd = some r →
      flow.tvlUsd = some t → ar.sub r a = some n → 0 < n.value → ar.add t n = some s →
      (ar.div n s).isSome) :
    (judge ar settings ctx flow).isSome := by
  unfold judge
  cases htvl : flow.tvlUsd with
  | none => rfl
  | some t =>
    cases hadded : flow.addedUsd with
    | none => rfl
    | some a =>
      cases hremoved : flow.removedUsd with
      | none => rfl
      | some r =>
        obtain ⟨n, hn⟩ := Option.isSome_iff_exists.mp (hsub a r t hadded hremoved htvl)
        simp only [hn, bind, Option.bind]
        split_ifs with hnet
        · rfl
        · have hadd := hadd a r t n hadded hremoved htvl hn (not_le.mp hnet)
          obtain ⟨s, hs⟩ := Option.isSome_iff_exists.mp hadd
          have hdiv := hdiv a r t n s hadded hremoved htvl hn (not_le.mp hnet) hs
          obtain ⟨q, hq⟩ := Option.isSome_iff_exists.mp hdiv
          simp only [hs, hq]
          split_ifs
          · rfl
          · rfl
          · rfl

theorem TvlDrainDetector.judged_iff {pool : Pubkey}
    (hpool : row.poolAddress = texts.pubkey.print pool) (hA : NonNegative row.addedUsd)
    (hR : NonNegative row.removedUsd) (hT : NonNegative row.tvlUsd) :
    (∃ found, Judged
      (fun row => (PoolLiquidityFlow.tryFrom texts ar row).mapError DetectorError.repository)
      (judge ar settings ctx) row found) ↔ row.Fits ar := by
  constructor
  · intro ⟨found, flow, hflow, hjudged⟩
    obtain ⟨-, hadded, hremoved, htvl⟩ := PoolLiquidityFlow.tryFrom_ok (mapError_eq_ok.mp hflow)
    refine ⟨convertOptional_reads hadded, convertOptional_reads hremoved,
      convertOptional_reads htvl, ?_⟩
    intro u v w a r t n hu hv hw ha hr ht hn hpos
    rw [hu] at hadded
    rw [hv] at hremoved
    rw [hw] at htvl
    unfold judge at hjudged
    rw [convertOptional_some ha hadded, convertOptional_some hr hremoved,
      convertOptional_some ht htvl] at hjudged
    cases hadd : ar.add t n with
    | none =>
      simp only [hn, bind, Option.bind, if_neg (not_le.mpr hpos), hadd] at hjudged
      cases hjudged
    | some s => rfl
  · intro hfits
    obtain ⟨added, hadded⟩ := hfits.added.convertOptional "added_usd"
    obtain ⟨removed, hremoved⟩ := hfits.removed.convertOptional "removed_usd"
    obtain ⟨tvl, htvl⟩ := hfits.tvl.convertOptional "tvl_usd"
    have hflow :
        PoolLiquidityFlow.tryFrom texts ar row = .ok ⟨pool, added, removed, tvl⟩ := by
      unfold PoolLiquidityFlow.tryFrom
      rw [hpool, convertStringToPubkey_print, hadded, hremoved, htvl]
      rfl
    have hread {a r t : Decimal} (ha : added = some a) (hr : removed = some r)
        (ht : tvl = some t) : ∃ u v w, row.addedUsd = some u ∧ row.removedUsd = some v ∧
          row.tvlUsd = some w ∧ 0 ≤ u ∧ 0 ≤ v ∧ 0 ≤ w ∧
          ar.fromNumeric u = .ok a ∧ ar.fromNumeric v = .ok r ∧ ar.fromNumeric w = .ok t := by
      rw [ha] at hadded
      rw [hr] at hremoved
      rw [ht] at htvl
      obtain ⟨u, hu, hua⟩ := convertOptional_read hadded
      obtain ⟨v, hv, hvr⟩ := convertOptional_read hremoved
      obtain ⟨w, hw, hwt⟩ := convertOptional_read htvl
      exact ⟨u, v, w, hu, hv, hw, hA u hu, hR v hv, hT w hw, hua, hvr, hwt⟩
    have hsome : (judge ar settings ctx ⟨pool, added, removed, tvl⟩).isSome := by
      apply judge_isSome
      · intro a r t ha hr ht
        obtain ⟨u, v, w, -, -, -, hu0, hv0, -, hua, hvr, -⟩ := hread ha hr ht
        exact ar.sub_isSome hv0 hu0 hvr hua
      · intro a r t n ha hr ht hn hpos
        obtain ⟨u, v, w, hu, hv, hw, -, -, -, hua, hvr, hwt⟩ := hread ha hr ht
        exact hfits.starting u v w a r t n hu hv hw hua hvr hwt hn hpos
      · intro a r t n s ha hr ht hn hpos hs
        obtain ⟨u, v, w, -, -, -, hu0, hv0, hw0, hua, hvr, hwt⟩ := hread ha hr ht
        exact ar.div_term_isSome hv0 hu0 hw0 hvr hua hwt hn hpos hs
    obtain ⟨found, hfound⟩ := Option.isSome_iff_exists.mp hsome
    exact ⟨found, _, mapError_eq_ok.mpr hflow, hfound⟩

theorem TvlDrainDetector.judge_pool {flow : PoolLiquidityFlow} {s : Signal}
    (h : judge ar settings ctx flow = some (some s)) : s.poolAddress = flow.poolAddress := by
  unfold judge at h
  cases htvl : flow.tvlUsd with
  | none =>
    rw [htvl] at h
    cases h
  | some t =>
    cases hadded : flow.addedUsd with
    | none =>
      rw [htvl, hadded] at h
      cases h
    | some a =>
      cases hremoved : flow.removedUsd with
      | none =>
        rw [htvl, hadded, hremoved] at h
        cases h
      | some r =>
        rw [htvl, hadded, hremoved] at h
        obtain ⟨n, -, h⟩ := Option.bind_eq_some_iff.mp h
        split_ifs at h
        · cases h
        · obtain ⟨start, -, h⟩ := Option.bind_eq_some_iff.mp h
          split_ifs at h
          · cases h
          · obtain ⟨q, -, h⟩ := Option.bind_eq_some_iff.mp h
            simp only at h
            split_ifs at h
            · cases h
            · have hs := Option.some.inj (Option.some.inj h)
              rw [← hs]

theorem TvlDrainDetector.judged_pool {s : Signal} {pool : Pubkey}
    (hpool : row.poolAddress = texts.pubkey.print pool)
    (h : Judged
      (fun row => (PoolLiquidityFlow.tryFrom texts ar row).mapError DetectorError.repository)
      (judge ar settings ctx) row (some s)) : texts.pubkey.print s.poolAddress = row.poolAddress := by
  obtain ⟨flow, hflow, hs⟩ := h
  have haddress := (PoolLiquidityFlow.tryFrom_ok (mapError_eq_ok.mp hflow)).1
  rw [hpool, convertStringToPubkey_print, Except.ok.injEq] at haddress
  rw [judge_pool hs, hpool, haddress]

end Drain

end YogSothoth.Signals
