import YogSothoth.Signals.PoolsApart

namespace YogSothoth.Signals

section Emitted

variable {R F : Type} {convert : R → Except DetectorError F} {judge : F → Panics (Option Signal)}
  {rows : List R} {key : R → String} {texts : Texts}

theorem emitted_ok {detector : String} {found : List Signal} {since : Instant}
    {evaluated : Panics (Except DetectorError (List Signal))} {signals : List Signal} :
    emitted detector found since evaluated = some (.ok signals) ↔ ∃ candidates,
      evaluated = some (.ok candidates) ∧
        emittable candidates (latestSeverityByPool found detector since) = signals := by
  cases evaluated with
  | none =>
    constructor
    · intro h
      cases h
    · intro ⟨_, h, _⟩
      cases h
  | some result =>
    cases result with
    | error e =>
      constructor
      · intro h
        cases Option.some.inj h
      · intro ⟨_, h, _⟩
        cases Option.some.inj h
    | ok candidates =>
      constructor
      · intro h
        exact ⟨candidates, rfl, Except.ok.inj (Option.some.inj h)⟩
      · intro ⟨_, h, hsignals⟩
        rw [Except.ok.inj (Option.some.inj h)]
        exact congrArg (fun l => some (Except.ok l)) hsignals

/-- A candidate is new or escalates. -/
def fresh (recent : Pubkey → Option Severity) (c : Signal) : Bool :=
  (recent c.poolAddress).elim true (fun last => decide (last < c.severity))

theorem emittable_eq (candidates : List Signal) (recent : Pubkey → Option Severity) :
    emittable candidates recent = candidates.filter (fresh recent) := by
  unfold emittable
  apply List.filter_congr
  intro c _
  unfold fresh
  cases recent c.poolAddress with
  | none => rfl
  | some last => rfl

/-- A row's signals are its own exactly when every other row is judged. -/
theorem apart_iff (hkey : ∀ row ∈ rows, ∀ s, Judged convert judge row (some s) →
      texts.pubkey.print s.poolAddress = key row)
    (hnodup : (rows.map key).Nodup) {row : R} (hrow : row ∈ rows) {pool : Pubkey}
    (hpool : key row = texts.pubkey.print pool) (hjudged : ∃ first, Judged convert judge row first)
    (detector : String) (found : List Signal) (since : Instant) :
    Apart pool (emitted detector found since (judgeAll convert judge rows))
        (emitted detector found since (judgeAll convert judge [row])) ↔
      ∀ other ∈ rows, key other ≠ key row → ∃ first, Judged convert judge other first := by
  obtain ⟨first, hfirst⟩ := hjudged
  have hown (s : Signal) : (texts.pubkey.print s.poolAddress = key row) = (s.poolAddress = pool) := by
    rw [hpool]
    exact propext ⟨fun h => texts.pubkey.print_injective h, congrArg _⟩
  rw [← judgeAll_isolated hkey hnodup hrow hfirst
    (fresh (latestSeverityByPool found detector since))]
  simp only [hown]
  constructor
  · intro ⟨signals, own, hsignals, hown, heq⟩
    obtain ⟨candidates, hcandidates, hemitted⟩ := emitted_ok.mp hsignals
    obtain ⟨alone, halone, hemitted'⟩ := emitted_ok.mp hown
    rw [← hemitted, ← hemitted', emittable_eq, emittable_eq] at heq
    exact ⟨candidates, alone, hcandidates, halone, heq⟩
  · intro ⟨candidates, alone, hcandidates, halone, heq⟩
    rw [← emittable_eq, ← emittable_eq] at heq
    exact ⟨_, _, emitted_ok.mpr ⟨candidates, hcandidates, rfl⟩,
      emitted_ok.mpr ⟨alone, halone, rfl⟩, heq⟩

end Emitted

/-- A pool's signals are those of its row alone exactly when what the other rows hold fits. -/
theorem signals_apart (texts : Texts) (ar : RustDecimal) (settings : DetectorSettings)
    (ctx : EvalContext) (found : List Signal) (since : Instant) :
    (∀ rows : List PoolSwapFlowRow, (rows.map PoolSwapFlowRow.poolAddress).Nodup →
      (∀ row ∈ rows, (∃ pool, row.poolAddress = texts.pubkey.print pool) ∧
        NonNegative row.volumeAToBUsd ∧ NonNegative row.volumeBToAUsd) →
      ∀ own ∈ rows, ∀ pool, own.poolAddress = texts.pubkey.print pool → own.Fits ar →
        (Apart pool
            (emitted DETECTOR_FLOW_IMBALANCE found since
              (FlowImbalanceDetector.evaluate texts ar settings ctx rows))
            (emitted DETECTOR_FLOW_IMBALANCE found since
              (FlowImbalanceDetector.evaluate texts ar settings ctx [own])) ↔
          ∀ other ∈ rows, other.poolAddress ≠ own.poolAddress → other.Fits ar)) ∧
    (∀ rows : List PoolLiquidityFlowRow, (rows.map PoolLiquidityFlowRow.poolAddress).Nodup →
      (∀ row ∈ rows, (∃ pool, row.poolAddress = texts.pubkey.print pool) ∧
        NonNegative row.addedUsd ∧ NonNegative row.removedUsd ∧ NonNegative row.tvlUsd) →
      ∀ own ∈ rows, ∀ pool, own.poolAddress = texts.pubkey.print pool → own.Fits ar →
        (Apart pool
            (emitted DETECTOR_TVL_DRAIN found since
              (TvlDrainDetector.evaluate texts ar settings ctx rows))
            (emitted DETECTOR_TVL_DRAIN found since
              (TvlDrainDetector.evaluate texts ar settings ctx [own])) ↔
          ∀ other ∈ rows, other.poolAddress ≠ own.poolAddress → other.Fits ar)) := by
  constructor
  · intro rows hnodup hrows own hown pool hpool hfits
    have hjudged (row : PoolSwapFlowRow) (hrow : row ∈ rows) : (∃ found, Judged
        (fun row => (PoolSwapFlow.tryFrom texts ar row).mapError DetectorError.repository)
        (FlowImbalanceDetector.judge ar settings ctx) row found) ↔ row.Fits ar := by
      obtain ⟨⟨_, hprinted⟩, hA, hB⟩ := hrows row hrow
      exact FlowImbalanceDetector.judged_iff hprinted hA hB
    unfold FlowImbalanceDetector.evaluate
    rw [apart_iff ?_ hnodup hown hpool ((hjudged own hown).mpr hfits)]
    · constructor
      · intro h other hother hne
        exact (hjudged other hother).mp (h other hother hne)
      · intro h other hother hne
        exact (hjudged other hother).mpr (h other hother hne)
    · intro row hrow s hs
      obtain ⟨⟨_, hprinted⟩, -, -⟩ := hrows row hrow
      exact FlowImbalanceDetector.judged_pool hprinted hs
  · intro rows hnodup hrows own hown pool hpool hfits
    have hjudged (row : PoolLiquidityFlowRow) (hrow : row ∈ rows) : (∃ found, Judged
        (fun row => (PoolLiquidityFlow.tryFrom texts ar row).mapError DetectorError.repository)
        (TvlDrainDetector.judge ar settings ctx) row found) ↔ row.Fits ar := by
      obtain ⟨⟨_, hprinted⟩, hA, hR, hT⟩ := hrows row hrow
      exact TvlDrainDetector.judged_iff hprinted hA hR hT
    unfold TvlDrainDetector.evaluate
    rw [apart_iff ?_ hnodup hown hpool ((hjudged own hown).mpr hfits)]
    · constructor
      · intro h other hother hne
        exact (hjudged other hother).mp (h other hother hne)
      · intro h other hother hne
        exact (hjudged other hother).mpr (h other hother hne)
    · intro row hrow s hs
      obtain ⟨⟨_, hprinted⟩, -, -, -⟩ := hrows row hrow
      exact TvlDrainDetector.judged_pool hprinted hs

section Whole

theorem dollarBits : (1 : Int).natAbs < 2 ^ 96 := Nat.one_lt_two_pow (by decide)

def wholeDecimal (n : Int) : Option Decimal :=
  if h : n.natAbs < 2 ^ 96 then some ⟨n, 0, h, wholeDigits⟩ else none

theorem wholeDecimal_value {n : Int} {d : Decimal} (h : wholeDecimal n = some d) :
    d.value = n := by
  unfold wholeDecimal at h
  split_ifs at h with hfits
  rw [← Option.some.inj h]
  simp [Decimal.value]

theorem wholeDecimal_bound {n : Int} {d : Decimal} (h : wholeDecimal n = some d) :
    n.natAbs < 2 ^ 96 := by
  unfold wholeDecimal at h
  split_ifs at h with hfits
  exact hfits

theorem wholeDecimal_isSome {n : Int} (h : n.natAbs < 2 ^ 96) : (wholeDecimal n).isSome := by
  unfold wholeDecimal
  rw [dif_pos h]
  rfl

def wholeFromNumeric (v : ℚ) : Except String Decimal :=
  (wholeDecimal ⌊v⌋).elim (.error "Invalid decimal: overflow from too many digits") .ok

theorem wholeFromNumeric_ok {v : ℚ} {d : Decimal} (hv : 0 ≤ v) (h : wholeFromNumeric v = .ok d) :
    ∃ n : Int, 0 ≤ n ∧ n.natAbs < 2 ^ 96 ∧ d.value = n := by
  unfold wholeFromNumeric at h
  cases hd : wholeDecimal ⌊v⌋ with
  | none =>
    rw [hd] at h
    cases h
  | some d' =>
    rw [hd] at h
    have hsame : d' = d := Except.ok.inj h
    rw [hsame] at hd
    exact ⟨⌊v⌋, Int.floor_nonneg.mpr hv, wholeDecimal_bound hd, wholeDecimal_value hd⟩

theorem wholeQuotient_isSome {n s : Int} (hs : 0 < s) (hle : |n| ≤ s) :
    (wholeDecimal ⌊(n : ℚ) / s⌋).isSome := by
  have hpos : (0 : ℚ) < s := by exact_mod_cast hs
  obtain ⟨hlow, hhigh⟩ := abs_le.mp hle
  have hlow : -1 ≤ ⌊(n : ℚ) / s⌋ := by
    rw [Int.le_floor, le_div_iff₀ hpos]
    push_cast
    have hcast : (-s : ℚ) ≤ n := by exact_mod_cast hlow
    linarith
  have hhigh : ⌊(n : ℚ) / s⌋ ≤ 1 := by
    rw [← Int.lt_add_one_iff, Int.floor_lt, div_lt_iff₀ hpos]
    have hcast : (n : ℚ) ≤ s := by exact_mod_cast hhigh
    push_cast
    linarith
  apply wholeDecimal_isSome
  omega

/-- Decimals of whole dollars. -/
def wholeDollars : RustDecimal where
  fromNumeric := wholeFromNumeric
  add a b := wholeDecimal ⌊a.value + b.value⌋
  sub a b := wholeDecimal ⌊a.value - b.value⌋
  div a b := if b.value = 0 then none else wholeDecimal ⌊a.value / b.value⌋
  abs d := ⟨d.mantissa.natAbs, d.scale, by rw [Int.natAbs_natCast]; exact d.bits, d.digits⟩
  roundDp d _ := d
  print d := toString d.mantissa
  sub_isSome := by
    intro u v a b hu hv ha hb
    obtain ⟨n, hn, hnfits, han⟩ := wholeFromNumeric_ok hu ha
    obtain ⟨m, hm, hmfits, hbm⟩ := wholeFromNumeric_ok hv hb
    rw [han, hbm, ← Int.cast_sub, Int.floor_intCast]
    apply wholeDecimal_isSome
    omega
  div_sum_isSome := by
    intro u v a b s d hu hv ha hb hs hd hne
    obtain ⟨n, hn, hnfits, han⟩ := wholeFromNumeric_ok hu ha
    obtain ⟨m, hm, hmfits, hbm⟩ := wholeFromNumeric_ok hv hb
    have hs := wholeDecimal_value hs
    have hd := wholeDecimal_value hd
    rw [han, hbm, ← Int.cast_add, Int.floor_intCast] at hs
    rw [han, hbm, ← Int.cast_sub, Int.floor_intCast] at hd
    rw [if_neg hne, hs, hd]
    rw [hs] at hne
    have hsum : n + m ≠ 0 := by exact_mod_cast hne
    apply wholeQuotient_isSome
    · omega
    · rw [abs_le]
      omega
  div_term_isSome := by
    intro u v w a b t d s hu hv hw ha hb ht hd hpos hs
    obtain ⟨n, hn, hnfits, han⟩ := wholeFromNumeric_ok hu ha
    obtain ⟨m, hm, hmfits, hbm⟩ := wholeFromNumeric_ok hv hb
    obtain ⟨k, hk, hkfits, htk⟩ := wholeFromNumeric_ok hw ht
    have hd := wholeDecimal_value hd
    rw [han, hbm, ← Int.cast_sub, Int.floor_intCast] at hd
    have hs := wholeDecimal_value hs
    rw [htk, hd, ← Int.cast_add, Int.floor_intCast] at hs
    rw [hd] at hpos
    have hmore : 0 < n - m := by exact_mod_cast hpos
    have hne : ((k + (n - m) : Int) : ℚ) ≠ 0 := by
      rw [Int.cast_ne_zero]
      omega
    rw [hs, hd, if_neg hne]
    apply wholeQuotient_isSome
    · omega
    · rw [abs_le]
      omega

theorem wholeDollars_reads {n : Int} (h : n.natAbs < 2 ^ 96) : Reads wholeDollars (some (n : ℚ)) := by
  intro v hv
  rw [← Option.some.inj hv]
  obtain ⟨d, hd⟩ := Option.isSome_iff_exists.mp (wholeDecimal_isSome h)
  refine ⟨d, ?_⟩
  change wholeFromNumeric n = _
  unfold wholeFromNumeric
  rw [Int.floor_intCast, hd]
  rfl

theorem wholeDollars_value {n : Int} {d : Decimal} (h : wholeDollars.fromNumeric (n : ℚ) = .ok d) :
    d.value = n := by
  change wholeFromNumeric n = _ at h
  unfold wholeFromNumeric at h
  rw [Int.floor_intCast] at h
  cases hd : wholeDecimal n with
  | none =>
    rw [hd] at h
    cases h
  | some d' =>
    rw [hd] at h
    rw [← Except.ok.inj h]
    exact wholeDecimal_value hd

theorem wholeDollars_add {a b : Decimal} {n m : Int} (ha : a.value = n) (hb : b.value = m)
    (h : (n + m).natAbs < 2 ^ 96) : (wholeDollars.add a b).isSome := by
  change (wholeDecimal ⌊a.value + b.value⌋).isSome
  rw [ha, hb, ← Int.cast_add, Int.floor_intCast]
  exact wholeDecimal_isSome h

theorem wholeDollars_sub {a b d : Decimal} {n m : Int} (ha : a.value = n) (hb : b.value = m)
    (h : wholeDollars.sub a b = some d) : d.value = (n - m : Int) := by
  change wholeDecimal ⌊a.value - b.value⌋ = _ at h
  rw [ha, hb, ← Int.cast_sub, Int.floor_intCast] at h
  exact wholeDecimal_value h

def wholeSettings : DetectorSettings where
  floor := ⟨1, 0, dollarBits, wholeDigits⟩
  threshold := ⟨1, 0, dollarBits, wholeDigits⟩
  critical := ⟨1, 0, dollarBits, wholeDigits⟩

def otherPubkey : Pubkey := ⟨List.replicate 32 3, List.length_replicate⟩

def plainText (pool : Pubkey) : String := Texts.plain.pubkey.print pool

theorem plainText_printed (pool : Pubkey) :
    ∃ p, plainText pool = Texts.plain.pubkey.print p := ⟨pool, rfl⟩

def ownFlow : PoolSwapFlowRow := ⟨plainText zeroPubkey, some 100, some 0⟩

def hugeFlow : PoolSwapFlowRow := ⟨plainText otherPubkey, some (5 * 10 ^ 28), some (5 * 10 ^ 28)⟩

def calmFlow : PoolSwapFlowRow := ⟨plainText otherPubkey, some 50, some 50⟩

def ownDrain : PoolLiquidityFlowRow := ⟨plainText zeroPubkey, some 0, some 100, some 0⟩

def hugeDrain : PoolLiquidityFlowRow := ⟨plainText otherPubkey, some 0, some (8 * 10 ^ 28), some 0⟩

def calmDrain : PoolLiquidityFlowRow := ⟨plainText otherPubkey, some 0, some 50, some 950⟩

def flowTick (rows : List PoolSwapFlowRow) : Panics (Except DetectorError (List Signal)) :=
  emitted DETECTOR_FLOW_IMBALANCE [] 0
    (FlowImbalanceDetector.evaluate Texts.plain wholeDollars wholeSettings ⟨0, .meteoraDammV2⟩ rows)

def drainTick (rows : List PoolLiquidityFlowRow) : Panics (Except DetectorError (List Signal)) :=
  emitted DETECTOR_TVL_DRAIN [] 0
    (TvlDrainDetector.evaluate Texts.plain wholeDollars wholeSettings ⟨0, .meteoraDammV2⟩ rows)

theorem wholeFlow_fits (pool : String) {n m : Int} (hn : n.natAbs < 2 ^ 96)
    (hm : m.natAbs < 2 ^ 96) (hsum : (n + m).natAbs < 2 ^ 96) :
    PoolSwapFlowRow.Fits wholeDollars ⟨pool, some n, some m⟩ where
  aToB := wholeDollars_reads hn
  bToA := wholeDollars_reads hm
  total := by
    intro u v a b hu hv ha hb
    cases hu
    cases hv
    exact wholeDollars_add (wholeDollars_value ha) (wholeDollars_value hb) hsum

theorem wholeDrain_fits (pool : String) {a r t : Int} (ha : a.natAbs < 2 ^ 96) (hr : r.natAbs < 2 ^ 96)
    (ht : t.natAbs < 2 ^ 96) (hsum : (t + (r - a)).natAbs < 2 ^ 96) :
    PoolLiquidityFlowRow.Fits wholeDollars ⟨pool, some a, some r, some t⟩ where
  added := wholeDollars_reads ha
  removed := wholeDollars_reads hr
  tvl := wholeDollars_reads ht
  starting := by
    intro u v w _ _ _ d hu hv hw ha hr ht hd _
    cases hu
    cases hv
    cases hw
    have hd := wholeDollars_sub (wholeDollars_value hr) (wholeDollars_value ha) hd
    exact wholeDollars_add (wholeDollars_value ht) hd hsum

theorem ownFlow_fits : ownFlow.Fits wholeDollars :=
  wholeFlow_fits (plainText zeroPubkey) (n := 100) (m := 0) (by decide) (by decide) (by decide)

theorem ownDrain_fits : ownDrain.Fits wholeDollars :=
  wholeDrain_fits (plainText zeroPubkey) (a := 0) (r := 100) (t := 0) (by decide) (by decide) (by decide)
    (by decide)

theorem nonNegative_some {q : ℚ} : NonNegative (some q) ↔ 0 ≤ q := by
  constructor
  · intro h
    exact h q rfl
  · intro h v hv
    rw [← Option.some.inj hv]
    exact h

/-- A pool whose volumes fit and whose total does not stops the engine, and one whose removals do
not fit fails the tick, for a pool that is signalled alone. -/
theorem huge_pools_silence_their_neighbours :
    (([ownFlow, hugeFlow].map PoolSwapFlowRow.poolAddress).Nodup ∧
      (∀ row ∈ [ownFlow, hugeFlow], (∃ pool, row.poolAddress = Texts.plain.pubkey.print pool) ∧
        NonNegative row.volumeAToBUsd ∧ NonNegative row.volumeBToAUsd) ∧
      ownFlow.Fits wholeDollars ∧
      (flowTick [ownFlow]).map (fun r => r.map (fun l => l.length)) = some (.ok 1) ∧
      flowTick [ownFlow, hugeFlow] = none ∧
      ¬ Apart zeroPubkey (flowTick [ownFlow, hugeFlow]) (flowTick [ownFlow])) ∧
    (([ownDrain, hugeDrain].map PoolLiquidityFlowRow.poolAddress).Nodup ∧
      (∀ row ∈ [ownDrain, hugeDrain], (∃ pool, row.poolAddress = Texts.plain.pubkey.print pool) ∧
        NonNegative row.addedUsd ∧ NonNegative row.removedUsd ∧ NonNegative row.tvlUsd) ∧
      ownDrain.Fits wholeDollars ∧
      (drainTick [ownDrain]).map (fun r => r.map (fun l => l.length)) = some (.ok 1) ∧
      (drainTick [ownDrain, hugeDrain]).map Except.toBool = some false ∧
      ¬ Apart zeroPubkey (drainTick [ownDrain, hugeDrain]) (drainTick [ownDrain])) := by
  have hpanics : flowTick [ownFlow, hugeFlow] = none := by
    rw [← Option.isNone_iff_eq_none]
    decide +kernel
  have hfails : (drainTick [ownDrain, hugeDrain]).map Except.toBool = some false := by
    decide +kernel
  refine ⟨⟨by decide, ?_, ownFlow_fits, by decide +kernel, hpanics, ?_⟩, by decide, ?_,
    ownDrain_fits, by decide +kernel, hfails, ?_⟩
  · simp [ownFlow, hugeFlow, nonNegative_some, plainText_printed]
  · intro ⟨signals, _, hsignals, _⟩
    rw [hpanics] at hsignals
    cases hsignals
  · simp [ownDrain, hugeDrain, nonNegative_some, plainText_printed]
  · intro ⟨signals, _, hsignals, _⟩
    rw [hsignals] at hfails
    cases hfails

/-- Beside a pool that fits, a pool is signalled as it is alone. -/
theorem calm_pools_leave_their_neighbours :
    Apart zeroPubkey (flowTick [ownFlow, calmFlow]) (flowTick [ownFlow]) ∧
      Apart zeroPubkey (drainTick [ownDrain, calmDrain]) (drainTick [ownDrain]) := by
  constructor
  · refine ((signals_apart Texts.plain wholeDollars wholeSettings ⟨0, .meteoraDammV2⟩ [] 0).1
      [ownFlow, calmFlow] (by decide) ?_ ownFlow List.mem_cons_self zeroPubkey rfl
      ownFlow_fits).mpr ?_
    · simp [ownFlow, calmFlow, nonNegative_some, plainText_printed]
    · intro other hother hne
      rw [List.mem_pair] at hother
      cases hother with
      | inl h => exact absurd (congrArg PoolSwapFlowRow.poolAddress h) hne
      | inr h =>
        rw [h]
        exact wholeFlow_fits (plainText otherPubkey) (n := 50) (m := 50) (by decide) (by decide)
          (by decide)
  · refine ((signals_apart Texts.plain wholeDollars wholeSettings ⟨0, .meteoraDammV2⟩ [] 0).2
      [ownDrain, calmDrain] (by decide) ?_ ownDrain List.mem_cons_self zeroPubkey rfl
      ownDrain_fits).mpr ?_
    · simp [ownDrain, calmDrain, nonNegative_some, plainText_printed]
    · intro other hother hne
      rw [List.mem_pair] at hother
      cases hother with
      | inl h => exact absurd (congrArg PoolLiquidityFlowRow.poolAddress h) hne
      | inr h =>
        rw [h]
        exact wholeDrain_fits (plainText otherPubkey) (a := 0) (r := 50) (t := 950) (by decide)
          (by decide) (by decide) (by decide)

end Whole

end YogSothoth.Signals
