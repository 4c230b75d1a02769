import YogSothoth.Analytic.SplitSums
import YogSothoth.Framework.Fallible

namespace YogSothoth.Analytic

open Hourly RotationRuns

variable {P : Type*} [LinearOrder P]

/-- A part in runs comes with a volume it is within. -/
def RunSplit.Within (b : RunSplit) : Prop :=
  ∀ r, b.inRunsUsd = some r → ∃ v, b.volumeUsd = some v ∧ r ≤ v

/-- Every hour the protocol has a row of holds the runs' volume. -/
def HoursHold (db : Analytics P) : Prop :=
  ∀ h row, db.protocolHourly.get? h = some row →
    (∀ v, row.usd .volume = some v → runHoursSum db h ≤ v) ∧
      (row.usd .volume = none → runHoursSum db h = 0)

namespace RunSplit

variable {db : Analytics P}

section Columns

variable {decimal : ℚ → String → Except RepositoryError ℚ}

theorem convertOptional_some {value : Option ℚ} {field : String} {v : ℚ}
    (h : convertOptional decimal value field = .ok (some v)) :
    ∃ w, value = some w ∧ decimal w field = .ok v := by
  cases value with
  | none => cases h
  | some w =>
    refine ⟨w, rfl, ?_⟩
    rw [convertOptional] at h
    cases hd : decimal w field with
    | error e =>
      rw [hd] at h
      cases h
    | ok v' =>
      rw [hd] at h
      cases h
      rfl

theorem convertOptional_of_some {w : ℚ} {field : String} {value : Option ℚ}
    (h : convertOptional decimal (some w) field = .ok value) :
    ∃ v, value = some v ∧ decimal w field = .ok v := by
  rw [convertOptional] at h
  cases hd : decimal w field with
  | error e =>
    rw [hd] at h
    cases h
  | ok v =>
    rw [hd] at h
    cases h
    exact ⟨v, rfl, rfl⟩

/-- Numbers read in order stay in order. -/
theorem Within.tryFrom (hdecimal : ∀ a b f g a' b', a ≤ b → decimal a f = .ok a' →
      decimal b g = .ok b' → a' ≤ b') {row bar : RunSplit} (h : row.Within)
    (hbar : RunSplit.tryFrom decimal row = .ok bar) : bar.Within := by
  rw [RunSplit.tryFrom] at hbar
  obtain ⟨volume, hvolume, hbar⟩ := bind_eq_ok hbar
  obtain ⟨inRuns, hinRuns, hbar⟩ := bind_eq_ok hbar
  cases hbar
  intro r hr
  obtain rfl : inRuns = some r := hr
  obtain ⟨r', hr', hdr⟩ := convertOptional_some hinRuns
  obtain ⟨v', hv', hle⟩ := h r' hr'
  rw [hv'] at hvolume
  obtain ⟨v, rfl, hdv⟩ := convertOptional_of_some hvolume
  exact ⟨v, rfl, hdecimal r' v' _ _ r v hle hdr hdv⟩

theorem within_mapM (hdecimal : ∀ a b f g a' b', a ≤ b → decimal a f = .ok a' →
      decimal b g = .ok b' → a' ≤ b') {rows bars : List RunSplit} (h : ∀ row ∈ rows, row.Within)
    (hbars : rows.mapM (RunSplit.tryFrom decimal) = .ok bars) : ∀ bar ∈ bars, bar.Within := by
  intro bar hbar
  obtain ⟨row, hrow, hread⟩ := mem_of_mapM_ok hbars hbar
  exact (h row hrow).tryFrom hdecimal hread

end Columns

theorem runHours_getD {start asOf h : Int} (hs : start ≤ h) (ht : h < asOf) :
    (runHours db start asOf h).getD 0 = runHoursSum db h := by
  have hfilter : db.runs.hours.entries.filter
      (fun e => (start ≤ runBucket e ∧ runBucket e < asOf) ∧ runBucket e = h) =
        db.runs.hours.entries.filter (fun e => runBucket e = h) := by
    apply List.filter_congr
    intro e _
    rw [decide_eq_decide, and_iff_right_iff_imp]
    rintro rfl
    exact ⟨hs, ht⟩
  rw [runHours, sumOption_getD, hfilter, List.map_map, runHoursSum]
  rfl

theorem hourlyRows_within (hh : HoursHold db) (period : FrozenPeriod) (runsSince : Option Int) :
    ∀ row ∈ hourlyRows db period runsSince, row.Within := by
  intro row hrow
  obtain ⟨e, he, rfl⟩ := List.mem_map.mp hrow
  obtain ⟨he, hperiod⟩ := List.mem_filter.mp he
  have hperiod : max period.from_ period.coveredSince ≤ e.1 ∧ e.1 < period.asOf :=
    of_decide_eq_true hperiod
  intro r hr
  dsimp only at hr ⊢
  split_ifs at hr with hmeasured
  obtain ⟨v, hv⟩ := Option.isSome_iff_exists.mp hmeasured.2
  rw [runHours_getD (le_of_max_le_left hperiod.1) hperiod.2, Option.some.injEq] at hr
  exact ⟨v, hv, hr ▸ (hh e.1 e.2 (OrdMap.get?_eq_some.mpr he)).1 v hv⟩

/-- In an hour with a volume, the runs are within it. -/
theorem bucketHours_le (hh : HoursHold db) {period : FrozenPeriod} {width start : Int}
    {h : BucketHour} (hmem : h ∈ bucketHours db period width start) (hsome : h.volumeUsd.isSome) :
    h.inRunsUsd.getD 0 ≤ h.volumeUsd.getD 0 := by
  obtain ⟨e, he, rfl⟩ := List.mem_map.mp hmem
  obtain ⟨he, hperiod⟩ := List.mem_filter.mp he
  have hperiod : (period.from_ ≤ e.1 ∧ e.1 < period.asOf) ∧ _ := of_decide_eq_true hperiod
  obtain ⟨v, hv⟩ := Option.isSome_iff_exists.mp hsome
  change (runHours db period.from_ period.asOf e.1).getD 0 ≤ (e.2.usd .volume).getD 0
  change e.2.usd .volume = some v at hv
  rw [runHours_getD hperiod.1.1 hperiod.1.2, hv]
  exact (hh e.1 e.2 (OrdMap.get?_eq_some.mpr he)).1 v hv

theorem bucketHours_ne_nil {period : FrozenPeriod} {width start : Int}
    (h : start ∈ bucketStarts db period width) : bucketHours db period width start ≠ [] := by
  obtain ⟨hmem, -⟩ := List.mem_filter.mp (List.mem_dedup.mp h)
  obtain ⟨e, he, rfl⟩ := List.mem_map.mp hmem
  obtain ⟨he, hperiod⟩ := List.mem_filter.mp he
  rw [bucketHours, ne_eq, List.map_eq_nil_iff, List.filter_eq_nil_iff]
  intro hnone
  exact hnone e he (decide_eq_true ⟨of_decide_eq_true hperiod, rfl⟩)

theorem bucketRows_within (hh : HoursHold db) (period : FrozenPeriod) (width : Int)
    (runsSince : Option Int) : ∀ row ∈ bucketRows db period width runsSince, row.Within := by
  intro row hrow
  obtain ⟨start, hstart, rfl⟩ := List.mem_map.mp hrow
  have hne := bucketHours_ne_nil ((List.mem_insertionSort _).mp hstart)
  intro r hr
  dsimp only at hr ⊢
  split_ifs at hr with hmeasured
  have hall : ∀ h ∈ bucketHours db period width start, h.volumeUsd.isSome :=
    List.all_eq_true.mp hmeasured.2
  obtain ⟨h₀, hh₀⟩ := List.exists_mem_of_ne_nil _ hne
  have hany : ((bucketHours db period width start).map BucketHour.volumeUsd).any
      Option.isSome := List.any_eq_true.mpr ⟨_, List.mem_map_of_mem hh₀, hall h₀ hh₀⟩
  have hvolume : ∃ v, sumOption ((bucketHours db period width start).map
      BucketHour.volumeUsd) = some v := by
    rw [sumOption, if_pos hany]
    exact ⟨_, rfl⟩
  obtain ⟨v, hv⟩ := hvolume
  refine ⟨v, hv, ?_⟩
  rw [← Option.some.inj hr, sumOption_getD, sumOption_eq_some hv, List.map_map, List.map_map]
  apply List.sum_le_sum
  intro h hmem
  exact bucketHours_le hh hmem (hall h hmem)

section Tranches

variable {through : Int}

/-- Whether a run's valued facts of the period hold `f`. -/
def inRun (period : TranchePeriod) (e : (P ×ₗ Int) × RotationRun) (f : PoolFact P) : Bool :=
  f.pool = (ofLex e.1).1 ∧ f.valued ∧ max (ofLex e.1).2 period.from_ ≤ f.bucket ∧
    f.bucket < min e.2.endedAt period.asOf

theorem runFacts_eq (period : TranchePeriod) (t : Int) (e : (P ×ₗ Int) × RotationRun) :
    runFacts db period t e = (bucketFacts db period t).filter (inRun period e) := by
  rw [runFacts, bucketFacts, List.filter_filter]
  apply List.filter_congr
  intro f _
  rw [inRun, ← Bool.decide_and, decide_eq_decide]
  constructor
  · rintro ⟨hpool, hvalued, hmax, hmin, ht⟩
    exact ⟨⟨hpool, hvalued, hmax, hmin⟩,
      ⟨le_of_max_le_right hmax, lt_of_lt_of_le hmin (min_le_right _ _)⟩, ht⟩
  · rintro ⟨⟨hpool, hvalued, hmax, hmin⟩, -, ht⟩
    exact ⟨hpool, hvalued, hmax, hmin, ht⟩

/-- A fact in a run's bounds is covered by its island. -/
theorem inRun_covers (hw : Written db.facts through) (hd : Drawn db.facts through db.runs)
    {period : TranchePeriod} {e : (P ×ₗ Int) × RotationRun} (he : e ∈ db.runs.runs.entries)
    {f : PoolFact P} (hf : f ∈ db.facts) (hin : inRun period e f) :
    ∃ i : Island P, i.In db.facts ∧ i.key = e.1 ∧ i.Covers f := by
  obtain ⟨i, hi, hkey, hrun⟩ := (hd.runs e.1 e.2).mp (OrdMap.get?_eq_some.mpr he)
  obtain ⟨hpool, -, hmax, hmin⟩ := of_decide_eq_true hin
  have hpool' : (ofLex e.1).1 = i.pool := by rw [← hkey]; rfl
  have hstart : (ofLex e.1).2 = i.startedAt := by rw [← hkey]; rfl
  have hend : e.2.endedAt = i.last + tranche := by rw [← hrun]; rfl
  obtain ⟨g, hg, -, -, hlast⟩ := hi.last_marked
  have hgmod := hw.aligned g hg
  have hfmod := hw.aligned f hf
  refine ⟨i, hi, hkey, hpool.trans hpool', ?_, ?_⟩
  · have := le_of_max_le_left hmax
    omega
  · have hlt := lt_of_lt_of_le hmin (min_le_left _ _)
    simp only [tranche_eq] at *
    omega

/-- The runs share no fact, so what they hold of a tranche is within it. -/
theorem runFacts_sum_le (hw : Written db.facts through) (hd : Drawn db.facts through db.runs)
    (hn : ∀ f ∈ db.facts, 0 ≤ f.volume) (period : TranchePeriod) (t : Int) :
    (((periodRuns db period).flatMap (runFacts db period t)).map PoolFact.volume).sum ≤
      ((bucketFacts db period t).map PoolFact.volume).sum := by
  have hsum : (((periodRuns db period).flatMap (runFacts db period t)).map PoolFact.volume).sum =
      ((periodRuns db period).map (fun e =>
        (((bucketFacts db period t).filter (inRun period e)).map PoolFact.volume).sum)).sum := by
    rw [List.map_flatMap, List.flatMap, List.sum_flatten, List.map_map]
    simp only [Function.comp_def, runFacts_eq]
  rw [hsum]
  apply sum_disjoint_le
  · intro f hf
    have hf := (List.mem_filter.mp hf).1
    apply OrdMap.countP_le_one (db.runs.runs.filter
      (fun e => (ofLex e.1).2 < period.asOf ∧ period.from_ < e.2.endedAt))
    intro a ha b hb hpa hpb
    obtain ⟨i, hi, hkey, hpool, hstart, hlast⟩ :=
      inRun_covers hw hd (OrdMap.mem_filter.mp ha).1 hf hpa
    obtain ⟨j, hj, hkey', hpool', hstart', hlast'⟩ :=
      inRun_covers hw hd (OrdMap.mem_filter.mp hb).1 hf hpb
    rw [← hkey, ← hkey', hi.eq_of_meet hj (hpool.symm.trans hpool') (by omega) (by omega)]
  · intro f hf
    exact hn f (List.mem_filter.mp hf).1

omit [LinearOrder P] in
theorem volumes_getD (l : List (PoolFact P)) :
    ((l.map (fun f => f.usd.map Usd.volume)).map (fun x => x.getD 0)).sum =
      (l.map PoolFact.volume).sum := by
  rw [List.map_map]
  rfl

omit [LinearOrder P] in
/-- A tranche without a fact, or with a volume, has the volume of its facts. -/
theorem tranche_volume (facts : List (PoolFact P))
    (h : facts.isEmpty ∨ (if facts.isEmpty then some 0
      else sumOption (facts.map (fun f => f.usd.map Usd.volume))).isSome) :
    (if facts.isEmpty then some 0 else sumOption (facts.map (fun f => f.usd.map Usd.volume))) =
      some (facts.map PoolFact.volume).sum := by
  by_cases hempty : facts.isEmpty
  · rw [if_pos hempty, List.isEmpty_iff.mp hempty]
    rfl
  · rw [if_neg hempty] at h ⊢
    obtain ⟨v, hv⟩ := Option.isSome_iff_exists.mp (h.resolve_left hempty)
    rw [hv, sumOption_eq_some hv, volumes_getD]

theorem trancheRows_within (hw : Written db.facts through) (hd : Drawn db.facts through db.runs)
    (hn : ∀ f ∈ db.facts, 0 ≤ f.volume) (period : TranchePeriod) (runsSince : Option Int) :
    ∀ row ∈ trancheRows db period runsSince, row.Within := by
  intro row hrow
  obtain ⟨t, -, rfl⟩ := List.mem_map.mp hrow
  intro r hr
  dsimp only at hr ⊢
  by_cases hmeasured : measured runsSince t ∧ ((bucketFacts db period t).isEmpty ∨
      (if (bucketFacts db period t).isEmpty then some 0 else sumOption
        ((bucketFacts db period t).map (fun f => f.usd.map Usd.volume))).isSome)
  · rw [if_pos hmeasured, sumOption_getD, volumes_getD, Option.some.injEq] at hr
    refine ⟨_, tranche_volume _ hmeasured.2, ?_⟩
    rw [← hr]
    exact runFacts_sum_le hw hd hn period t
  · rw [if_neg hmeasured] at hr
    cases hr

end Tranches

end RunSplit

end YogSothoth.Analytic
