import YogSothoth.Analytic.SwapFigures

namespace YogSothoth.Analytic

open Hourly
open RunSplit (timeBucket)

variable {P : Type*} [LinearOrder P] {db : SwapTables P} {period : FrozenPeriod}

namespace SwapTables

theorem hour_pos : 0 < hour := by decide

theorem Covered.hour_dvd (hdb : db.Covered period) : hour ∣ period.asOf - period.from_ := by
  have hstarts := hdb.starts
  have hends := hdb.ends
  apply Int.dvd_of_emod_eq_zero
  simp only [hour_eq] at *
  omega

theorem Covered.mem_hours (hdb : db.Covered period) {h : Int} :
    h ∈ period.buckets hour ↔ period.from_ ≤ h ∧ h < period.asOf ∧ h % hour = 0 := by
  have hends := hdb.ends
  rw [mem_buckets (by decide) hdb.hour_dvd, Int.dvd_iff_emod_eq_zero]
  simp only [hour_eq] at *
  omega

/-- A bucket of whole hours starts and ends on the hour. -/
theorem Covered.bucket_grid (hdb : db.Covered period) {width b : Int} (hhour : hour ∣ width)
    (hb : width ∣ b - period.asOf) : b % hour = 0 ∧ (b + width) % hour = 0 := by
  have hends := hdb.ends
  obtain ⟨k, hk⟩ := hhour.trans hb
  obtain ⟨n, hn⟩ := hhour
  simp only [hour_eq] at *
  omega

section Pools

variable {pool : P} {start finish : Int} {hours : List Int}

theorem mem_facts {e : (P ×ₗ Int) × FiledPoolHour} :
    e ∈ (SwapActivity.facts db period pool).entries ↔ e ∈ db.poolHourly.entries ∧
      (ofLex e.1).1 = pool ∧ period.from_ ≤ (ofLex e.1).2 ∧ (ofLex e.1).2 < period.asOf := by
  unfold SwapActivity.facts
  rw [OrdMap.mem_filter, decide_eq_true_iff]

theorem factAt_eq_some {h : Int} {r : PoolHour} :
    SwapActivity.factAt db period pool h = some r ↔ ∃ v : FiledPoolHour,
      (toLex (pool, h), v) ∈ db.poolHourly.entries ∧ period.from_ ≤ h ∧ h < period.asOf ∧
        v.toPoolHour = r := by
  unfold SwapActivity.factAt
  rw [Option.map_eq_some_iff]
  simp only [OrdMap.get?_eq_some, mem_facts]
  constructor
  · intro ⟨v, ⟨hv, _, hfrom, hasOf⟩, hr⟩
    exact ⟨v, hv, hfrom, hasOf, hr⟩
  · intro ⟨v, hv, hfrom, hasOf, hr⟩
    exact ⟨v, ⟨hv, rfl, hfrom, hasOf⟩, hr⟩

/-- The facts of the hours read are the pool's rows of their range. -/
theorem filterMap_factAt (hsorted : hours.Pairwise (· < ·)) (hfrom : period.from_ ≤ start)
    (hasOf : finish ≤ period.asOf) (hin : ∀ h ∈ hours, start ≤ h ∧ h < finish)
    (hfacts : ∀ e ∈ db.poolHourly.entries, (ofLex e.1).1 = pool → start ≤ (ofLex e.1).2 →
      (ofLex e.1).2 < finish → (ofLex e.1).2 ∈ hours) :
    hours.filterMap (SwapActivity.factAt db period pool) = db.poolRows pool start finish := by
  have hrows : hours.filterMap (fun h =>
      (SwapActivity.factAt db period pool h).map (fun r => (h, r))) =
        (db.poolHourly.entries.filter (fun e => (ofLex e.1).1 = pool ∧ start ≤ (ofLex e.1).2 ∧
          (ofLex e.1).2 < finish)).map (fun e => ((ofLex e.1).2, e.2.toPoolHour)) := by
    have hirrefl : Std.Irrefl (fun a b : Int × PoolHour => a.1 < b.1) := ⟨fun a => lt_irrefl a.1⟩
    apply List.Pairwise.eq_of_mem_iff (r := fun a b : Int × PoolHour => a.1 < b.1)
    · rw [List.pairwise_filterMap]
      apply hsorted.imp
      intro h h' hlt a ha b hb
      obtain ⟨r, -, hr⟩ := Option.map_eq_some_iff.mp ha
      obtain ⟨r', -, hr'⟩ := Option.map_eq_some_iff.mp hb
      rw [← hr, ← hr']
      exact hlt
    · rw [List.pairwise_map]
      apply (db.poolHourly.sorted.filter _).imp_of_mem
      intro e e' he he' hlt
      have hpool := (of_decide_eq_true (List.mem_filter.mp he).2).1
      have hpool' := (of_decide_eq_true (List.mem_filter.mp he').2).1
      cases (Prod.Lex.lt_iff).mp hlt with
      | inl hfirst =>
        rw [hpool, hpool'] at hfirst
        exact absurd hfirst (lt_irrefl _)
      | inr hsecond => exact hsecond.2
    · intro a
      rw [List.mem_filterMap, List.mem_map]
      constructor
      · intro ⟨h, hh, ha⟩
        obtain ⟨r, hr, hra⟩ := Option.map_eq_some_iff.mp ha
        obtain ⟨v, hv, -, -, hvr⟩ := factAt_eq_some.mp hr
        refine ⟨_, List.mem_filter.mpr ⟨hv, decide_eq_true ⟨rfl, hin h hh⟩⟩, ?_⟩
        rw [← hra, ← hvr]
        rfl
      · intro ⟨e, he, hea⟩
        obtain ⟨he, hrange⟩ := List.mem_filter.mp he
        obtain ⟨hpool, hstart, hfinish⟩ := of_decide_eq_true hrange
        refine ⟨_, hfacts e he hpool hstart hfinish, ?_⟩
        have hkey : e = (toLex (pool, (ofLex e.1).2), e.2) := by
          rw [← hpool]
          rfl
        have hfact := factAt_eq_some.mpr ⟨e.2, hkey ▸ he, hfrom.trans hstart,
          hfinish.trans_le hasOf, rfl⟩
        rw [hfact, ← hea]
        rfl
  have hsnd := congrArg (List.map Prod.snd) hrows
  rw [List.map_filterMap, List.map_map] at hsnd
  apply Eq.trans _ hsnd
  apply List.filterMap_congr
  intro h _
  rw [Option.map_map]
  exact Option.map_id'.symm

variable {since : Int}

theorem seen_eq_some (h : SwapActivity.seen db period pool = some since) :
    ∃ known : KnownPool, least (some (hourOf known.firstSeenAt))
      ((SwapActivity.facts db period pool).first?.map (fun e => (ofLex e.1).2)) = some since := by
  obtain ⟨known, -, h⟩ := Option.bind_eq_some_iff.mp h
  exact ⟨known, h⟩

/-- A pool is read from no later than its first fact. -/
theorem seen_le (h : SwapActivity.seen db period pool = some since)
    {e : (P ×ₗ Int) × FiledPoolHour} (he : e ∈ db.poolHourly.entries) (hpool : (ofLex e.1).1 = pool)
    (hfrom : period.from_ ≤ (ofLex e.1).2) (hasOf : (ofLex e.1).2 < period.asOf) :
    since ≤ (ofLex e.1).2 := by
  have hfact := mem_facts.mpr ⟨he, hpool, hfrom, hasOf⟩
  obtain ⟨known, hleast⟩ := seen_eq_some h
  cases hfirst : (SwapActivity.facts db period pool).first? with
  | none =>
    rw [OrdMap.first?_none.mp hfirst] at hfact
    cases hfact
  | some first =>
    obtain ⟨hmem, hmin⟩ := OrdMap.first?_some hfirst
    have hle := hmin e hfact
    have hsince := least_le hleast (x := (ofLex first.1).2) (.inr (by rw [hfirst]; rfl))
    apply hsince.trans
    cases (Prod.Lex.le_iff).mp hle with
    | inl hlt =>
      rw [(mem_facts.mp hmem).2.1, hpool] at hlt
      exact absurd hlt (lt_irrefl _)
    | inr hle => exact hle.2

theorem Covered.seen_grid (hdb : db.Covered period)
    (h : SwapActivity.seen db period pool = some since) : since % hour = 0 := by
  obtain ⟨known, hleast⟩ := seen_eq_some h
  cases least_mem hleast with
  | inl hseen =>
    rw [← Option.some.inj hseen]
    unfold hourOf durationTrunc
    rw [hour_eq]
    omega
  | inr hfact =>
    obtain ⟨e, he, hbucket⟩ := Option.map_eq_some_iff.mp hfact
    obtain ⟨hmem, -⟩ := OrdMap.first?_some he
    rw [← hbucket]
    exact hdb.hourly e (mem_facts.mp hmem).1

theorem Covered.seenHours_eq (hdb : db.Covered period)
    (h : SwapActivity.seen db period pool = some since) :
    SwapActivity.seenHours db period pool = (period.buckets hour).filter (since ≤ ·) := by
  have hsorted := buckets_sorted period hour_pos
  unfold SwapActivity.seenHours
  rw [h]
  apply List.Pairwise.eq_of_mem_iff (db.hours.keys_sorted.filter _) (hsorted.filter _)
  intro t
  have hany : (some since).any (· ≤ t) = true ↔ since ≤ t := decide_eq_true_iff
  rw [List.mem_filter, List.mem_filter, hdb.mem_hours, decide_eq_true_iff, decide_eq_true_iff, hany]
  constructor
  · intro ⟨hkey, hseen, hfrom, hasOf⟩
    exact ⟨⟨hfrom, hasOf, (hdb.recorded t hfrom hasOf).mp hkey⟩, hseen⟩
  · intro ⟨⟨hfrom, hasOf, hgrid⟩, hseen⟩
    exact ⟨(hdb.recorded t hfrom hasOf).mpr hgrid, hseen, hfrom, hasOf⟩

/-- The facts of the hours read from `start` to `finish`, as the pool's rows. -/
theorem Covered.seen_rows (hdb : db.Covered period)
    (h : SwapActivity.seen db period pool = some since) (hfrom : period.from_ ≤ start)
    (hasOf : finish ≤ period.asOf) {p : Int → Bool}
    (hp : ∀ t ∈ period.buckets hour, since ≤ t → (p t ↔ start ≤ t ∧ t < finish)) :
    ((SwapActivity.seenHours db period pool).filter p).filterMap
      (SwapActivity.factAt db period pool) = db.poolRows pool start finish := by
  rw [hdb.seenHours_eq h]
  have hsorted := buckets_sorted period hour_pos
  apply filterMap_factAt ((hsorted.filter _).filter _) hfrom hasOf
  · intro t ht
    obtain ⟨ht, hpt⟩ := List.mem_filter.mp ht
    obtain ⟨ht, hseen⟩ := List.mem_filter.mp ht
    exact (hp t ht (of_decide_eq_true hseen)).mp hpt
  · intro e he hpool hstart hfinish
    have hbefore := hfinish.trans_le hasOf
    have hafter := hfrom.trans hstart
    have hmem := hdb.mem_hours.mpr ⟨hafter, hbefore, hdb.hourly e he⟩
    have hle := seen_le h he hpool hafter hbefore
    apply List.mem_filter.mpr
    exact ⟨List.mem_filter.mpr ⟨hmem, decide_eq_true hle⟩, (hp _ hmem hle).mpr ⟨hstart, hfinish⟩⟩

/-- What is read of a pool over the period, an hour or a bucket folds the pool-hours of it. -/
theorem Covered.poolTotals_eq (hdb : db.Covered period)
    (h : SwapActivity.seen db period pool = some since) : SwapActivity.poolTotals db period pool =
      if since < period.asOf
        then some (SwapActivity.sumFacts (db.poolRows pool period.from_ period.asOf)) else none := by
  have hrows := hdb.seen_rows h (p := fun _ => true) (le_refl period.from_) (le_refl period.asOf) (by
    intro t ht _
    obtain ⟨hfrom, hasOf, -⟩ := hdb.mem_hours.mp ht
    simp [hfrom, hasOf])
  rw [List.filter_true] at hrows
  have hempty : (SwapActivity.seenHours db period pool).length = 0 ↔ ¬ since < period.asOf := by
    rw [List.length_eq_zero_iff, hdb.seenHours_eq h, List.filter_eq_nil_iff]
    have hgrid := hdb.seen_grid h
    have hends := hdb.ends
    have hpositive := hdb.positive
    have hstarts := hdb.starts
    constructor
    · intro hnone hlt
      have hlast : period.asOf - hour ∈ period.buckets hour := by
        rw [hdb.mem_hours]
        simp only [hour_eq] at *
        omega
      apply hnone _ hlast
      rw [decide_eq_true_iff]
      simp only [hour_eq] at *
      omega
    · intro hlt t ht hseen
      have hasOf := (hdb.mem_hours.mp ht).2.1
      have hseen := of_decide_eq_true hseen
      omega
  simp only [SwapActivity.poolTotals, hrows, hempty]
  split_ifs
  · rfl
  · rfl

theorem Covered.poolHourly_eq (hdb : db.Covered period)
    (h : SwapActivity.seen db period pool = some since) :
    SwapActivity.poolHourlyRows db period pool = ((period.buckets hour).filter (since ≤ ·)).map
      (fun t => ⟨t, SwapActivity.sumFacts (db.poolRows pool t (t + hour))⟩) := by
  have hcovered : period.coveredSince ≤ period.from_ := of_decide_eq_true hdb.covered
  have hkept : SwapActivity.poolHourlyRows db period pool =
      (SwapActivity.seenHours db period pool).map
        (fun t => ⟨t, SwapActivity.ofFact (SwapActivity.factAt db period pool t)⟩) := by
    unfold SwapActivity.poolHourlyRows SwapActivity.seenHours
    rw [max_eq_left hcovered]
  rw [hkept, ← hdb.seenHours_eq h]
  apply List.map_congr_left
  intro t ht
  rw [hdb.seenHours_eq h] at ht
  obtain ⟨ht, hseen⟩ := List.mem_filter.mp ht
  obtain ⟨hfrom, hasOf, hgrid⟩ := hdb.mem_hours.mp ht
  have hends := hdb.ends
  have hend : t + hour ≤ period.asOf := by
    simp only [hour_eq] at *
    omega
  have hrow : db.poolRows pool t (t + hour) = [t].filterMap (SwapActivity.factAt db period pool) := by
    apply (filterMap_factAt (List.pairwise_singleton _ _) hfrom hend ?_ ?_).symm
    · intro t' ht'
      rw [List.mem_singleton.mp ht']
      simp only [hour_eq] at *
      omega
    · intro e he _ hstart hfinish
      have hbucket := hdb.hourly e he
      rw [List.mem_singleton]
      simp only [hour_eq] at *
      omega
  rw [ofFact_eq, hrow]
  congr 2

theorem Covered.poolBuckets_eq (hdb : db.Covered period)
    (h : SwapActivity.seen db period pool = some since) {width : Int} (hwidth : 0 < width)
    (hhour : hour ∣ width) (hdvd : width ∣ period.asOf - period.from_) :
    SwapActivity.poolBuckets db period width pool =
      ((period.buckets width).filter (fun b => since < b + width)).map
        (fun b => ⟨b, SwapActivity.sumFacts (db.poolRows pool b (b + width))⟩) := by
  have hcovered : period.coveredSince ≤ period.from_ := of_decide_eq_true hdb.covered
  have hle := Int.le_of_dvd hwidth hhour
  have hkept : (SwapActivity.seenHours db period pool).filter
      (fun t => period.coveredSince ≤ timeBucket width t period.asOf) =
        SwapActivity.seenHours db period pool := by
    apply List.filter_eq_self.mpr
    intro t ht
    rw [hdb.seenHours_eq h] at ht
    obtain ⟨hfrom, hasOf, -⟩ := hdb.mem_hours.mp (List.mem_filter.mp ht).1
    have hbucket := (mem_buckets hwidth hdvd).mp (timeBucket_mem hwidth hdvd hfrom hasOf)
    exact decide_eq_true (hcovered.trans hbucket.1)
  unfold SwapActivity.poolBuckets
  simp only [hkept]
  rw [sorted_eq_buckets (p := fun b => since < b + width) hwidth]
  · apply List.map_congr_left
    intro b hb
    obtain ⟨hfrom, hasOf, hgrid⟩ := (mem_buckets hwidth hdvd).mp (List.mem_filter.mp hb).1
    congr 2
    apply hdb.seen_rows h hfrom hasOf
    intro t _ _
    rw [decide_eq_true_iff, timeBucket_eq_iff hwidth]
    exact ⟨fun hin => ⟨hin.1, hin.2.1⟩, fun hin => ⟨hin.1, hin.2, hgrid⟩⟩
  · intro b
    rw [List.mem_map, hdb.seenHours_eq h]
    constructor
    · intro ⟨t, ht, htb⟩
      obtain ⟨ht, hseen⟩ := List.mem_filter.mp ht
      obtain ⟨hfrom, hasOf, -⟩ := hdb.mem_hours.mp ht
      have hseen := of_decide_eq_true hseen
      have hin := ((timeBucket_eq_iff hwidth).mp htb).2.1
      rw [← htb]
      refine ⟨timeBucket_mem hwidth hdvd hfrom hasOf, decide_eq_true ?_⟩
      rw [htb]
      omega
    · intro ⟨hb, hseen⟩
      obtain ⟨hfrom, hasOf, hgrid⟩ := (mem_buckets hwidth hdvd).mp hb
      have hseen := of_decide_eq_true hseen
      have hsince := hdb.seen_grid h
      have hend := (hdb.bucket_grid hhour hgrid).2
      refine ⟨b + width - hour, List.mem_filter.mpr ⟨hdb.mem_hours.mpr ?_, decide_eq_true ?_⟩, ?_⟩
      · simp only [hour_eq] at *
        omega
      · simp only [hour_eq] at *
        omega
      · rw [timeBucket_eq_iff hwidth]
        refine ⟨?_, ?_, hgrid⟩
        · omega
        · simp only [hour_eq] at *
          omega

end Pools

section Protocols

variable {protocol : Protocol} {filter : Option Protocol}

theorem mem_protocols (hfilter : filter.all (· = protocol)) :
    protocol ∈ SwapActivity.protocols filter := by
  apply List.mem_filter.mpr
  refine ⟨?_, hfilter⟩
  cases protocol with
  | meteoraDammV2 => exact List.mem_cons_self
  | meteoraDlmm => exact List.mem_cons_of_mem _ List.mem_cons_self

/-- Of a row a protocol, those of one the filter keeps. -/
theorem protocols_filter {A : Type*} {f : Protocol → Option A} {key : A → Protocol}
    (hkey : ∀ q a, f q = some a → key a = q) (hfilter : filter.all (· = protocol)) :
    ((SwapActivity.protocols filter).filterMap f).filter (fun a => key a = protocol) =
      (f protocol).toList := by
  have hone (q : Protocol) : (f q).toList.filter (fun a => key a = protocol) =
      if q = protocol then (f protocol).toList else [] := by
    split_ifs with hq
    · rw [hq]
      apply List.filter_eq_self.mpr
      intro a ha
      exact decide_eq_true (hkey _ a (Option.mem_toList.mp ha))
    · apply List.filter_eq_nil_iff.mpr
      intro a ha hp
      exact hq ((hkey q a (Option.mem_toList.mp ha)).symm.trans (of_decide_eq_true hp))
  have hlist (l : List Protocol) : (l.filterMap f).filter (fun a => key a = protocol) =
      l.flatMap (fun q => if q = protocol then (f protocol).toList else []) := by
    induction l with
    | nil => rfl
    | cons q l ih =>
      rw [List.flatMap_cons, ← hone, ← ih, ← List.filter_append]
      congr 1
      cases hq : f q with
      | none => simp [hq]
      | some a => simp [hq]
  rw [hlist]
  cases filter with
  | none =>
    cases protocol with
    | meteoraDammV2 => simp [SwapActivity.protocols]
    | meteoraDlmm => simp [SwapActivity.protocols]
  | some q =>
    have hq : q = protocol := of_decide_eq_true hfilter
    rw [hq]
    cases protocol with
    | meteoraDammV2 => simp [SwapActivity.protocols]
    | meteoraDlmm => simp [SwapActivity.protocols]

/-- The buckets of a protocol, where its rows are those of the period's buckets. -/
theorem bucketRows_eq {width : Int} (hwidth : 0 < width) (hfilter : filter.all (· = protocol))
    {starts : List Int} {read : Protocol → Int → Option SwapActivity} {row : Int → SwapActivity}
    (hstarts : ∀ b ∈ period.buckets width, b ∈ starts)
    (hread : ∀ b ∈ starts, ∀ a, read protocol b = some a ↔ b ∈ period.buckets width ∧ a = row b) :
    (SwapActivity.bucketRows starts filter read).filter (fun r => r.protocol = protocol) =
      (period.buckets width).map (fun b => ⟨protocol, b, row b⟩) := by
  have hone (b : Int) : ((SwapActivity.protocols filter).filterMap (fun q =>
      (read q b).map (fun a => ProtocolBucket.mk q b a))).filter
        (fun r => r.protocol = protocol) =
          ((read protocol b).map (fun a => ProtocolBucket.mk protocol b a)).toList := by
    apply protocols_filter _ hfilter
    intro q a ha
    obtain ⟨v, -, hv⟩ := Option.map_eq_some_iff.mp ha
    rw [← hv]
  have hsorted := buckets_sorted period hwidth
  have hstart := (List.pairwise_insertionSort (· ≤ ·) starts.dedup).and
    (((List.perm_insertionSort (· ≤ ·) _).nodup_iff).mpr (List.nodup_dedup starts))
  have hmem (b : Int) : b ∈ starts.dedup.insertionSort (· ≤ ·) ↔ b ∈ starts := by
    rw [List.mem_insertionSort, List.mem_dedup]
  have hirrefl : Std.Irrefl (fun a b : ProtocolBucket => a.from_ < b.from_) :=
    ⟨fun a => lt_irrefl a.from_⟩
  unfold SwapActivity.bucketRows
  rw [List.filter_flatMap]
  simp only [hone]
  rw [← List.filterMap_eq_flatMap_toList]
  apply List.Pairwise.eq_of_mem_iff (r := fun a b : ProtocolBucket => a.from_ < b.from_)
  · rw [List.pairwise_filterMap]
    apply hstart.imp
    intro b b' hb a ha a' ha'
    obtain ⟨v, -, hv⟩ := Option.map_eq_some_iff.mp ha
    obtain ⟨v', -, hv'⟩ := Option.map_eq_some_iff.mp ha'
    rw [← hv, ← hv']
    exact lt_of_le_of_ne hb.1 hb.2
  · rw [List.pairwise_map]
    exact hsorted
  · intro r
    rw [List.mem_filterMap, List.mem_map]
    constructor
    · intro ⟨b, hb, hr⟩
      obtain ⟨a, ha, har⟩ := Option.map_eq_some_iff.mp hr
      obtain ⟨hgrid, hrow⟩ := (hread b ((hmem b).mp hb) a).mp ha
      rw [← har, hrow]
      exact ⟨b, hgrid, rfl⟩
    · intro ⟨b, hb, hr⟩
      have hin := hstarts b hb
      refine ⟨b, (hmem b).mpr hin, ?_⟩
      rw [(hread b hin (row b)).mpr ⟨hb, rfl⟩, ← hr]
      rfl

/-- The sums of some hours of a protocol. -/
def hourRow (db : SwapTables P) (protocol : Protocol) (h : Int) : ProtocolHour :=
  protocolHour (db.protocolRows protocol h (h + hour))

theorem Covered.summed_row (hdb : db.Covered period) (hsummed : db.Summed period protocol) {h : Int}
    (hfrom : period.from_ ≤ h) (hasOf : h < period.asOf) {row : ProtocolHour} :
    (h, row) ∈ (db.protocolHourly protocol).entries ↔
      h ∈ period.buckets hour ∧ row = db.hourRow protocol h := by
  rw [← OrdMap.get?_eq_some, hsummed h hfrom hasOf, hdb.mem_hours]
  constructor
  · intro ⟨hgrid, hrow⟩
    rw [hdb.hourPools_eq hgrid] at hrow
    exact ⟨⟨hfrom, hasOf, hgrid⟩, hrow⟩
  · intro ⟨hin, hrow⟩
    refine ⟨hin.2.2, ?_⟩
    rw [hdb.hourPools_eq hin.2.2]
    exact hrow

/-- A protocol's rows of the period are its hours'. -/
theorem Covered.periodHours_eq (hdb : db.Covered period) (hsummed : db.Summed period protocol) :
    SwapActivity.periodHours db period protocol =
      (period.buckets hour).map (fun h => (h, db.hourRow protocol h)) := by
  have hirrefl : Std.Irrefl (fun a b : Int × ProtocolHour => a.1 < b.1) := ⟨fun a => lt_irrefl a.1⟩
  unfold SwapActivity.periodHours
  apply ((db.protocolHourly protocol).sorted.filter _).eq_of_mem_iff
  · rw [List.pairwise_map]
    exact buckets_sorted period hour_pos
  · intro e
    rw [List.mem_filter, List.mem_map, decide_eq_true_iff]
    constructor
    · intro ⟨he, hfrom, hasOf⟩
      obtain ⟨hin, hrow⟩ := (hdb.summed_row hsummed hfrom hasOf).mp he
      exact ⟨e.1, hin, Prod.ext rfl hrow.symm⟩
    · intro ⟨h, hh, he⟩
      obtain ⟨hfrom, hasOf, -⟩ := hdb.mem_hours.mp hh
      rw [← he]
      exact ⟨(hdb.summed_row hsummed hfrom hasOf).mpr ⟨hh, rfl⟩, hfrom, hasOf⟩

theorem Covered.hours_ne_nil (hdb : db.Covered period) : period.buckets hour ≠ [] := by
  apply List.ne_nil_of_mem (a := period.from_)
  exact hdb.mem_hours.mpr ⟨le_refl _, hdb.positive, hdb.starts⟩

/-- The hours of a bucket. -/
def bucketHours (period : FrozenPeriod) (width b : Int) : List Int :=
  (period.buckets hour).filter (fun h => b ≤ h ∧ h < b + width)

theorem Covered.mem_bucketHours (hdb : db.Covered period) {width b h : Int}
    (hfrom : period.from_ ≤ b) (hasOf : b + width ≤ period.asOf) :
    h ∈ bucketHours period width b ↔ b ≤ h ∧ h < b + width ∧ h % hour = 0 := by
  unfold bucketHours
  rw [List.mem_filter, hdb.mem_hours, decide_eq_true_iff]
  omega

theorem Covered.protocolTotals_eq (hdb : db.Covered period) (hsummed : db.Summed period protocol)
    (hfilter : filter.all (· = protocol)) (window : Window) :
    (SwapActivity.protocolTotals db period window filter).filter
        (fun r => r.protocol = protocol) =
      [⟨protocol, SwapActivity.sumHours ((period.buckets hour).map (db.hourRow protocol)),
        (db.protocolPeriods protocol window).get? period.lastHour⟩] := by
  unfold SwapActivity.protocolTotals
  rw [protocols_filter _ hfilter]
  · rw [hdb.periodHours_eq hsummed]
    have hne := hdb.hours_ne_nil
    simp only [List.isEmpty_map, List.map_map]
    rw [if_neg (by rwa [List.isEmpty_iff])]
    rfl
  · intro q a ha
    simp only at ha
    split_ifs at ha
    rw [← Option.some.inj ha]

theorem Covered.protocolHourly_eq (hdb : db.Covered period) (hsummed : db.Summed period protocol)
    (hfilter : filter.all (· = protocol)) :
    (SwapActivity.protocolHourlyRows db period filter).filter (fun r => r.protocol = protocol) =
      (period.buckets hour).map (fun h =>
        ⟨protocol, h, SwapActivity.ofHour (db.hourRow protocol h)⟩) := by
  have hcovered : period.coveredSince ≤ period.from_ := of_decide_eq_true hdb.covered
  have hkept := mem_protocols hfilter
  apply bucketRows_eq hour_pos hfilter
  · intro h hh
    obtain ⟨hfrom, hasOf, -⟩ := hdb.mem_hours.mp hh
    have hmem := (hdb.summed_row hsummed hfrom hasOf).mpr ⟨hh, rfl⟩
    apply List.mem_flatMap.mpr
    refine ⟨protocol, hkept, List.mem_filter.mpr ⟨List.mem_map_of_mem hmem, ?_⟩⟩
    exact decide_eq_true ⟨max_le hfrom (hcovered.trans hfrom), hasOf⟩
  · intro h hh a
    obtain ⟨q, -, hq⟩ := List.mem_flatMap.mp hh
    obtain ⟨hfrom, hasOf⟩ := of_decide_eq_true (List.mem_filter.mp hq).2
    have hfrom := le_of_max_le_left hfrom
    rw [Option.map_eq_some_iff]
    simp only [OrdMap.get?_eq_some, hdb.summed_row hsummed hfrom hasOf]
    constructor
    · intro ⟨row, ⟨hin, hrow⟩, ha⟩
      rw [← ha, hrow]
      exact ⟨hin, rfl⟩
    · intro ⟨hin, ha⟩
      exact ⟨_, ⟨hin, rfl⟩, ha.symm⟩

theorem Covered.protocolBuckets_eq (hdb : db.Covered period) (hsummed : db.Summed period protocol)
    (hfilter : filter.all (· = protocol)) {width : Int} (hwidth : 0 < width) (hhour : hour ∣ width)
    (hdvd : width ∣ period.asOf - period.from_) :
    (SwapActivity.protocolBuckets db period width filter).filter
        (fun r => r.protocol = protocol) =
      (period.buckets width).map (fun b => ⟨protocol, b,
        SwapActivity.sumHours ((bucketHours period width b).map (db.hourRow protocol))⟩) := by
  have hcovered : period.coveredSince ≤ period.from_ := of_decide_eq_true hdb.covered
  have hkept := mem_protocols hfilter
  have hstart {b : Int} (hb : b ∈ period.buckets width) : b ∈ bucketHours period width b := by
    obtain ⟨hfrom, hasOf, hgrid⟩ := (mem_buckets hwidth hdvd).mp hb
    rw [hdb.mem_bucketHours hfrom hasOf]
    exact ⟨le_refl b, by omega, (hdb.bucket_grid hhour hgrid).1⟩
  have hhours {b : Int} (hb : b ∈ period.buckets width) :
      (SwapActivity.periodHours db period protocol).filter
        (fun e => timeBucket width e.1 period.asOf = b) =
          (bucketHours period width b).map (fun h => (h, db.hourRow protocol h)) := by
    have hgrid := ((mem_buckets hwidth hdvd).mp hb).2.2
    rw [hdb.periodHours_eq hsummed, List.filter_map]
    congr 1
    apply List.filter_congr
    intro h _
    change decide (timeBucket width h period.asOf = b) = _
    rw [decide_eq_decide, timeBucket_eq_iff hwidth]
    exact ⟨fun hin => ⟨hin.1, hin.2.1⟩, fun hin => ⟨hin.1, hin.2, hgrid⟩⟩
  apply bucketRows_eq hwidth hfilter
  · intro b hb
    obtain ⟨hfrom, hasOf, hgrid⟩ := (mem_buckets hwidth hdvd).mp hb
    apply List.mem_filter.mpr
    refine ⟨List.mem_flatMap.mpr ⟨protocol, hkept, ?_⟩, decide_eq_true (hcovered.trans hfrom)⟩
    rw [hdb.periodHours_eq hsummed, List.map_map]
    refine List.mem_map.mpr ⟨b, (List.mem_filter.mp (hstart hb)).1, ?_⟩
    exact (timeBucket_eq_iff hwidth).mpr ⟨le_refl b, lt_add_of_pos_right b hwidth, hgrid⟩
  · intro b hb a
    obtain ⟨hb, -⟩ := List.mem_filter.mp hb
    obtain ⟨q, -, hb⟩ := List.mem_flatMap.mp hb
    obtain ⟨e, he, heb⟩ := List.mem_map.mp hb
    obtain ⟨hfrom, hasOf⟩ := of_decide_eq_true (List.mem_filter.mp he).2
    have hin := timeBucket_mem hwidth hdvd hfrom hasOf
    rw [heb] at hin
    have hne : bucketHours period width b ≠ [] := List.ne_nil_of_mem (hstart hin)
    simp only [hhours hin, List.isEmpty_map, List.map_map]
    rw [if_neg (by rwa [List.isEmpty_iff])]
    constructor
    · intro ha
      exact ⟨hin, (Option.some.inj ha).symm⟩
    · intro ⟨_, ha⟩
      rw [ha]
      rfl

end Protocols

end SwapTables

end YogSothoth.Analytic
