import YogSothoth.Analytic.SwapReads

namespace YogSothoth.Analytic

open Hourly

variable {P : Type*} [LinearOrder P]

/-- The protocol hours that cycles write from the pool hours, each from its first hour through its
last. -/
def writtenHourly (pools : OrdMap (P ×ₗ Int) FiledPoolHour) (cycles : List (Int × Int)) :
    Protocol → OrdMap Int ProtocolHour :=
  cycles.foldl (fun hourly c => upsertProtocolHourly hourly pools c.1 c.2) (fun _ => ∅)

namespace SwapTables

/-- The protocol hours are those some cycles wrote, every hour of the period among them. -/
def WrittenHours (db : SwapTables P) (period : FrozenPeriod) : Prop :=
  ∃ cycles : List (Int × Int), (∀ c ∈ cycles, c.1 % hour = 0) ∧
    db.protocolHourly = writtenHourly db.poolHourly cycles ∧
    ∀ h, period.from_ ≤ h → h < period.asOf → h % hour = 0 → ∃ c ∈ cycles, c.1 ≤ h ∧ h ≤ c.2

variable {db : SwapTables P} {period : FrozenPeriod} {protocol : Protocol}

theorem get?_foldl_upsert (hmeasured : protocol ∈ MEASURED)
    (pools : OrdMap (P ×ₗ Int) FiledPoolHour) {cycles : List (Int × Int)}
    (hcycles : ∀ c ∈ cycles, c.1 % hour = 0) (hourly : Protocol → OrdMap Int ProtocolHour) (h : Int) :
    (cycles.foldl (fun hourly c => upsertProtocolHourly hourly pools c.1 c.2) hourly
        protocol).get? h =
      if (∃ c ∈ cycles, c.1 ≤ h ∧ h ≤ c.2) ∧ h % hour = 0
        then some (protocolHour (hourPools (ofProtocol pools protocol) h))
        else (hourly protocol).get? h := by
  induction cycles generalizing hourly with
  | nil =>
    rw [if_neg (by simp)]
    rfl
  | cons c cycles ih =>
    have hstart := hcycles c List.mem_cons_self
    have hrest := ih (fun c hc => hcycles c (List.mem_cons_of_mem _ hc))
      (upsertProtocolHourly hourly pools c.1 c.2)
    have hupsert : (upsertProtocolHourly hourly pools c.1 c.2 protocol).get? h =
        if c.1 ≤ h ∧ h ≤ c.2 ∧ h % hour = 0
          then some (protocolHour (hourPools (ofProtocol pools protocol) h))
          else (hourly protocol).get? h := by
      unfold upsertProtocolHourly
      rw [if_pos hmeasured]
      exact get?_upsertProtocolHourly hstart _ _ h
    rw [List.foldl_cons, hrest, hupsert]
    simp only [List.exists_mem_cons_iff]
    by_cases hc : c.1 ≤ h ∧ h ≤ c.2
    · by_cases hgrid : h % hour = 0
      · simp [hc, hgrid]
      · simp [hgrid]
    · simp only [hc, false_or]
      split_ifs with hlater hnow
      · rfl
      · exact absurd ⟨hnow.1, hnow.2.1⟩ hc
      · rfl

theorem WrittenHours.summed (h : db.WrittenHours period) (hmeasured : protocol ∈ MEASURED) :
    db.Summed period protocol := by
  obtain ⟨cycles, hcycles, hhourly, hcover⟩ := h
  intro t hfrom hasOf row
  rw [hhourly]
  unfold writtenHourly
  rw [get?_foldl_upsert hmeasured db.poolHourly hcycles]
  by_cases hgrid : t % hour = 0
  · rw [if_pos ⟨hcover t hfrom hasOf hgrid, hgrid⟩]
    simp only [Option.some.injEq, hgrid, true_and]
    exact eq_comm
  · rw [if_neg (fun hboth => hgrid hboth.2)]
    simp [hgrid]

end SwapTables

variable (decimal : ℚ → String → Except RepositoryError ℚ)

/-- What is read of a protocol: a row a whole period, an hour and a bucket. An hour's folds its
pool-hours; the others' do unless they hide pool-hours not valued behind an hour without any. -/
structure ProtocolFigures (db : SwapTables P) (period : FrozenPeriod) (width : Int)
    (protocol : Protocol) (filter : Option Protocol) (window : Window) : Prop where
  totals : ∀ rows, SwapActivity.findProtocolTotals decimal db period window filter = .ok rows →
    ∃ row, rows.filter (fun r => r.protocol = protocol) = [row] ∧
      (Folds decimal (db.protocolRows protocol period.from_ period.asOf) row.activity ↔
        ¬ db.HidesUnvalued protocol period.from_ period.asOf)
  hourly : ∀ rows, SwapActivity.listProtocolHourly decimal db period filter = .ok rows →
    (rows.filter (fun r => r.protocol = protocol)).map ProtocolBucket.from_ =
        period.buckets hour ∧
      ∀ row ∈ rows, row.protocol = protocol →
        Folds decimal (db.protocolRows protocol row.from_ (row.from_ + hour)) row.value
  buckets : ∀ rows, SwapActivity.listProtocolBuckets decimal db period width filter = .ok rows →
    (rows.filter (fun r => r.protocol = protocol)).map ProtocolBucket.from_ =
        period.buckets width ∧
      ∀ row ∈ rows, row.protocol = protocol →
        (Folds decimal (db.protocolRows protocol row.from_ (row.from_ + width)) row.value ↔
          ¬ db.HidesUnvalued protocol row.from_ (row.from_ + width))

/-- What is read of a pool: nothing unless it is known and measured; then, since it is seen, a row a
period, an hour and a bucket, each folding its pool-hours, of which there is none before. -/
structure PoolFigures (db : SwapTables P) (period : FrozenPeriod) (width : Int) (pool : P) :
    Prop where
  unseen : SwapActivity.seen db period pool = none →
    SwapActivity.findPoolTotals decimal db period pool = .ok none ∧
    SwapActivity.listPoolHourly decimal db period pool = .ok [] ∧
    SwapActivity.listPoolBuckets decimal db period width pool = .ok []
  before : ∀ since, SwapActivity.seen db period pool = some since →
    db.poolRows pool period.from_ (min since period.asOf) = []
  totals : ∀ since, SwapActivity.seen db period pool = some since → ∀ total,
    SwapActivity.findPoolTotals decimal db period pool = .ok total →
      (total.isSome ↔ since < period.asOf) ∧
      ∀ a, total = some a → Folds decimal (db.poolRows pool period.from_ period.asOf) a
  hourly : ∀ since, SwapActivity.seen db period pool = some since → ∀ rows,
    SwapActivity.listPoolHourly decimal db period pool = .ok rows →
      rows.map PoolSwapBucket.from_ = (period.buckets hour).filter (since ≤ ·) ∧
      ∀ row ∈ rows, Folds decimal (db.poolRows pool row.from_ (row.from_ + hour)) row.activity
  buckets : ∀ since, SwapActivity.seen db period pool = some since → ∀ rows,
    SwapActivity.listPoolBuckets decimal db period width pool = .ok rows →
      rows.map PoolSwapBucket.from_ = (period.buckets width).filter (fun b => since < b + width) ∧
      ∀ row ∈ rows, Folds decimal (db.poolRows pool row.from_ (row.from_ + width)) row.activity

section Reads

variable {decimal} {db : SwapTables P} {period : FrozenPeriod} {protocol : Protocol}

theorem bucketTryFrom_ok {row read : ProtocolBucket}
    (h : SwapActivity.bucketTryFrom decimal row = .ok read) :
    read.protocol = row.protocol ∧ read.from_ = row.from_ ∧
      SwapActivity.tryFrom decimal row.value = .ok read.value := by
  unfold SwapActivity.bucketTryFrom at h
  cases hvalue : SwapActivity.tryFrom decimal row.value with
  | error e =>
    rw [hvalue] at h
    cases h
  | ok value =>
    rw [hvalue] at h
    have hread := Except.ok.inj h
    rw [← hread]
    exact ⟨rfl, rfl, rfl⟩

theorem totalTryFrom_ok {row read : ProtocolSwapActivity}
    (h : SwapActivity.totalTryFrom decimal row = .ok read) :
    read.protocol = row.protocol ∧ SwapActivity.tryFrom decimal row.activity = .ok read.activity := by
  unfold SwapActivity.totalTryFrom at h
  cases hactivity : SwapActivity.tryFrom decimal row.activity with
  | error e =>
    rw [hactivity] at h
    cases h
  | ok activity =>
    rw [hactivity] at h
    have hread := Except.ok.inj h
    rw [← hread]
    exact ⟨rfl, rfl⟩

theorem poolBucketTryFrom_ok {row read : PoolSwapBucket}
    (h : SwapActivity.poolBucketTryFrom decimal row = .ok read) :
    read.from_ = row.from_ ∧ SwapActivity.tryFrom decimal row.activity = .ok read.activity := by
  unfold SwapActivity.poolBucketTryFrom at h
  cases hactivity : SwapActivity.tryFrom decimal row.activity with
  | error e =>
    rw [hactivity] at h
    cases h
  | ok activity =>
    rw [hactivity] at h
    have hread := Except.ok.inj h
    rw [← hread]
    exact ⟨rfl, rfl⟩

/-- The rows of a protocol in a series read. -/
theorem series_read {rows read : List ProtocolBucket} {starts : List Int}
    {value : Int → SwapActivity}
    (hrows : rows.filter (fun r => r.protocol = protocol) =
      starts.map (fun b => ⟨protocol, b, value b⟩))
    (h : rows.mapM (SwapActivity.bucketTryFrom decimal) = .ok read) :
    (read.filter (fun r => r.protocol = protocol)).map ProtocolBucket.from_ = starts ∧
      ∀ row ∈ read, row.protocol = protocol → row.from_ ∈ starts ∧
        SwapActivity.tryFrom decimal (value row.from_) = .ok row.value := by
  have hkept := mapM_filter_ok (p := fun r : ProtocolBucket => r.protocol = protocol)
    (q := fun r : ProtocolBucket => r.protocol = protocol)
    (fun a b hab => by rw [(bucketTryFrom_ok hab).1]) h
  rw [hrows] at hkept
  refine ⟨?_, ?_⟩
  · rw [mapM_map_ok (fun a b hab => (bucketTryFrom_ok hab).2.1) hkept, List.map_map]
    exact List.map_id starts
  · intro row hrow hprotocol
    obtain ⟨raw, hraw, hread⟩ :=
      mem_of_mapM_ok hkept (List.mem_filter.mpr ⟨hrow, decide_eq_true hprotocol⟩)
    obtain ⟨b, hb, hbraw⟩ := List.mem_map.mp hraw
    obtain ⟨-, hfrom, hvalue⟩ := bucketTryFrom_ok hread
    rw [← hbraw] at hfrom hvalue
    rw [hfrom]
    exact ⟨hb, hvalue⟩

theorem pool_series_read {read : List PoolSwapBucket} {starts : List Int}
    {value : Int → SwapActivity}
    (h : (starts.map (fun b => PoolSwapBucket.mk b (value b))).mapM
      (SwapActivity.poolBucketTryFrom decimal) = .ok read) :
    read.map PoolSwapBucket.from_ = starts ∧
      ∀ row ∈ read, SwapActivity.tryFrom decimal (value row.from_) = .ok row.activity := by
  refine ⟨?_, ?_⟩
  · rw [mapM_map_ok (fun a b hab => (poolBucketTryFrom_ok hab).1) h, List.map_map]
    exact List.map_id starts
  · intro row hrow
    obtain ⟨raw, hraw, hread⟩ := mem_of_mapM_ok h hrow
    obtain ⟨b, -, hbraw⟩ := List.mem_map.mp hraw
    obtain ⟨hfrom, hvalue⟩ := poolBucketTryFrom_ok hread
    rw [← hbraw] at hfrom hvalue
    rw [hfrom]
    exact hvalue

/-- A figure read of hours summed folds them unless they hide pool-hours not valued. -/
theorem folds_iff {start finish : Int} {raw a : SwapActivity}
    (hraw : (db.HidesUnvalued protocol start finish → ∀ c, raw.usd c ≠ none) ∧
      (¬ db.HidesUnvalued protocol start finish →
        Folds asIs (db.protocolRows protocol start finish) raw))
    (hread : SwapActivity.tryFrom decimal raw = .ok a) :
    Folds decimal (db.protocolRows protocol start finish) a ↔
      ¬ db.HidesUnvalued protocol start finish := by
  constructor
  · intro hfolds hhides
    have hunknown := (hfolds.unknown .volume).mpr ⟨hhides.1, hhides.2.1⟩
    have hcolumn := (tryFrom_ok hread).2.2.2 .volume
    exact hraw.1 hhides .volume ((convertOptional_none hcolumn).mp hunknown)
  · intro hshown
    exact (hraw.2 hshown).tryFrom hread

end Reads

section Levels

variable {decimal} {db : SwapTables P} {period : FrozenPeriod} {protocol : Protocol}
  {filter : Option Protocol} {width : Int}

theorem SwapTables.Covered.protocolFigures (hdb : db.Covered period)
    (hsummed : db.Summed period protocol) (hfilter : filter.all (· = protocol)) (hwidth : 0 < width)
    (hhour : hour ∣ width) (hdvd : width ∣ period.asOf - period.from_) (window : Window) :
    ProtocolFigures decimal db period width protocol filter window where
  totals := by
    intro rows hrows
    have hkept := mapM_filter_ok (p := fun r : ProtocolSwapActivity => r.protocol = protocol)
      (q := fun r : ProtocolSwapActivity => r.protocol = protocol)
      (fun a b hab => by rw [(totalTryFrom_ok hab).1]) hrows
    rw [hdb.protocolTotals_eq hsummed hfilter, List.mapM_cons] at hkept
    obtain ⟨row, hrow, hkept⟩ := bind_eq_ok hkept
    have hone : [row] = _ := Except.ok.inj hkept
    refine ⟨row, hone.symm, ?_⟩
    have hsorted := buckets_sorted period hour_pos
    have hhours (h : Int) : h ∈ period.buckets hour ↔
        period.from_ ≤ h ∧ h < period.asOf ∧ h % hour = 0 := hdb.mem_hours
    exact folds_iff (hdb.sumHours_folds hhours (hsorted.imp (fun hab => hab.ne))
      hdb.hours_ne_nil rfl) (totalTryFrom_ok hrow).2
  hourly := by
    intro rows hrows
    obtain ⟨hstarts, hread⟩ := series_read (hdb.protocolHourly_eq hsummed hfilter) hrows
    refine ⟨hstarts, ?_⟩
    intro row hrow hprotocol
    have hvalue := (hread row hrow hprotocol).2
    unfold SwapTables.hourRow at hvalue
    rw [ofHour_eq] at hvalue
    exact (sumFacts_folds _).tryFrom hvalue
  buckets := by
    intro rows hrows
    obtain ⟨hstarts, hread⟩ :=
      series_read (hdb.protocolBuckets_eq hsummed hfilter hwidth hhour hdvd) hrows
    refine ⟨hstarts, ?_⟩
    intro row hrow hprotocol
    obtain ⟨hmem, hvalue⟩ := hread row hrow hprotocol
    obtain ⟨hfrom, hasOf, hgrid⟩ := (mem_buckets hwidth hdvd).mp hmem
    have hsorted := (buckets_sorted period hour_pos).filter
      (fun h => row.from_ ≤ h ∧ h < row.from_ + width)
    have hhours (h : Int) : h ∈ SwapTables.bucketHours period width row.from_ ↔
        row.from_ ≤ h ∧ h < row.from_ + width ∧ h % hour = 0 := hdb.mem_bucketHours hfrom hasOf
    have hfirst : row.from_ ∈ SwapTables.bucketHours period width row.from_ :=
      (hhours _).mpr ⟨le_refl _, lt_add_of_pos_right _ hwidth, (hdb.bucket_grid hhour hgrid).1⟩
    exact folds_iff (hdb.sumHours_folds hhours (hsorted.imp (fun hab => hab.ne))
      (List.ne_nil_of_mem hfirst) rfl) hvalue

theorem SwapTables.Covered.poolFigures (hdb : db.Covered period) (hwidth : 0 < width)
    (hhour : hour ∣ width) (hdvd : width ∣ period.asOf - period.from_) (pool : P) :
    PoolFigures decimal db period width pool where
  unseen := by
    intro hunseen
    have hhours : SwapActivity.seenHours db period pool = [] := by
      unfold SwapActivity.seenHours
      rw [hunseen]
      apply List.filter_eq_nil_iff.mpr
      intro h _
      simp
    refine ⟨?_, ?_, ?_⟩
    · unfold SwapActivity.findPoolTotals SwapActivity.poolTotals
      rw [hhours]
      rfl
    · unfold SwapActivity.listPoolHourly SwapActivity.poolHourlyRows
      rw [hunseen, List.filter_eq_nil_iff.mpr (fun h _ => by simp)]
      rfl
    · unfold SwapActivity.listPoolBuckets SwapActivity.poolBuckets
      rw [hhours]
      rfl
  before := by
    intro since hseen
    unfold SwapTables.poolRows
    rw [List.map_eq_nil_iff, List.filter_eq_nil_iff]
    intro e he hin
    obtain ⟨hpool, hfrom, hbefore⟩ := of_decide_eq_true hin
    have hle := SwapTables.seen_le hseen he hpool hfrom (hbefore.trans_le (min_le_right _ _))
    have hlt := hbefore.trans_le (min_le_left since period.asOf)
    omega
  totals := by
    intro since hseen total htotal
    unfold SwapActivity.findPoolTotals at htotal
    rw [hdb.poolTotals_eq hseen] at htotal
    split_ifs at htotal with hlt
    · obtain ⟨a, ha, htotal⟩ := bind_eq_ok htotal
      have htotal : some a = total := Except.ok.inj htotal
      rw [← htotal]
      refine ⟨by simp [hlt], ?_⟩
      intro a' ha'
      rw [← Option.some.inj ha']
      exact (sumFacts_folds _).tryFrom ha
    · have htotal : none = total := Except.ok.inj htotal
      rw [← htotal]
      refine ⟨by simp [hlt], ?_⟩
      intro a ha
      cases ha
  hourly := by
    intro since hseen rows hrows
    unfold SwapActivity.listPoolHourly at hrows
    rw [hdb.poolHourly_eq hseen] at hrows
    obtain ⟨hstarts, hread⟩ := pool_series_read hrows
    exact ⟨hstarts, fun row hrow => (sumFacts_folds _).tryFrom (hread row hrow)⟩
  buckets := by
    intro since hseen rows hrows
    unfold SwapActivity.listPoolBuckets at hrows
    rw [hdb.poolBuckets_eq hseen hwidth hhour hdvd] at hrows
    obtain ⟨hstarts, hread⟩ := pool_series_read hrows
    exact ⟨hstarts, fun row hrow => (sumFacts_folds _).tryFrom (hread row hrow)⟩

end Levels

/-- The swap figures of a covered period, by protocol and by pool, at every level: the buckets
partition the hours, a pool's figures fold its pool-hours, a protocol's do unless the range hides
pool-hours not valued behind an hour without any, and what folds is the exact sum where a `Decimal`
holds it. -/
theorem figures_fold {db : SwapTables P} {period : FrozenPeriod} (hdb : db.Covered period)
    (hwritten : db.WrittenHours period) {width : Int}
    (hwidth : width = hour ∨ width = 6 * hour ∨ width = 24 * hour)
    (hdvd : width ∣ period.asOf - period.from_) {protocol : Protocol}
    (hmeasured : protocol ∈ MEASURED) {filter : Option Protocol}
    (hfilter : filter.all (· = protocol)) (window : Window) (pool : P) :
    (∀ h, period.from_ ≤ h → h < period.asOf →
      ∃! b, b ∈ period.buckets width ∧ b ≤ h ∧ h < b + width) ∧
    ProtocolFigures decimal db period width protocol filter window ∧
    PoolFigures decimal db period width pool ∧
    (ReadsHeld decimal → ∀ rows a, Folds decimal rows a → ∀ c v, a.usd c = some v →
      (∃ d : Decimal, d.value = valuedSum rows c) → v = valuedSum rows c) := by
  have hpositive : 0 < width := by
    rw [hour_eq] at hwidth
    omega
  have hhour : hour ∣ width := by
    rcases hwidth with hwidth | hwidth | hwidth
    · exact dvd_of_eq hwidth.symm
    · exact ⟨6, hwidth.trans (mul_comm _ _)⟩
    · exact ⟨24, hwidth.trans (mul_comm _ _)⟩
  refine ⟨fun h hfrom hasOf => buckets_partition hpositive hdvd hfrom hasOf, ?_, ?_, ?_⟩
  · exact hdb.protocolFigures (hwritten.summed hmeasured) hfilter hpositive hhour hdvd window
  · exact hdb.poolFigures hpositive hhour hdvd pool
  · intro hdecimal rows a hfolds c v hv ⟨d, hd⟩
    exact hfolds.exact hdecimal hv hd

/-- A day of whole hours from the epoch. -/
def sampledDay : FrozenPeriod := ⟨0, 24 * hour, 0⟩

theorem sampledHours_sorted :
    ((List.range 24).map (fun k : Nat => ((k : Int) * hour, some (24 * hour)))).Pairwise
      (fun a b => a.1 < b.1) := by
  rw [List.pairwise_map]
  apply List.pairwise_lt_range.imp
  intro i j hij
  simp only [hour_eq]
  omega

def sampledUnvalued : OrdMap (Nat ×ₗ Int) FiledPoolHour :=
  OrdMap.insert ∅ (toLex (0, 21 * hour)) ⟨⟨2, none⟩, .meteoraDammV2⟩

/-- A day of one pool, known for long, that swaps in one hour and is not valued there. -/
def quietDay : SwapTables Nat where
  pools := OrdMap.insert ∅ 0 ⟨.meteoraDammV2, -(24 * hour)⟩
  hours := ⟨_, sampledHours_sorted⟩
  poolHourly := sampledUnvalued
  protocolHourly := writtenHourly sampledUnvalued [(0, 23 * hour)]
  protocolPeriods := fun _ _ => ∅

theorem quietDay_covered : quietDay.Covered sampledDay where
  starts := rfl
  ends := rfl
  positive := by decide
  covered := rfl
  recorded := by
    intro h hfrom hasOf
    change h ∈ ((List.range 24).map (fun k : Nat => ((k : Int) * hour, some (24 * hour)))).map
      Prod.fst ↔ h % hour = 0
    change 0 ≤ h at hfrom
    change h < 24 * hour at hasOf
    rw [List.map_map, List.mem_map]
    constructor
    · intro ⟨k, _, hk⟩
      rw [← hk]
      exact Int.mul_emod_left _ _
    · intro hgrid
      refine ⟨(h / hour).toNat, ?_, ?_⟩
      · rw [List.mem_range]
        simp only [hour_eq] at *
        omega
      · change ((h / hour).toNat : Int) * hour = h
        simp only [hour_eq] at *
        omega
  hourly := by decide +kernel

theorem quietDay_written : quietDay.WrittenHours sampledDay := by
  refine ⟨[(0, 23 * hour)], ?_, rfl, ?_⟩
  · decide
  · intro h hfrom hasOf hgrid
    refine ⟨_, List.mem_cons_self, hfrom, ?_⟩
    change h < 24 * hour at hasOf
    change h ≤ 23 * hour
    simp only [hour_eq] at *
    omega

theorem one_row {A B E : Type*} {x : Except E (List A)} {f : A → B} {v : B}
    (h : x.toOption.map (List.map f) = some [v]) : ∃ row, x = .ok [row] ∧ f row = v := by
  obtain ⟨rows, hx, hrows⟩ := Option.map_eq_some_iff.mp h
  obtain ⟨row, hrow, hv⟩ := List.map_eq_singleton_iff.mp hrows
  cases x with
  | error e => cases hx
  | ok rows' =>
    have hrows' : rows' = rows := Option.some.inj hx
    rw [hrows', hrow]
    exact ⟨row, rfl, hv⟩

/-- A day whose only pool-hour is not valued reads 0 for its protocol, and unknown for its pool. -/
theorem quietDay_reads_zero : quietDay.Covered sampledDay ∧ quietDay.WrittenHours sampledDay ∧
    (∃ row, SwapActivity.findProtocolTotals asIs quietDay sampledDay .day none = .ok [row] ∧
      row.activity.usd .volume = some 0 ∧
      ¬ Folds asIs (quietDay.protocolRows .meteoraDammV2 0 (24 * hour)) row.activity) ∧
    (SwapActivity.findPoolTotals asIs quietDay sampledDay 0).toOption.map
      (Option.map (fun a => a.usd .volume)) = some (some none) := by
  refine ⟨quietDay_covered, quietDay_written, ?_, by decide +kernel⟩
  obtain ⟨row, hrow, hvolume⟩ := one_row (x := SwapActivity.findProtocolTotals asIs quietDay
    sampledDay .day none) (f := fun r => r.activity.usd .volume) (v := some 0) (by decide +kernel)
  refine ⟨row, hrow, hvolume, ?_⟩
  intro hfolds
  have hunvalued : ∀ r ∈ quietDay.protocolRows .meteoraDammV2 0 (24 * hour), r.valued = false := by
    decide +kernel
  have hsome : (quietDay.protocolRows .meteoraDammV2 0 (24 * hour)).length = 1 := by decide +kernel
  have hnone := (hfolds.unknown .volume).mpr
    ⟨List.ne_nil_of_length_pos (by rw [hsome]; exact one_pos), hunvalued⟩
  rw [hvolume] at hnone
  cases hnone

/-- The day in six-hour buckets. -/
theorem quietDay_figures :
    ProtocolFigures asIs quietDay sampledDay (6 * hour) .meteoraDammV2 none .day ∧
      PoolFigures asIs quietDay sampledDay (6 * hour) 0 ∧ ReadsHeld asIs := by
  obtain ⟨-, hprotocol, hpool, -⟩ := @figures_fold Nat _ asIs quietDay sampledDay quietDay_covered
    quietDay_written (6 * hour) (.inr (.inl rfl)) (by decide) .meteoraDammV2 (by decide) none rfl
    .day 0
  exact ⟨hprotocol, hpool, fun _ _ => rfl⟩

end YogSothoth.Analytic
