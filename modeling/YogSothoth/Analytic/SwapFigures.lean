import YogSothoth.Analytic.SwapFolds

namespace YogSothoth.Analytic

open Hourly
open RunSplit (timeBucket)

variable {P : Type*} [LinearOrder P]

namespace SwapTables

/-- A protocol's pool-hours from `start` to `finish`. -/
def protocolRows (db : SwapTables P) (protocol : Protocol) (start finish : Int) : List PoolHour :=
  ((ofProtocol db.poolHourly protocol).entries.filter
    (fun e => start ≤ (ofLex e.1).2 ∧ (ofLex e.1).2 < finish)).map Prod.snd

/-- A pool's hours from `start` to `finish`. -/
def poolRows (db : SwapTables P) (pool : P) (start finish : Int) : List PoolHour :=
  (db.poolHourly.entries.filter (fun e => (ofLex e.1).1 = pool ∧ start ≤ (ofLex e.1).2 ∧
    (ofLex e.1).2 < finish)).map (fun e => e.2.toPoolHour)

/-- Some pool-hour of the protocol and none of them valued, beside an hour without any. -/
def HidesUnvalued (db : SwapTables P) (protocol : Protocol) (start finish : Int) : Prop :=
  db.protocolRows protocol start finish ≠ [] ∧
    (∀ r ∈ db.protocolRows protocol start finish, r.valued = false) ∧
    ∃ h, start ≤ h ∧ h < finish ∧ h % hour = 0 ∧ db.protocolRows protocol h (h + hour) = []

/-- A covered period of whole hours, all recorded. -/
structure Covered (db : SwapTables P) (period : FrozenPeriod) : Prop where
  starts : period.from_ % hour = 0
  ends : period.asOf % hour = 0
  positive : period.from_ < period.asOf
  covered : period.isCovered
  recorded : ∀ h, period.from_ ≤ h → h < period.asOf → (h ∈ db.hours.keys ↔ h % hour = 0)
  hourly : ∀ e ∈ db.poolHourly.entries, (ofLex e.1).2 % hour = 0

/-- A protocol's hours of the period, each the sum of its pools'. -/
def Summed (db : SwapTables P) (period : FrozenPeriod) (protocol : Protocol) : Prop :=
  ∀ h, period.from_ ≤ h → h < period.asOf → ∀ row,
    (db.protocolHourly protocol).get? h = some row ↔
      h % hour = 0 ∧ row = protocolHour (hourPools (ofProtocol db.poolHourly protocol) h)

variable {db : SwapTables P} {period : FrozenPeriod} {protocol : Protocol} {start finish : Int}

theorem mem_protocolRows {r : PoolHour} : r ∈ db.protocolRows protocol start finish ↔
    ∃ k, (k, r) ∈ (ofProtocol db.poolHourly protocol).entries ∧ start ≤ (ofLex k).2 ∧
      (ofLex k).2 < finish := by
  unfold protocolRows
  rw [List.mem_map]
  constructor
  · intro ⟨e, he, her⟩
    obtain ⟨he, hin⟩ := List.mem_filter.mp he
    rw [← her]
    exact ⟨e.1, he, of_decide_eq_true hin⟩
  · intro ⟨k, hk, hin⟩
    exact ⟨(k, r), List.mem_filter.mpr ⟨hk, decide_eq_true hin⟩, rfl⟩

theorem Covered.filed (hdb : db.Covered period) {e : (P ×ₗ Int) × PoolHour}
    (he : e ∈ (ofProtocol db.poolHourly protocol).entries) : (ofLex e.1).2 % hour = 0 := by
  obtain ⟨v, hv, -⟩ := OrdMap.mem_mapVal.mp he
  exact hdb.hourly _ (List.mem_filter.mp hv).1

/-- An hour's pool-hours stand under it. -/
theorem Covered.hourPools_eq (hdb : db.Covered period) {h : Int} (hh : h % hour = 0) :
    hourPools (ofProtocol db.poolHourly protocol) h = db.protocolRows protocol h (h + hour) := by
  unfold hourPools protocolRows
  congr 1
  apply List.filter_congr
  intro e he
  have hgrid := hdb.filed he
  rw [decide_eq_decide]
  simp only [hour_eq] at *
  omega

section Range

variable {hours : List Int}

theorem Covered.hour_filter (hdb : db.Covered period)
    (hhours : ∀ h, h ∈ hours ↔ start ≤ h ∧ h < finish ∧ h % hour = 0) {h : Int} (hh : h ∈ hours) :
    db.protocolRows protocol h (h + hour) =
      (((ofProtocol db.poolHourly protocol).entries.filter (fun e => start ≤ (ofLex e.1).2 ∧
        (ofLex e.1).2 < finish)).filter (fun e => (ofLex e.1).2 = h)).map Prod.snd := by
  obtain ⟨hstart, hfinish, hgrid⟩ := (hhours h).mp hh
  unfold protocolRows
  rw [List.filter_filter]
  congr 1
  apply List.filter_congr
  intro e he
  have hbucket := hdb.filed he
  rw [← Bool.decide_and, decide_eq_decide]
  simp only [hour_eq] at *
  omega

/-- Hours summed are their pool-hours summed. -/
theorem Covered.sum_hours {M : Type*} [AddCommMonoid M] (hdb : db.Covered period)
    (protocol : Protocol)
    (hhours : ∀ h, h ∈ hours ↔ start ≤ h ∧ h < finish ∧ h % hour = 0) (hnodup : hours.Nodup)
    (v : PoolHour → M) :
    (hours.map (fun h => ((db.protocolRows protocol h (h + hour)).map v).sum)).sum =
      ((db.protocolRows protocol start finish).map v).sum := by
  have hgroups : hours.map (fun h => ((db.protocolRows protocol h (h + hour)).map v).sum) =
      hours.map (fun h => ((((ofProtocol db.poolHourly protocol).entries.filter
        (fun e => start ≤ (ofLex e.1).2 ∧ (ofLex e.1).2 < finish)).filter
          (fun e => (ofLex e.1).2 = h)).map (fun e => v e.2)).sum) := by
    apply List.map_congr_left
    intro h hh
    rw [hdb.hour_filter hhours hh, List.map_map]
    rfl
  rw [hgroups, protocolRows, List.map_map]
  apply sum_partition
  intro e he
  obtain ⟨he, hin⟩ := List.mem_filter.mp he
  have hin := of_decide_eq_true hin
  have hmem : (ofLex e.1).2 ∈ hours := (hhours _).mpr ⟨hin.1, hin.2, hdb.filed he⟩
  have hcount := List.count_eq_one_of_mem hnodup hmem
  rw [← hcount]
  unfold List.count
  apply List.countP_congr
  intro h _
  rw [decide_eq_true_iff, beq_iff_eq]
  exact eq_comm

theorem Covered.mem_range (hdb : db.Covered period)
    (hhours : ∀ h, h ∈ hours ↔ start ≤ h ∧ h < finish ∧ h % hour = 0) {r : PoolHour} :
    r ∈ db.protocolRows protocol start finish ↔
      ∃ h ∈ hours, r ∈ db.protocolRows protocol h (h + hour) := by
  constructor
  · intro hr
    obtain ⟨k, hk, hstart, hfinish⟩ := mem_protocolRows.mp hr
    have hin : (ofLex k).2 ∈ hours := (hhours _).mpr ⟨hstart, hfinish, hdb.filed hk⟩
    have hlt : (ofLex k).2 < (ofLex k).2 + hour := by
      rw [hour_eq]
      omega
    exact ⟨_, hin, mem_protocolRows.mpr ⟨k, hk, le_refl _, hlt⟩⟩
  · intro ⟨h, hh, hr⟩
    rw [hdb.hour_filter hhours hh] at hr
    obtain ⟨e, he, her⟩ := List.mem_map.mp hr
    rw [← her]
    exact List.mem_map_of_mem (List.mem_filter.mp he).1

/-- A protocol's hours summed, unless they hide pool-hours not valued behind an empty hour. -/
theorem Covered.sumHours_folds (hdb : db.Covered period)
    (hhours : ∀ h, h ∈ hours ↔ start ≤ h ∧ h < finish ∧ h % hour = 0) (hnodup : hours.Nodup)
    (hne : hours ≠ []) {raw : SwapActivity}
    (hraw : raw = SwapActivity.sumHours (hours.map (fun h =>
      protocolHour (db.protocolRows protocol h (h + hour))))) :
    (db.HidesUnvalued protocol start finish → ∀ c, raw.usd c ≠ none) ∧
      (¬ db.HidesUnvalued protocol start finish →
        Folds asIs (db.protocolRows protocol start finish) raw) := by
  have hgroups (c : ProtocolColumn) : raw.usd c = sumOption
      ((hours.map (fun h => (db.protocolRows protocol h (h + hour)).map
        (fun r => r.usd.map c.of))).map sumOrZero) := by
    rw [hraw, List.map_map]
    change sumOption ((hours.map _).map _) = _
    rw [List.map_map]
    congr 1
    apply List.map_congr_left
    intro h _
    exact protocolHour_usd _ c
  have hnone (c : ProtocolColumn) : raw.usd c = none ↔ ∀ h ∈ hours,
      db.protocolRows protocol h (h + hour) ≠ [] ∧
        ∀ r ∈ db.protocolRows protocol h (h + hour), r.valued = false := by
    rw [hgroups, sumOption_groups_eq_none, List.forall_mem_map]
    simp only [columns_eq_none, ne_eq, List.map_eq_nil_iff]
  refine ⟨?_, ?_⟩
  · intro ⟨_, _, h, hstart, hfinish, hgrid, hempty⟩ c hc
    exact ((hnone c).mp hc h ((hhours h).mpr ⟨hstart, hfinish, hgrid⟩)).1 hempty
  · intro hshown
    refine ⟨?_, ?_, ?_, ?_, ?_⟩
    · intro c
      rw [hnone]
      constructor
      · intro hall
        obtain ⟨h, hh⟩ := List.exists_mem_of_ne_nil _ hne
        obtain ⟨r, hr⟩ := List.exists_mem_of_ne_nil _ (hall h hh).1
        refine ⟨List.ne_nil_of_mem ((hdb.mem_range hhours).mpr ⟨h, hh, hr⟩), ?_⟩
        intro r hr
        obtain ⟨h, hh, hr⟩ := (hdb.mem_range hhours).mp hr
        exact (hall h hh).2 r hr
      · intro ⟨hrows, hunvalued⟩ h hh
        refine ⟨?_, ?_⟩
        · intro hempty
          obtain ⟨hstart, hfinish, hgrid⟩ := (hhours h).mp hh
          exact hshown ⟨hrows, hunvalued, h, hstart, hfinish, hgrid, hempty⟩
        · intro r hr
          exact hunvalued r ((hdb.mem_range hhours).mpr ⟨h, hh, hr⟩)
    · intro c v hv
      have htotal := sumOption_groups_getD (hours.map (fun h =>
        (db.protocolRows protocol h (h + hour)).map (fun r => r.usd.map c.of)))
      rw [← hgroups, hv, List.map_map] at htotal
      have hsum := hdb.sum_hours protocol hhours hnodup
        (fun r => (r.usd.map c.of).getD 0)
      rw [← valuedSum_eq] at hsum
      rw [asIs, ← hsum]
      apply congrArg Except.ok
      apply Eq.trans _ htotal.symm
      congr 1
      apply List.map_congr_left
      intro h _
      change _ = (((db.protocolRows protocol h (h + hour)).map _).map _).sum
      rw [List.map_map]
      rfl
    · rw [hraw, ← hdb.sum_hours protocol hhours hnodup]
      change ((hours.map _).map _).sum = _
      rw [List.map_map]
      rfl
    · have hsum := hdb.sum_hours protocol hhours hnodup (fun _ => (1 : Int))
      simp only [List.map_const', List.sum_replicate, nsmul_eq_mul, mul_one] at hsum
      rw [hraw, ← hsum]
      change ((hours.map _).map _).sum = _
      rw [List.map_map]
      rfl
    · have hcount (rows : List PoolHour) : ((rows.countP PoolHour.valued : Nat) : Int) =
          (rows.map (fun r => if r.valued then (1 : Int) else 0)).sum := by
        induction rows with
        | nil => rfl
        | cons r rows ih =>
          rw [List.countP_cons, List.map_cons, List.sum_cons, ← ih]
          split_ifs
          · push_cast
            omega
          · push_cast
            omega
      rw [hcount, ← hdb.sum_hours protocol hhours hnodup, hraw]
      change ((hours.map _).map _).sum = _
      rw [List.map_map]
      congr 1
      apply List.map_congr_left
      intro h _
      exact hcount _

end Range

end SwapTables

end YogSothoth.Analytic
