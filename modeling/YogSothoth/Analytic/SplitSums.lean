import YogSothoth.Analytic.FrozenSums
import YogSothoth.Analytic.RunSplit

namespace YogSothoth.Analytic

open Hourly RotationRuns RunSplit

variable {P : Type*} [LinearOrder P]

/-- What a fact counts for in its hour: its volume, where the pool's hour is valued whole. -/
def counted (facts : List (PoolFact P)) (f : PoolFact P) : ℚ :=
  if (hourFacts facts (hourKey f)).all PoolFact.valued then f.volume else 0

def Island.Covers (i : Island P) (f : PoolFact P) : Prop :=
  f.pool = i.pool ∧ i.startedAt ≤ f.bucket ∧ f.bucket ≤ i.last

instance (i : Island P) (f : PoolFact P) : Decidable (i.Covers f) :=
  inferInstanceAs (Decidable (_ ∧ _))

def factsOf (facts : List (PoolFact P)) (h : Int) : List (PoolFact P) :=
  facts.filter (fun f => hourOf f.bucket = h)

/-- The runs' volume of an hour. -/
def runHoursSum (db : Analytics P) (h : Int) : ℚ :=
  ((db.runs.hours.entries.filter (fun e => runBucket e = h)).map Prod.snd).sum

/-- The pools' volume of an hour, those not valued at 0. -/
def poolHoursSum (db : Analytics P) (h : Int) : ℚ :=
  ((hourPools db.poolHourly h).map (fun r => (r.usd.map Usd.volume).getD 0)).sum

variable {facts : List (PoolFact P)}

/-- The runs and the hours count a pool's hour on the same condition. -/
theorem whole_eq_all {i : Island P} {f : PoolFact P} (hf : i.Covers f) :
    whole facts i (hourOf f.bucket) = (hourFacts facts (hourKey f)).all PoolFact.valued := by
  rw [whole, hourFacts]
  congr 1
  apply List.filter_congr
  intro g _
  have hkey : hourKey g = hourKey f ↔ g.pool = f.pool ∧ hourOf g.bucket = hourOf f.bucket := by
    rw [hourKey, hourKey, EmbeddingLike.apply_eq_iff_eq, Prod.mk.injEq]
  obtain ⟨hpool, hstart, hlast⟩ := hf
  have hlow := hourOf_mono hstart
  have hhigh := hourOf_mono hlast
  have hle := hourOf_le g.bucket
  have hlt := lt_hourOf_add g.bucket
  rw [decide_eq_decide, hkey, hpool]
  constructor
  · rintro ⟨hg, -, -, hhour⟩
    exact ⟨hg, hhour⟩
  · rintro ⟨hg, hhour⟩
    exact ⟨hg, by omega, by omega, hhour⟩

theorem hourVolume_counted (i : Island P) (h : Int) : hourVolume facts i h =
    (((factsOf facts h).filter (fun f => i.Covers f)).map (counted facts)).sum := by
  have hcounted : ∀ f ∈ facts.filter (fun f => i.Covers f),
      (if whole facts i (hourOf f.bucket) then f.volume else 0) = counted facts f := by
    intro f hf
    rw [whole_eq_all (of_decide_eq_true (List.mem_filter.mp hf).2), counted]
  have htranches : tranches facts i =
      (facts.filter (fun f => i.Covers f)).map (fun f => (f.bucket, counted facts f)) := by
    apply List.map_congr_left
    intro f hf
    rw [hcounted f hf]
  rw [hourVolume, htranches, List.filter_map, List.map_map, factsOf, List.filter_filter,
    List.filter_filter]
  congr 2
  apply List.filter_congr
  intro f _
  exact Bool.and_comm _ _

theorem counted_nonneg (hn : ∀ f ∈ facts, 0 ≤ f.volume) {f : PoolFact P} (hf : f ∈ facts) :
    0 ≤ counted facts f := by
  rw [counted]
  split_ifs
  · exact hn f hf
  · exact le_rfl

section Hour

variable {db : Analytics P} {through : Int}

/-- A fact is in the run whose hour `e` is. -/
def InRunHour (db : Analytics P) (e : (P ×ₗ Int ×ₗ Int) × ℚ) (f : PoolFact P) : Prop :=
  ∃ i : Island P, i.In db.facts ∧ e.1 = i.hourKey (runBucket e) ∧ i.Covers f

open Classical in
/-- Every row of an hour is what its run's facts of the hour count. -/
theorem Drawn.hour_row (hd : Drawn db.facts through db.runs) {e : (P ×ₗ Int ×ₗ Int) × ℚ}
    (he : e ∈ db.runs.hours.entries) : e.2 =
      (((factsOf db.facts (runBucket e)).filter (fun f => InRunHour db e f)).map
        (counted db.facts)).sum := by
  obtain ⟨i, hi, b, -, hkey, hvolume⟩ := (hd.hours e.1 e.2).mp (OrdMap.get?_eq_some.mpr he)
  have hb : runBucket e = b := by
    rw [runBucket, ← hkey]
    rfl
  have hcovers : ∀ f, InRunHour db e f ↔ i.Covers f := by
    intro f
    constructor
    · rintro ⟨j, hj, hkey', hf⟩
      obtain ⟨hij, -⟩ := hourKey_eq.mp (hkey.trans hkey')
      rwa [hi.eq_of_key hj hij]
    · intro hf
      exact ⟨i, hi, by rw [hb, hkey], hf⟩
  simp only [hcovers]
  rw [← hvolume, hb, hourVolume_counted]

theorem InRunHour.key_eq {a b : (P ×ₗ Int ×ₗ Int) × ℚ} {f : PoolFact P} (ha : InRunHour db a f)
    (hb : InRunHour db b f) (hab : runBucket a = runBucket b) : a.1 = b.1 := by
  obtain ⟨i, hi, hkey, hpool, hstart, hlast⟩ := ha
  obtain ⟨j, hj, hkey', hpool', hstart', hlast'⟩ := hb
  have hij := hi.eq_of_meet hj (hpool.symm.trans hpool') (by omega) (by omega)
  rw [hkey, hkey', hij, hab]

theorem runHoursSum_le (hd : Drawn db.facts through db.runs) (hn : ∀ f ∈ db.facts, 0 ≤ f.volume)
    (h : Int) : runHoursSum db h ≤ ((factsOf db.facts h).map (counted db.facts)).sum ∧
      0 ≤ runHoursSum db h := by
  classical
  have hsum : runHoursSum db h = (((db.runs.hours.filter (fun e => runBucket e = h)).entries).map
      (fun e => (((factsOf db.facts h).filter (fun f => InRunHour db e f)).map
        (counted db.facts)).sum)).sum := by
    rw [runHoursSum, OrdMap.entries_filter]
    congr 1
    apply List.map_congr_left
    intro e he
    obtain ⟨he, hh⟩ := List.mem_filter.mp he
    rw [hd.hour_row he, of_decide_eq_true hh]
  have hnonneg : ∀ f ∈ factsOf db.facts h, 0 ≤ counted db.facts f :=
    fun f hf => counted_nonneg hn (List.mem_filter.mp hf).1
  constructor
  · rw [hsum]
    apply sum_disjoint_le _ hnonneg
    intro f _
    apply OrdMap.countP_le_one
    intro a ha b hb hpa hpb
    have hah : runBucket a = h := of_decide_eq_true (OrdMap.mem_filter.mp ha).2
    have hbh : runBucket b = h := of_decide_eq_true (OrdMap.mem_filter.mp hb).2
    exact (of_decide_eq_true hpa : InRunHour db a f).key_eq (of_decide_eq_true hpb)
      (hah.trans hbh.symm)
  · rw [hsum]
    apply List.sum_nonneg
    intro v hv
    obtain ⟨e, -, rfl⟩ := List.mem_map.mp hv
    apply List.sum_nonneg
    intro w hw
    obtain ⟨f, hf, rfl⟩ := List.mem_map.mp hw
    exact hnonneg f (List.mem_filter.mp hf).1

omit [LinearOrder P] in
theorem volume_sum (group : List (PoolFact P)) :
    Usd.volume (group.map (fun f => f.usd.getD 0)).sum = (group.map PoolFact.volume).sum := by
  rw [Usd.volume, sum_column, sum_column, ← List.sum_map_add]
  congr 1
  apply List.map_congr_left
  intro f _
  rw [PoolFact.volume]
  cases f.usd with
  | none => simp
  | some u => rfl

/-- A pool's hour counts what its facts count. -/
theorem poolHour_volume (k : P ×ₗ Int) :
    ((poolHour (hourFacts facts k)).usd.map Usd.volume).getD 0 =
      ((hourFacts facts k).map (counted facts)).sum := by
  have hcounted : ∀ f ∈ hourFacts facts k, counted facts f =
      if (hourFacts facts k).all PoolFact.valued then f.volume else 0 := by
    intro f hf
    have hkey : hourKey f = k := of_decide_eq_true (List.mem_filter.mp hf).2
    rw [counted, hkey]
  rw [List.map_congr_left hcounted, poolHour]
  dsimp only
  split_ifs with hall
  · exact volume_sum _
  · simp

theorem SwapsSummed.row {h : Int} (hs : SwapsSummed db h) {e : (P ×ₗ Int) × PoolHour}
    (he : e ∈ db.poolHourly.entries) (hh : (ofLex e.1).2 = h) :
    e.2 = poolHour (hourFacts db.facts e.1) := by
  have hget : poolHourOf db.facts e.1 = some e.2 := by
    have hkey : e.1 = toLex ((ofLex e.1).1, h) := hh ▸ rfl
    rw [hkey, ← hs.pools, ← hkey]
    exact OrdMap.get?_eq_some.mpr he
  rw [poolHourOf] at hget
  split_ifs at hget
  exact (Option.some.inj hget).symm

/-- The facts of an hour are each in one pool's row. -/
theorem SwapsSummed.sum_eq {h : Int} (hs : SwapsSummed db h) :
    ((factsOf db.facts h).map (counted db.facts)).sum = poolHoursSum db h := by
  have hrow : poolHoursSum db h = ((db.poolHourly.filter (fun e => (ofLex e.1).2 = h)).entries.map
      (fun e => (((factsOf db.facts h).filter (fun f => hourKey f = e.1)).map
        (counted db.facts)).sum)).sum := by
    rw [poolHoursSum, hourPools, List.map_map, OrdMap.entries_filter]
    congr 1
    apply List.map_congr_left
    intro e he
    obtain ⟨he, hh⟩ := List.mem_filter.mp he
    have hh : (ofLex e.1).2 = h := of_decide_eq_true hh
    have hfacts : (factsOf db.facts h).filter (fun f => hourKey f = e.1) =
        hourFacts db.facts e.1 := by
      rw [factsOf, hourFacts, List.filter_filter]
      apply List.filter_congr
      intro f _
      simp only [Bool.and_eq_left_iff_imp, decide_eq_true_eq]
      intro hkey
      have hhour : hourOf f.bucket = (ofLex e.1).2 := congrArg (fun k => (ofLex k).2) hkey
      rw [hhour, hh]
    rw [hfacts, ← poolHour_volume, ← hs.row he hh]
    rfl
  rw [hrow]
  refine (sum_partition ?_ _).symm
  intro f hf
  obtain ⟨hf, hh⟩ := List.mem_filter.mp hf
  have hh : hourOf f.bucket = h := of_decide_eq_true hh
  apply le_antisymm
  · apply OrdMap.countP_le_one
    intro a _ b _ ha hb
    exact (of_decide_eq_true ha).symm.trans (of_decide_eq_true hb)
  · have hne : hourFacts db.facts (toLex (f.pool, h)) ≠ [] := by
      apply List.ne_nil_of_mem (a := f)
      rw [mem_hourFacts]
      exact ⟨hf, rfl, hh⟩
    have hget := hs.pools f.pool
    rw [poolHourOf, if_neg hne] at hget
    rw [Nat.succ_le_iff, List.countP_pos_iff]
    refine ⟨_, OrdMap.mem_filter.mpr ⟨OrdMap.get?_eq_some.mp hget, decide_eq_true rfl⟩, ?_⟩
    apply decide_eq_true
    rw [hourKey, hh]

/-- The volume of a protocol's hour is what its pools count. -/
theorem protocolHour_volume (rows : List PoolHour) :
    (∀ v, (protocolHour rows).usd .volume = some v →
      v = (rows.map (fun r => (r.usd.map Usd.volume).getD 0)).sum) ∧
    ((protocolHour rows).usd .volume = none →
      (rows.map (fun r => (r.usd.map Usd.volume).getD 0)).sum = 0) := by
  have hsum : (rows.map (fun r => (r.usd.map Usd.volume).getD 0)).sum =
      ((rows.map (fun r => r.usd.map Usd.volume)).map (fun x => x.getD 0)).sum := by
    rw [List.map_map]
    rfl
  have hcolumn : (protocolHour rows).usd .volume =
      if rows.isEmpty then some 0 else sumOption (rows.map (fun r => r.usd.map Usd.volume)) := rfl
  rw [hcolumn, hsum]
  split_ifs with hempty
  · rw [List.isEmpty_iff.mp hempty]
    simp
  · refine ⟨fun v hv => sumOption_eq_some hv, fun hnone => ?_⟩
    apply List.sum_eq_zero
    intro x hx
    obtain ⟨y, hy, rfl⟩ := List.mem_map.mp hx
    rw [sumOption_eq_none.mp hnone y hy]
    rfl

/-- In a summed hour the runs' volume is within the protocol's. -/
theorem SwapsSummed.runs_le {h : Int} (hs : SwapsSummed db h)
    (hd : Drawn db.facts through db.runs) (hn : ∀ f ∈ db.facts, 0 ≤ f.volume) {row : ProtocolHour}
    (hrow : db.protocolHourly.get? h = some row) :
    (∀ v, row.usd .volume = some v → runHoursSum db h ≤ v) ∧
      (row.usd .volume = none → runHoursSum db h = 0) := by
  obtain ⟨hle, hnonneg⟩ := runHoursSum_le hd hn h
  rw [hs.sum_eq] at hle
  rw [hs.protocol, Option.some.injEq] at hrow
  obtain ⟨hsome, hnone⟩ := protocolHour_volume (hourPools db.poolHourly h)
  rw [← hrow]
  constructor
  · intro v hv
    rw [hsome v hv]
    exact hle
  · intro hv
    have hzero : poolHoursSum db h = 0 := hnone hv
    exact le_antisymm (hzero ▸ hle) hnonneg

end Hour

end YogSothoth.Analytic
