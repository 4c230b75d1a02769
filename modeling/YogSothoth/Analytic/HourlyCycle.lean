import YogSothoth.Analytic.HourlySums

namespace YogSothoth.Analytic

open Hourly

variable {P : Type*} [LinearOrder P]

def hourMoves (moves : List LiquidityMove) (h : Int) : List LiquidityMove :=
  moves.filter (fun m => hourOf m.bucket = h)

/-- The hour's rows of the swaps are the sums of its facts. -/
structure SwapsSummed (db : Analytics P) (h : Int) : Prop where
  pools : ∀ pool, db.poolHourly.get? (toLex (pool, h)) = poolHourOf db.facts (toLex (pool, h))
  protocol : db.protocolHourly.get? h = some (protocolHour (hourPools db.poolHourly h))

structure Summed (db : Analytics P) (h : Int) : Prop extends SwapsSummed db h where
  liquidity : db.liquidityHourly.get? h = some (liquidityHour (hourMoves db.moves h))

/-- Facts and moves of the tranches before `next`, and no pool row without a fact. -/
structure Sound (db : Analytics P) (next : Int) : Prop where
  written : Written db.facts (next - tranche)
  moves : ∀ m ∈ db.moves, m.bucket % tranche = 0 ∧ m.bucket < next ∧
    m.bucket ≤ m.timestamp ∧ m.timestamp < m.bucket + tranche
  pools : ∀ k r, db.poolHourly.get? k = some r → hourFacts db.facts k ≠ []

/-- A cycle let through on the grid, up to `next'`. -/
structure Lands (c : CycleWrite) (next next' : Int) : Prop where
  fromAligned : c.from_ % hour = 0
  throughAligned : c.through % hour = 0
  nextAligned : next % tranche = 0
  starts : c.tranchesFrom = next
  le : next ≤ next'
  lands : next ≤ c.tranchesThrough → next' = c.tranchesThrough + tranche

theorem hourPools_congr {m m' : OrdMap (P ×ₗ Int) PoolHour} {h : Int}
    (heq : ∀ pool, m.get? (toLex (pool, h)) = m'.get? (toLex (pool, h))) :
    hourPools m h = hourPools m' h := by
  have hfilter : m.filter (fun e => (ofLex e.1).2 = h) = m'.filter (fun e => (ofLex e.1).2 = h) := by
    apply OrdMap.ext_get?
    intro k
    rw [OrdMap.get?_filter_key m (fun k => decide ((ofLex k).2 = h)),
      OrdMap.get?_filter_key m' (fun k => decide ((ofLex k).2 = h))]
    split_ifs with hk
    · obtain rfl : (ofLex k).2 = h := of_decide_eq_true hk
      exact heq (ofLex k).1
    · rfl
  rw [hourPools, hourPools, ← OrdMap.entries_filter, ← OrdMap.entries_filter, hfilter]

namespace Lands

variable {c : CycleWrite} {next next' : Int} {contents : Int → TrancheContents P}
  {db : Analytics P} {tables : Tables}

omit [LinearOrder P] in
theorem fact_bounds (hl : Lands c next next') {f : PoolFact P}
    (hf : f ∈ writtenFacts (fun b => (contents b).swaps) c.tranchesFrom c.tranchesThrough) :
    next ≤ f.bucket ∧ f.bucket ≤ next' - tranche ∧ f.bucket % tranche = 0 := by
  obtain ⟨hstart, hthrough, hmod⟩ := mem_writtenFacts _ hf
  rw [hl.starts] at hstart hmod
  have hnext := hl.lands (by omega)
  have haligned := hl.nextAligned
  simp only [tranche_eq] at *
  omega

omit [LinearOrder P] in
theorem move_bounds (hl : Lands c next next') {m : LiquidityMove}
    (hm : m ∈ writtenMoves contents c.tranchesFrom c.tranchesThrough) :
    m.bucket % tranche = 0 ∧ next ≤ m.bucket ∧ m.bucket < next' ∧
      m.bucket ≤ m.timestamp ∧ m.timestamp < m.bucket + tranche := by
  obtain ⟨b, hb, hm⟩ := List.mem_flatMap.mp hm
  obtain ⟨raw, hraw, rfl⟩ := List.mem_map.mp hm
  have htime : b ≤ raw.timestamp ∧ raw.timestamp < b + tranche :=
    of_decide_eq_true (List.mem_filter.mp hraw).2
  obtain ⟨hstart, hthrough, hmod⟩ := (mem_series (by decide)).mp hb
  rw [hl.starts] at hstart hmod
  have hnext := hl.lands (by omega)
  have haligned := hl.nextAligned
  refine ⟨?_, hstart, ?_, htime⟩
  · simp only [tranche_eq] at *
    omega
  · change b < next'
    simp only [tranche_eq] at *
    omega

theorem added (hl : Lands c next next') (hw : Written db.facts (next - tranche)) :
    Added db.facts (next - tranche)
      (writtenFacts (fun b => (contents b).swaps) c.tranchesFrom c.tranchesThrough)
      (next' - tranche) := by
  have hle := hl.le
  refine ⟨hw, fun f hf => (hl.fact_bounds hf).2.2, fun f hf => ?_, fun f hf =>
    (hl.fact_bounds hf).2.1, by omega⟩
  have := (hl.fact_bounds hf).1
  simp only [tranche_eq] at *
  omega

/-- An hour the tranches are past keeps its facts. -/
theorem hourFacts_eq (hl : Lands c next next') {k : P ×ₗ Int} (hk : (ofLex k).2 + hour ≤ next) :
    hourFacts (db.writeHours contents c tables).facts k = hourFacts db.facts k := by
  apply Added.filter_append_eq
  intro f hf
  have hbound := (hl.fact_bounds hf).1
  apply decide_eq_false
  intro hkey
  have hhour : hourOf f.bucket = (ofLex k).2 := congrArg (fun k => (ofLex k).2) hkey
  have := lt_hourOf_add f.bucket
  omega

theorem hourMoves_eq (hl : Lands c next next') {h : Int} (hh : h + hour ≤ next) :
    hourMoves (db.writeHours contents c tables).moves h = hourMoves db.moves h := by
  have hnone : (writtenMoves contents c.tranchesFrom c.tranchesThrough).filter
      (fun m => hourOf m.bucket = h) = [] := by
    rw [List.filter_eq_nil_iff]
    intro m hm
    have hbound := (hl.move_bounds hm).2.1
    have hlt := lt_hourOf_add m.bucket
    simp only [decide_eq_true_eq]
    omega
  rw [hourMoves, hourMoves, Analytics.writeHours, List.filter_append, hnone, List.append_nil]

theorem poolHourly_eq (hl : Lands c next next') (k : P ×ₗ Int) :
    (db.writeHours contents c tables).poolHourly.get? k =
      if (c.from_ ≤ (ofLex k).2 ∧ (ofLex k).2 ≤ c.through) ∧
          hourFacts (db.writeHours contents c tables).facts k ≠ [] then
        some (poolHour (hourFacts (db.writeHours contents c tables).facts k))
      else db.poolHourly.get? k :=
  get?_upsertPoolHourly hl.fromAligned hl.throughAligned db.poolHourly k

theorem protocolHourly_eq (hl : Lands c next next') (h : Int) :
    (db.writeHours contents c tables).protocolHourly.get? h =
      if c.from_ ≤ h ∧ h ≤ c.through ∧ h % hour = 0 then
        some (protocolHour (hourPools (db.writeHours contents c tables).poolHourly h))
      else db.protocolHourly.get? h :=
  get?_upsertProtocolHourly hl.fromAligned db.protocolHourly _ h

theorem liquidityHourly_eq (hl : Lands c next next') (h : Int) :
    (db.writeHours contents c tables).liquidityHourly.get? h =
      if (c.from_ ≤ h ∧ h ≤ c.through ∧ h % hour = 0) ∧
          liquidityFloor db.liquidityHourly next ≤ h then
        some (liquidityHour ((db.writeHours contents c tables).moves.filter
          (fun m => h ≤ m.timestamp ∧ m.timestamp < h + hour)))
      else db.liquidityHourly.get? h := by
  rw [← hl.starts]
  exact get?_upsertLiquidityHourly hl.fromAligned db.liquidityHourly _ _ h

theorem hourFacts_mono {k : P ×ₗ Int} (h : hourFacts db.facts k ≠ []) :
    hourFacts (db.writeHours contents c tables).facts k ≠ [] := by
  intro hnil
  have hfilter : (db.facts ++ writtenFacts (fun b => (contents b).swaps) c.tranchesFrom
      c.tranchesThrough).filter (fun f => hourKey f = k) = [] := hnil
  rw [List.filter_append, List.append_eq_nil_iff] at hfilter
  exact h hfilter.1

theorem sound (hl : Lands c next next') (hs : Sound db next) :
    Sound (db.writeHours contents c tables) next' := by
  have hle := hl.le
  refine ⟨(hl.added hs.written).written', ?_, ?_⟩
  · intro m hm
    rcases List.mem_append.mp hm with hm | hm
    · obtain ⟨ha, hlt, htime⟩ := hs.moves m hm
      exact ⟨ha, by omega, htime⟩
    · obtain ⟨ha, -, hlt, htime⟩ := hl.move_bounds hm
      exact ⟨ha, hlt, htime⟩
  · intro k r hr
    rw [hl.poolHourly_eq] at hr
    split_ifs at hr with h
    · exact h.2
    · exact hourFacts_mono (hs.pools k r hr)

/-- The hours a cycle rewrites are the sums of the facts there are then. -/
theorem swapsSummed (hl : Lands c next next') (hs : Sound db next) {h : Int} (hf : c.from_ ≤ h)
    (ht : h ≤ c.through) (hh : h % hour = 0) :
    SwapsSummed (db.writeHours contents c tables) h := by
  constructor
  · intro pool
    rw [hl.poolHourly_eq, poolHourOf]
    by_cases hnil : hourFacts (db.writeHours contents c tables).facts (toLex (pool, h)) = []
    · rw [if_neg (fun h => h.2 hnil), if_pos hnil, Option.eq_none_iff_forall_ne_some]
      intro r hr
      exact hourFacts_mono (hs.pools _ r hr) hnil
    · rw [if_pos ⟨⟨hf, ht⟩, hnil⟩, if_neg hnil]
  · rw [hl.protocolHourly_eq, if_pos ⟨hf, ht, hh⟩]

theorem hour_moves (hs : Sound db next) (h : Int) (hh : h % hour = 0) :
    db.moves.filter (fun m => h ≤ m.timestamp ∧ m.timestamp < h + hour) = hourMoves db.moves h := by
  apply List.filter_congr
  intro m hm
  obtain ⟨ha, -, hle, hlt⟩ := hs.moves m hm
  rw [decide_eq_decide, hourOf_eq_iff hh]
  simp only [hour_eq, tranche_eq] at *
  omega

theorem summed (hl : Lands c next next') (hs : Sound db next) {h : Int} (hf : c.from_ ≤ h)
    (ht : h ≤ c.through) (hh : h % hour = 0) (hfloor : liquidityFloor db.liquidityHourly next ≤ h) :
    Summed (db.writeHours contents c tables) h := by
  refine ⟨hl.swapsSummed hs hf ht hh, ?_⟩
  rw [hl.liquidityHourly_eq, if_pos ⟨⟨hf, ht, hh⟩, hfloor⟩, hour_moves (hl.sound hs) h hh]

/-- The hours before a cycle's first are left as they are. -/
theorem poolHourly_before (hl : Lands c next next') {h : Int} (hlt : h < c.from_) (pool : P) :
    (db.writeHours contents c tables).poolHourly.get? (toLex (pool, h)) =
      db.poolHourly.get? (toLex (pool, h)) := by
  rw [hl.poolHourly_eq, if_neg]
  rintro ⟨⟨hf, -⟩, -⟩
  change c.from_ ≤ h at hf
  omega

theorem protocolHourly_before (hl : Lands c next next') {h : Int} (hlt : h < c.from_) :
    (db.writeHours contents c tables).protocolHourly.get? h = db.protocolHourly.get? h := by
  rw [hl.protocolHourly_eq, if_neg]
  rintro ⟨hf, -⟩
  omega

theorem liquidityHourly_before (hl : Lands c next next') {h : Int} (hlt : h < c.from_) :
    (db.writeHours contents c tables).liquidityHourly.get? h = db.liquidityHourly.get? h := by
  rw [hl.liquidityHourly_eq, if_neg]
  rintro ⟨⟨hf, -⟩, -⟩
  omega

theorem swapsSummed_before (hl : Lands c next next') {h : Int} (hlt : h < c.from_)
    (hh : h + hour ≤ next) (hs : SwapsSummed db h) :
    SwapsSummed (db.writeHours contents c tables) h := by
  constructor
  · intro pool
    have hfacts : hourFacts (db.writeHours contents c tables).facts (toLex (pool, h)) =
        hourFacts db.facts (toLex (pool, h)) := hl.hourFacts_eq (show h + hour ≤ next from hh)
    rw [hl.poolHourly_before hlt, hs.pools, poolHourOf, poolHourOf, hfacts]
  · rw [hl.protocolHourly_before hlt, hs.protocol,
      hourPools_congr (fun pool => (hl.poolHourly_before hlt pool).symm)]

theorem summed_before (hl : Lands c next next') {h : Int} (hlt : h < c.from_)
    (hh : h + hour ≤ next) (hs : Summed db h) : Summed (db.writeHours contents c tables) h :=
  ⟨hl.swapsSummed_before hlt hh hs.toSwapsSummed, by
    rw [hl.liquidityHourly_before hlt, hs.liquidity, hl.hourMoves_eq hh]⟩

end Lands

end YogSothoth.Analytic
