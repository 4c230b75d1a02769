import YogSothoth.Analytic.Planning
import YogSothoth.Analytic.RunStarts
import YogSothoth.Analytic.SplitBars

namespace YogSothoth.Analytic

open Hourly RotationRuns

variable {P : Type*} [LinearOrder P]

/-- One worker's cycle at `now`: planned from the tables it is written against; a failure keeps
nothing. -/
def Analytics.cycleAt (contents : Int → TrancheContents P) (db : Analytics P) (now : Int) :
    Analytics P :=
  match db.writeCycle contents (.plan now db.tables.progress) with
  | .ok (db', _) => db'
  | .error _ => db

def Analytics.cyclesAt (contents : Int → TrancheContents P) (clocks : List Int) : Analytics P :=
  clocks.foldl (Analytics.cycleAt contents) .empty

/-- Where the hours of the next cycle start. -/
def nextFrom (db : Tables) (first : Int) : Int := db.progress.lastFrozen.elim first (· + hour)

theorem plan_from (now : Int) (progress : AnalyticProgress) :
    ((CycleWrite.plan now progress).withoutWritten progress).from_ =
      CycleWrite.planFrom (hourOf now) progress := by
  rw [CycleWrite.plan_eq, withoutWritten_idem, ← CycleWrite.plan_eq, plan_start]

theorem plan_through (now : Int) (progress : AnalyticProgress) :
    ((CycleWrite.plan now progress).withoutWritten progress).through =
      min (hourOf now) (CycleWrite.planFrom (hourOf now) progress + hour * 5) := rfl

theorem nextFrom_mono {db db' : Tables} {c written : CycleWrite} {first : Int} {n : Nat}
    (hg : Grid db' first n) (h : db.writeCycle c = .ok (db', written)) :
    nextFrom db first ≤ nextFrom db' first := by
  cases hl : db.progress.lastFrozen with
  | none =>
    rw [nextFrom, nextFrom, hl]
    cases hl' : db'.progress.lastFrozen with
    | none => exact le_rfl
    | some frozen =>
      have := (hg.lastFrozen hl').2.1
      simp only [Option.elim_none, Option.elim_some, hour_eq]
      omega
  | some frozen =>
    obtain ⟨e, he, rfl⟩ := Option.map_eq_some_iff.mp hl
    obtain ⟨he, hsome⟩ := OrdMap.mem_filter.mp (OrdMap.last?_some he).1
    obtain ⟨frozen', hf', hle⟩ := lastFrozen_max (writeCycle_keeps h he hsome) hsome
    rw [nextFrom, nextFrom, hl, hf']
    simp only [Option.elim_some]
    omega

theorem Analytics.writeCycle_of_tables {contents : Int → TrancheContents P} {db : Analytics P}
    {c written : CycleWrite} {tables : Tables}
    (h : db.tables.writeCycle c = .ok (tables, written)) :
    ∃ db', db.writeCycle contents c = .ok (db', c.withoutWritten db.tables.progress) := by
  rw [Tables.writeCycle] at h
  obtain ⟨recorded, hrecord, -⟩ := bind_eq_ok h
  rw [writeCycle]
  refine ⟨db.writeHours contents (c.withoutWritten db.tables.progress) recorded, ?_⟩
  simp only [hrecord, Except.map]

/-- An hour with a row: summed, and among those the next cycle rewrites or past them. -/
structure RowInv (db : Analytics P) (first last h : Int) : Prop where
  summed : SwapsSummed db h
  aligned : h % hour = 0
  first_le : first ≤ h
  le_last : h ≤ hourOf last
  le_from : h ≤ nextFrom db.tables first + hour * 5

/-- One worker's tables, no clock past `last`: the runs are those of the facts, and every row of an
hour is summed. -/
structure SplitInv (s : AnalyticState Unit P) (last : Int) : Prop where
  inv : AnalyticInv s
  nonneg : ∀ f ∈ s.db.facts, 0 ≤ f.volume
  running : s.executed ≠ [] → ∀ first n, Grid s.db.tables first n →
    s.db.tables.progress.firstHour = some first →
      Drawn s.db.facts (first + (n : Int) * tranche - tranche) s.db.runs ∧
        ∀ h ∈ s.db.protocolHourly.keys, RowInv s.db first last h

theorem SplitInv.init (last : Int) : SplitInv (.init : AnalyticState Unit P) last :=
  ⟨AnalyticInv.init, by simp [AnalyticState.init, Analytics.empty], fun h => absurd rfl h⟩

section Cycle

variable {s : AnalyticState Unit P} {tables recorded : Tables} {start next now last : Int}
  {n m : Nat} {contents : Int → TrancheContents P}

/-- The hours of a cycle start where the tables stand. -/
theorem Execution.from_eq (h : Execution s.base (.plan now s.db.tables.progress) tables start n m)
    (hs : AnalyticInv s) :
    ((CycleWrite.plan now s.db.tables.progress).withoutWritten s.db.tables.progress).from_ =
      nextFrom s.db.tables start := by
  rw [plan_from, planFrom_eq, nextFrom]
  rcases h.first with ⟨-, hf⟩ | ⟨he, -, rfl⟩
  · have hf : s.db.tables.progress.firstHour = some start := hf
    rw [hf]
    rfl
  · have hempty := hs.fresh he
    have hready := h.before.withoutWritten h.ready
    have hfrom : ((CycleWrite.plan now s.db.tables.progress).withoutWritten
        s.db.tables.progress).from_ = start := by
      have h1 := hready.first_le
      have h2 := hready.from_le
      change start ≤ ((CycleWrite.plan now s.db.tables.progress).withoutWritten
        s.db.tables.progress).from_ at h1
      change ((CycleWrite.plan now s.db.tables.progress).withoutWritten
        s.db.tables.progress).from_ ≤ _ at h2
      simp only [tranche_eq] at h2
      omega
    rw [plan_from, planFrom_eq, hempty] at hfrom
    rw [hempty]
    exact hfrom

/-- An hour before a cycle's first has all its tranches. -/
theorem Execution.hour_complete
    (h : Execution s.base (.plan now s.db.tables.progress) tables start n m) {b : Int}
    (hb : b % hour = 0) (hfirst : start ≤ b) (hlt : b < nextFrom s.db.tables start) :
    b + hour ≤ start + (n : Int) * tranche := by
  rw [nextFrom] at hlt
  cases hl : s.db.tables.progress.lastFrozen with
  | none =>
    rw [hl, Option.elim_none] at hlt
    omega
  | some frozen =>
    rw [hl, Option.elim_some] at hlt
    obtain ⟨ha, -, hle⟩ := h.before.lastFrozen hl
    simp only [hour_eq] at *
    omega

theorem SplitInv.before (hs : SplitInv s last)
    (h : Execution s.base (.plan now s.db.tables.progress) tables start n m) :
    Drawn s.db.facts (start + (n : Int) * tranche - tranche) s.db.runs ∧
      ∀ b ∈ s.db.protocolHourly.keys, RowInv s.db start last b := by
  rcases h.first with ⟨he, hf⟩ | ⟨he, -, -⟩
  · exact hs.running he start n h.before hf
  · have hempty := hs.inv.fresh he
    rw [hempty]
    exact ⟨Drawn.empty, by simp [Analytics.empty, OrdMap.keys]⟩

/-- After a cycle at a clock no earlier, every row is summed from the facts there are then. -/
theorem SplitInv.rows (hs : SplitInv s last) (hlast : last ≤ now)
    (h : Execution s.base (.plan now s.db.tables.progress) tables start n m)
    (hl : Lands ((CycleWrite.plan now s.db.tables.progress).withoutWritten s.db.tables.progress)
      (start + (n : Int) * tranche) (start + ((n + m : Nat) : Int) * tranche))
    {db : Analytics P}
    (hdb : db = s.db.writeHours contents ((CycleWrite.plan now
      s.db.tables.progress).withoutWritten s.db.tables.progress) recorded)
    (hfrom : nextFrom s.db.tables start ≤ nextFrom db.tables start) {b : Int}
    (hb : b ∈ db.protocolHourly.keys) : RowInv db start now b := by
  have hstart := h.from_eq hs.inv
  have hthrough := plan_through now s.db.tables.progress
  rw [← plan_from, hstart] at hthrough
  have hready := (h.before.withoutWritten h.ready).first_le
  change start ≤ ((CycleWrite.plan now s.db.tables.progress).withoutWritten
    s.db.tables.progress).from_ at hready
  rw [hstart] at hready
  have hsound := (hs.inv.before h).1
  subst hdb
  by_cases hin : nextFrom s.db.tables start ≤ b ∧
      b ≤ min (hourOf now) (nextFrom s.db.tables start + hour * 5) ∧ b % hour = 0
  · obtain ⟨hlow, hhigh, haligned⟩ := hin
    refine ⟨hl.swapsSummed hsound (hstart.trans_le hlow) (hhigh.trans_eq hthrough.symm) haligned,
      haligned, hready.trans hlow, hhigh.trans (min_le_left _ _), ?_⟩
    have := hhigh.trans (min_le_right _ _)
    omega
  · have hold : b ∈ s.db.protocolHourly.keys := by
      obtain ⟨r, hr⟩ := OrdMap.mem_keys.mp hb
      rw [hl.protocolHourly_eq, hstart, hthrough, if_neg hin] at hr
      exact OrdMap.mem_keys.mpr ⟨r, hr⟩
    have hrow := (hs.before h).2 b hold
    have hclock : b ≤ hourOf now := hrow.le_last.trans (hourOf_mono hlast)
    have hlt : b < nextFrom s.db.tables start := by
      by_contra hge
      exact hin ⟨by omega, le_min hclock hrow.le_from, hrow.aligned⟩
    have hcomplete := h.hour_complete hrow.aligned hrow.first_le hlt
    refine ⟨hl.swapsSummed_before (hlt.trans_eq hstart.symm) hcomplete hrow.summed, hrow.aligned,
      hrow.first_le, hclock, ?_⟩
    have := hrow.le_from
    omega

/-- Valued tranches carry volumes of 0 or more. -/
def NonNegative (contents : Int → TrancheContents P) : Prop :=
  ∀ b, ∀ c ∈ (contents b).swaps, ∀ u, c.usd = some u → 0 ≤ u .volumeInA ∧ 0 ≤ u .volumeInB

omit [LinearOrder P] in
theorem NonNegative.volume (hc : NonNegative contents) {a b : Int} {f : PoolFact P}
    (hf : f ∈ writtenFacts (fun b => (contents b).swaps) a b) : 0 ≤ f.volume := by
  obtain ⟨t, -, hf⟩ := List.mem_flatMap.mp hf
  obtain ⟨c, hmem, rfl⟩ := List.mem_map.mp hf
  rw [PoolFact.volume]
  change 0 ≤ (c.usd.map Usd.volume).getD 0
  cases hu : c.usd with
  | none => exact le_rfl
  | some u =>
    obtain ⟨ha, hb⟩ := hc t c hmem u hu
    exact add_nonneg ha hb

/-- After the first cycle executed, the tables have an hour. -/
theorem AnalyticInv.started {W : Type*} {s : AnalyticState W P} (hs : AnalyticInv s) :
    s.executed = [] ∨ s.db.tables.progress.firstHour.isSome := by
  by_cases he : s.executed = []
  · exact Or.inl he
  · obtain ⟨first, n, -, hf, -⟩ := hs.base.running he
    have hf : s.db.tables.progress.firstHour = some first := hf
    right
    rw [hf]
    rfl

/-- The worker's plan executed against the tables it was made from. -/
theorem SplitInv.execute (hs : SplitInv s last) (hlast : last ≤ now) (hc : NonNegative contents)
    (inFlight : s.planned () =
      some ⟨s.db.tables.progress, .plan now s.db.tables.progress⟩)
    (first : s.executed = [] ∨ s.db.tables.progress.firstHour.isSome) :
    ∃ s' : AnalyticState Unit P, s'.db = s.db.cycleAt contents now ∧ SplitInv s' now := by
  obtain ⟨start, n, m, tables, hexec, -⟩ := hs.inv.base.execute inFlight first
  obtain ⟨db, hcommit⟩ : ∃ db, s.db.writeCycle contents (.plan now s.db.tables.progress) = .ok (db,
      (CycleWrite.plan now s.db.tables.progress).withoutWritten s.db.tables.progress) :=
    Analytics.writeCycle_of_tables hexec.commit
  have hinv := hs.inv.step (AnalyticStep.execute s () _ contents db _ inFlight first hcommit)
  obtain ⟨-, ⟨recorded, hdb⟩, htables⟩ := Analytics.writeCycle_ok hcommit
  have hcycle : db = s.db.cycleAt contents now := by rw [Analytics.cycleAt, hcommit]
  have hl : Lands ((CycleWrite.plan now s.db.tables.progress).withoutWritten s.db.tables.progress)
      (start + (n : Int) * tranche) (start + ((n + m : Nat) : Int) * tranche) :=
    hexec.lands_on (hs.inv.plans () _ inFlight)
  have hafter : Grid db.tables start (n + m) := hexec.tables_eq hcommit ▸ hexec.after
  have hfirst : db.tables.progress.firstHour = some start :=
    hexec.tables_eq hcommit ▸ hexec.firstHour
  have hfrom := nextFrom_mono hafter htables
  refine ⟨_, hcycle, hinv, ?_, ?_⟩
  · intro f hf
    change f ∈ db.facts at hf
    rw [hdb] at hf
    rcases List.mem_append.mp hf with hf | hf
    · exact hs.nonneg f hf
    · exact hc.volume hf
  · intro _ start' n' hg hf
    obtain rfl : start = start' := Option.some.inj (hfirst.symm.trans hf)
    obtain rfl := hg.count_eq hafter
    constructor
    · change Drawn db.facts _ db.runs
      rw [hdb]
      refine hl.drawn ?_ (hs.inv.before hexec).1.written (hs.before hexec).1
      intro hnot
      have hlands := hexec.lands
      change if start + (n : Int) * tranche ≤ ((CycleWrite.plan now
        s.db.tables.progress).withoutWritten s.db.tables.progress).tranchesThrough
          then _ else m = 0 at hlands
      rw [if_neg hnot] at hlands
      rw [hlands, Nat.add_zero]
    · intro b hb
      exact hs.rows hlast hexec hl hdb hfrom hb

/-- One cycle of the worker. -/
theorem SplitInv.cycleAt (hs : SplitInv s last) (hlast : last ≤ now) (hc : NonNegative contents) :
    ∃ s' : AnalyticState Unit P, s'.db = s.db.cycleAt contents now ∧ SplitInv s' now := by
  have hplanned : SplitInv { s with
      planned := Function.update s.planned ()
        (some ⟨s.db.tables.progress, .plan now s.db.tables.progress⟩) } last :=
    ⟨hs.inv.step (AnalyticStep.plan s () now), hs.nonneg, hs.running⟩
  exact hplanned.execute hlast hc (Function.update_self () _ s.planned) hs.inv.started

theorem SplitInv.cyclesAt (hs : SplitInv s last) {clocks : List Int}
    (hclocks : (last :: clocks).Pairwise (· ≤ ·)) (hc : NonNegative contents) :
    ∃ s' : AnalyticState Unit P, ∃ last',
      s'.db = clocks.foldl (Analytics.cycleAt contents) s.db ∧ SplitInv s' last' := by
  induction clocks generalizing s last with
  | nil => exact ⟨s, last, rfl, hs⟩
  | cons now clocks ih =>
    obtain ⟨hle, htail⟩ := List.pairwise_cons.mp hclocks
    obtain ⟨s', hdb, hs'⟩ := hs.cycleAt (hle now List.mem_cons_self) hc
    rw [List.foldl_cons, ← hdb]
    exact ih hs' htail

/-- A cycle at once is a step of any worker, or none at all. -/
theorem AnalyticReachable.cycleAt {W : Type*} [DecidableEq W] {s : AnalyticState W P}
    (hs : AnalyticReachable s) (contents : Int → TrancheContents P) (w : W) (now : Int) :
    ∃ s' : AnalyticState W P, Relation.ReflTransGen AnalyticStep s s' ∧
      s'.db = s.db.cycleAt contents now := by
  cases hcommit : s.db.writeCycle contents (.plan now s.db.tables.progress) with
  | error e =>
    have hdb : s.db = s.db.cycleAt contents now := by rw [Analytics.cycleAt, hcommit]
    exact ⟨s, Relation.ReflTransGen.refl, hdb⟩
  | ok r =>
    obtain ⟨db, written⟩ := r
    have hdb : db = s.db.cycleAt contents now := by rw [Analytics.cycleAt, hcommit]
    have hplan := Relation.ReflTransGen.single (AnalyticStep.plan s w now)
    have hexecute := AnalyticStep.execute { s with
      planned := Function.update s.planned w
        (some ⟨s.db.tables.progress, .plan now s.db.tables.progress⟩) } w
      ⟨s.db.tables.progress, .plan now s.db.tables.progress⟩ contents db written
      (Function.update_self ..) hs.inv.started hcommit
    exact ⟨_, hplan.tail hexecute, hdb⟩

theorem AnalyticReachable.cyclesAt {W : Type*} [DecidableEq W]
    (contents : Int → TrancheContents P) (w : W) (clocks : List Int) :
    ∃ s : AnalyticState W P, AnalyticReachable s ∧ s.db = Analytics.cyclesAt contents clocks := by
  induction clocks using List.reverseRecOn with
  | nil => exact ⟨.init, Relation.ReflTransGen.refl, rfl⟩
  | append_singleton clocks now ih =>
    obtain ⟨s, hs, hdb⟩ := ih
    obtain ⟨s', hsteps, hdb'⟩ := hs.cycleAt contents w now
    refine ⟨s', Relation.ReflTransGen.trans hs hsteps, ?_⟩
    rw [hdb', hdb, Analytics.cyclesAt, Analytics.cyclesAt, List.foldl_append]
    rfl

end Cycle

/-- What a run of cycles leaves: the runs of its facts, and rows that hold them. -/
theorem cyclesAt_split {contents : Int → TrancheContents P} (hc : NonNegative contents)
    {clocks : List Int} (hclocks : clocks.Pairwise (· ≤ ·)) :
    ∃ through, Written (Analytics.cyclesAt contents clocks).facts through ∧
      Drawn (Analytics.cyclesAt contents clocks).facts through
        (Analytics.cyclesAt contents clocks).runs ∧
      (∀ f ∈ (Analytics.cyclesAt contents clocks).facts, 0 ≤ f.volume) ∧
      ∀ h ∈ (Analytics.cyclesAt contents clocks).protocolHourly.keys,
        SwapsSummed (Analytics.cyclesAt contents clocks) h := by
  have hsorted : (clocks.headD 0 :: clocks).Pairwise (· ≤ ·) := by
    cases clocks with
    | nil => simp
    | cons now clocks =>
      rw [List.pairwise_cons]
      refine ⟨?_, hclocks⟩
      intro t ht
      rcases List.mem_cons.mp ht with rfl | ht
      · exact le_rfl
      · exact (List.pairwise_cons.mp hclocks).1 t ht
  obtain ⟨s, last, hdb, hs⟩ := (SplitInv.init (clocks.headD 0)).cyclesAt hsorted hc
  have hdb : s.db = Analytics.cyclesAt contents clocks := hdb
  rw [← hdb]
  by_cases he : s.executed = []
  · have hempty := hs.inv.fresh he
    rw [hempty]
    have hsound : Sound (.empty : Analytics P) tranche := Sound.empty
    exact ⟨_, hsound.written, Drawn.empty, by simp [Analytics.empty],
      by simp [Analytics.empty, OrdMap.keys]⟩
  · obtain ⟨first, n, hg, hf, -⟩ := hs.inv.base.running he
    obtain ⟨hdrawn, hrows⟩ := hs.running he first n hg hf
    exact ⟨_, (hs.inv.running he first n hg hf).sound.written, hdrawn, hs.nonneg,
      fun h hh => (hrows h hh).summed⟩

/-- One worker at clocks that do not go back: after every cycle, the runs' volume of an hour is
within the protocol's, and no bar read has more in runs than its volume. -/
theorem cyclesAt_within (contents : Int → TrancheContents P) (hc : NonNegative contents)
    (clocks : List Int) (hclocks : clocks.Pairwise (· ≤ ·))
    (decimal : ℚ → String → Except RepositoryError ℚ)
    (hdecimal : ∀ a b f g a' b', a ≤ b → decimal a f = .ok a' → decimal b g = .ok b' → a' ≤ b') :
    let db := Analytics.cyclesAt contents clocks
    (∀ h row, db.protocolHourly.get? h = some row →
      (∀ v, row.usd .volume = some v → runHoursSum db h ≤ v) ∧
        (row.usd .volume = none → runHoursSum db h = 0)) ∧
    (∀ period runsSince bars, RunSplit.listHourly decimal db period runsSince = .ok bars →
      ∀ bar ∈ bars, bar.Within) ∧
    (∀ period width runsSince bars,
      RunSplit.listBuckets decimal db period width runsSince = .ok bars →
        ∀ bar ∈ bars, bar.Within) ∧
    (∀ period runsSince bars, RunSplit.listTranches decimal db period runsSince = .ok bars →
      ∀ bar ∈ bars, bar.Within) := by
  intro db
  obtain ⟨through, hw, hd, hn, hrows⟩ := cyclesAt_split hc hclocks
  have hhold : HoursHold db := by
    intro h row hrow
    exact (hrows h (OrdMap.mem_keys.mpr ⟨row, hrow⟩)).runs_le hd hn hrow
  refine ⟨hhold, ?_, ?_, ?_⟩
  · intro period runsSince bars hbars
    exact RunSplit.within_mapM hdecimal (RunSplit.hourlyRows_within hhold period runsSince) hbars
  · intro period width runsSince bars hbars
    exact RunSplit.within_mapM hdecimal
      (RunSplit.bucketRows_within hhold period width runsSince) hbars
  · intro period runsSince bars hbars
    exact RunSplit.within_mapM hdecimal
      (RunSplit.trancheRows_within hw hd hn period runsSince) hbars

theorem oneTrade_nonNegative : NonNegative oneTrade := by
  intro b c hmem u hu
  rw [oneTrade] at hmem
  split_ifs at hmem
  · obtain rfl := List.mem_singleton.mp hmem
    obtain rfl := Option.some.inj hu
    exact ⟨zero_le_one, zero_le_one⟩
  · simp at hmem

theorem cyclesAt_within_traded :
    ((Analytics.cyclesAt oneTrade [minutes 620, minutes 680]).protocolHourly.get?
      (minutes 600)).isSome ∧
    ∀ row, (Analytics.cyclesAt oneTrade [minutes 620, minutes 680]).protocolHourly.get?
        (minutes 600) = some row →
      ∀ v, row.usd .volume = some v →
        runHoursSum (Analytics.cyclesAt oneTrade [minutes 620, minutes 680]) (minutes 600) ≤ v := by
  have hwithin := cyclesAt_within oneTrade oneTrade_nonNegative [minutes 620, minutes 680]
    (by decide) (fun a _ => .ok a) (by
      intro a b f g a' b' hle ha hb
      cases ha
      cases hb
      exact hle)
  refine ⟨by decide +kernel, ?_⟩
  intro row hrow v hv
  exact (hwithin.1 (minutes 600) row hrow).1 v hv

end YogSothoth.Analytic
