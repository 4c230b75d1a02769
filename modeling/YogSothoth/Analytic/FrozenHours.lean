import YogSothoth.Analytic.HourlyCycle

namespace YogSothoth.Analytic

open Hourly

variable {P : Type*} [LinearOrder P] {W : Type*}

/-- The analytic tables, each worker's cycle in flight, and the cycles executed so far. -/
structure AnalyticState (W P : Type*) [LinearOrder P] where
  db : Analytics P
  planned : W → Option Planned
  executed : List Executed

namespace AnalyticState

def init : AnalyticState W P := ⟨.empty, fun _ => none, []⟩

/-- The progress of the cycles, without what they sum. -/
def base (s : AnalyticState W P) : State W := ⟨s.db.tables, s.planned, s.executed⟩

end AnalyticState

/-- As `Step`, with what each cycle finds to value in its tranches. -/
inductive AnalyticStep [DecidableEq W] : AnalyticState W P → AnalyticState W P → Prop
  | plan (s : AnalyticState W P) (w : W) (now : Int) :
    AnalyticStep s { s with
      planned := Function.update s.planned w
        (some ⟨s.db.tables.progress, .plan now s.db.tables.progress⟩) }
  | execute (s : AnalyticState W P) (w : W) (p : Planned) (contents : Int → TrancheContents P)
    (db : Analytics P) (written : CycleWrite) (inFlight : s.planned w = some p)
    (first : s.executed = [] ∨ p.reading.firstHour.isSome)
    (commit : s.db.writeCycle contents p.cycle = .ok (db, written)) :
    AnalyticStep s
      ⟨db, Function.update s.planned w none, s.executed ++ [⟨s.db.tables, written⟩]⟩
  | abandon (s : AnalyticState W P) (w : W) :
    AnalyticStep s { s with planned := Function.update s.planned w none }

def AnalyticReachable [DecidableEq W] (s : AnalyticState W P) : Prop :=
  Relation.ReflTransGen AnalyticStep .init s

theorem Analytics.writeCycle_ok {contents : Int → TrancheContents P} {db db' : Analytics P}
    {c written : CycleWrite} (h : db.writeCycle contents c = .ok (db', written)) :
    written = c.withoutWritten db.tables.progress ∧
      (∃ tables, db' = db.writeHours contents written tables) ∧
      db.tables.writeCycle c = .ok (db'.tables, written) := by
  rw [writeCycle] at h
  cases hrecord : db.tables.recordTranches (c.withoutWritten db.tables.progress).tranchesFrom
      (c.withoutWritten db.tables.progress).tranchesThrough
      (c.withoutWritten db.tables.progress).at_ with
  | error e =>
    simp only [hrecord, Except.map] at h
    cases h
  | ok tables =>
    simp only [hrecord, Except.map, Except.ok.injEq, Prod.mk.injEq] at h
    obtain ⟨rfl, rfl⟩ := h
    refine ⟨rfl, ⟨tables, rfl⟩, ?_⟩
    simp only [Tables.writeCycle, hrecord, bind, Except.bind, writeHours]
    cases (c.withoutWritten db.tables.progress).freezeThrough <;> rfl

/-- The cycles' progress goes its own way, whatever they sum. -/
theorem AnalyticStep.base [DecidableEq W] {s s' : AnalyticState W P} (h : AnalyticStep s s') :
    Step s.base s'.base := by
  cases h with
  | plan w now => exact Step.plan s.base w now
  | execute w p contents db written inFlight first commit =>
    exact Step.execute s.base w p db.tables written inFlight first
      (Analytics.writeCycle_ok commit).2.2
  | abandon w => exact Step.abandon s.base w

theorem AnalyticReachable.base [DecidableEq W] {s : AnalyticState W P} (h : AnalyticReachable s) :
    Reachable s.base := by
  induction h with
  | refl => exact Relation.ReflTransGen.refl
  | tail _ hstep ih => exact ih.tail hstep.base

section Frozen

variable {db db' : Tables} {c written : CycleWrite} {first : Int} {n : Nat}

theorem freezeThrough_le {through : Int} (progress : AnalyticProgress)
    (h : (c.withoutWritten progress).freezeThrough = some through) : through ≤ c.through := by
  obtain ⟨h, -⟩ := Option.filter_eq_some_iff.mp h
  obtain ⟨e, -, rfl⟩ := Option.map_eq_some_iff.mp h
  omega

theorem recordTranches_hours {start through at_ : Int}
    (h : db.recordTranches start through at_ = .ok db') : db'.hours = db.hours := by
  rw [Tables.recordTranches] at h
  cases hfold : (series start through tranche).foldlM (Tables.insertTranche at_) db.tranches with
  | error e =>
    rw [hfold] at h
    cases h
  | ok tranches =>
    rw [hfold] at h
    cases h
    rfl

theorem recordHours_frozen {start through : Int} {e : Int × Option Int}
    (he : e ∈ (db.recordHours start through).hours.entries) (hs : e.2.isSome) :
    e ∈ db.hours.entries := by
  rcases recordHours_mem he with he | ⟨-, hnone⟩
  · exact he
  · rw [hnone] at hs
    cases hs

theorem freeze_frozen {start through at_ : Int} {e : Int × Option Int}
    (he : e ∈ (db.freeze start through at_).hours.entries) (hs : e.2.isSome) :
    e ∈ db.hours.entries ∨ (start ≤ e.1 ∧ e.1 ≤ through) := by
  obtain ⟨e', he', rfl⟩ := List.mem_map.mp he
  by_cases hin : start ≤ e'.1 ∧ e'.1 ≤ through
  · exact Or.inr hin
  · left
    rw [Tables.freezeHour, if_neg hin]
    exact he'

/-- What is frozen after a cycle was so before, or is among the hours it rewrote. -/
theorem writeCycle_frozen (h : db.writeCycle c = .ok (db', written)) {e : Int × Option Int}
    (he : e ∈ db'.hours.entries) (hs : e.2.isSome) :
    e ∈ db.hours.entries ∨ (written.from_ ≤ e.1 ∧ e.1 ≤ written.through) := by
  rw [Tables.writeCycle] at h
  cases hrecord : db.recordTranches (c.withoutWritten db.progress).tranchesFrom
      (c.withoutWritten db.progress).tranchesThrough (c.withoutWritten db.progress).at_ with
  | error err =>
    simp only [hrecord, bind, Except.bind] at h
    cases h
  | ok tables =>
    have hhours := recordTranches_hours hrecord
    simp only [hrecord, bind, Except.bind] at h
    cases hfreeze : (c.withoutWritten db.progress).freezeThrough with
    | none =>
      rw [hfreeze] at h
      cases h
      left
      rw [← hhours]
      exact recordHours_frozen he hs
    | some through =>
      rw [hfreeze] at h
      cases h
      rcases freeze_frozen he hs with he | ⟨hfrom, hle⟩
      · left
        rw [← hhours]
        exact recordHours_frozen he hs
      · have hthrough : (c.withoutWritten db.progress).through = c.through := rfl
        have := freezeThrough_le db.progress hfreeze
        exact Or.inr ⟨hfrom, by omega⟩

theorem recordHour_keeps {hours : OrdMap Int (Option Int)} {bucket : Int} {e : Int × Option Int}
    (he : e ∈ hours.entries) : e ∈ (Tables.recordHour hours bucket).entries := by
  rw [Tables.recordHour]
  split_ifs with h
  · exact he
  · rw [OrdMap.mem_insert]
    right
    refine ⟨he, fun hb => h ?_⟩
    rw [← hb, OrdMap.get?_eq_some.mpr he]
    rfl

/-- A frozen hour keeps its row. -/
theorem writeCycle_keeps (h : db.writeCycle c = .ok (db', written)) {e : Int × Option Int}
    (he : e ∈ db.hours.entries) (hs : e.2.isSome) : e ∈ db'.hours.entries := by
  rw [Tables.writeCycle] at h
  cases hrecord : db.recordTranches (c.withoutWritten db.progress).tranchesFrom
      (c.withoutWritten db.progress).tranchesThrough (c.withoutWritten db.progress).at_ with
  | error err =>
    simp only [hrecord, bind, Except.bind] at h
    cases h
  | ok tables =>
    have hrecorded : ∀ buckets : List Int,
        e ∈ (buckets.foldl Tables.recordHour tables.hours).entries := by
      intro buckets
      rw [← recordTranches_hours hrecord] at he
      clear h
      induction buckets using List.reverseRecOn with
      | nil => exact he
      | append_singleton buckets b ih =>
        rw [List.foldl_append]
        exact recordHour_keeps ih
    simp only [hrecord, bind, Except.bind] at h
    cases hfreeze : (c.withoutWritten db.progress).freezeThrough with
    | none =>
      rw [hfreeze] at h
      cases h
      exact hrecorded _
    | some through =>
      rw [hfreeze] at h
      cases h
      refine List.mem_map.mpr ⟨e, hrecorded _, ?_⟩
      obtain ⟨frozen, hfrozen⟩ := Option.isSome_iff_exists.mp hs
      rw [Tables.freezeHour]
      apply Prod.ext
      · rfl
      · change (if _ then e.2.or _ else e.2) = e.2
        rw [hfrozen]
        simp

theorem Grid.plan_through (hg : Grid db first n) (now : Int) :
    (CycleWrite.plan now db.progress).through % hour = 0 := by
  have hnow : hourOf now % hour = 0 := hourOf_mod now
  have hfrom : CycleWrite.planFrom (hourOf now) db.progress % hour = 0 := by
    rw [planFrom_eq]
    cases hl : db.progress.lastFrozen with
    | none =>
      cases hf : db.progress.firstHour with
      | none => exact hnow
      | some start =>
        obtain ⟨e, he, rfl⟩ := List.mem_map.mp (firstHour_mem hf)
        exact (hg.hours e he).1
    | some frozen =>
      have haligned := (hg.lastFrozen hl).1
      simp only [Option.elim_some, hour_eq] at *
      omega
  change min (hourOf now) (CycleWrite.planFrom (hourOf now) db.progress +
    hour * (maxHoursPerCycle - 1)) % hour = 0
  simp only [maxHoursPerCycle, hour_eq] at *
  omega

end Frozen

/-- After a cycle: the tables hold what the facts before the next tranche sum to, the liquidity
from the first hour on, and every frozen hour is summed. -/
structure Running (db : Analytics P) (first : Int) (n : Nat) : Prop where
  sound : Sound db (first + (n : Int) * tranche)
  liquidity : first ∈ db.liquidityHourly.keys ∧ ∀ k ∈ db.liquidityHourly.keys, first ≤ k
  frozen : ∀ e ∈ db.tables.hours.entries, e.2.isSome → Summed db e.1

/-- Before the first cycle nothing is written; after it the tables are running. -/
structure AnalyticInv (s : AnalyticState W P) : Prop where
  base : Inv s.base
  plans : ∀ w p, s.planned w = some p → p.cycle.through % hour = 0
  fresh : s.executed = [] → s.db = .empty
  running : s.executed ≠ [] → ∀ first n, Grid s.db.tables first n →
    s.db.tables.progress.firstHour = some first → Running s.db first n

theorem AnalyticInv.init : AnalyticInv (.init : AnalyticState W P) :=
  ⟨Inv.init, by simp [AnalyticState.init], fun _ => rfl, fun h => absurd rfl h⟩

theorem Sound.empty {next : Int} : Sound (.empty : Analytics P) next :=
  ⟨⟨by simp [Analytics.empty], by simp [Analytics.empty]⟩, by simp [Analytics.empty],
    by simp [Analytics.empty]⟩

theorem Grid.count_eq {db : Tables} {first : Int} {n n' : Nat} (h : Grid db first n)
    (h' : Grid db first n') : n = n' := by
  have hlength := congrArg List.length (h.tranches.symm.trans h'.tranches)
  simpa [grid] using hlength

/-- The cycle lands where the tables then go. -/
theorem Execution.lands_on {s : State W} {c : CycleWrite} {db : Tables} {start : Int} {n m : Nat}
    (h : Execution s c db start n m) (hthrough : c.through % hour = 0) :
    Lands (c.withoutWritten s.db.progress) (start + (n : Int) * tranche)
      (start + ((n + m : Nat) : Int) * tranche) := by
  have hready := h.before.withoutWritten h.ready
  have haligned := h.before.aligned
  have hlands := h.lands
  refine ⟨hready.fromAligned, hthrough, ?_, h.before.tranchesFromAfter h.ready, ?_, ?_⟩
  · simp only [hour_eq, tranche_eq] at *
    omega
  · simp only [tranche_eq]
    omega
  · intro hle
    change start + (n : Int) * tranche ≤ c.tranchesThrough at hle
    rw [if_pos hle] at hlands
    exact hlands.symm

theorem liquidityFloor_fresh {hourly : OrdMap Int LiquidityHour} {start : Int}
    (hkeys : hourly.keys = []) (ha : start % hour = 0) : liquidityFloor hourly start = start := by
  have hnone : hourly.first? = none := OrdMap.first?_none.mpr (List.map_eq_nil_iff.mp hkeys)
  rw [liquidityFloor, hnone]
  change hourOf (start - microsecond) + hour = start
  simp only [hourOf, durationTrunc, microsecond, hour_eq] at *
  omega

theorem liquidityFloor_running {hourly : OrdMap Int LiquidityHour} {start : Int}
    (hmem : start ∈ hourly.keys) (hle : ∀ k ∈ hourly.keys, start ≤ k) (next : Int) :
    liquidityFloor hourly next = start := by
  obtain ⟨e, he, rfl⟩ := List.mem_map.mp hmem
  cases hf : hourly.first? with
  | none => simp [OrdMap.first?_none.mp hf] at he
  | some e' =>
    obtain ⟨he', hmin⟩ := OrdMap.first?_some hf
    have h1 := hle e'.1 (List.mem_map_of_mem he')
    have h2 := hmin e he
    rw [liquidityFloor, hf]
    change e'.1 = e.1
    omega

theorem Execution.tables_eq {s : AnalyticState W P} {c written : CycleWrite} {tables : Tables}
    {start : Int} {n m : Nat} (h : Execution s.base c tables start n m)
    {contents : Int → TrancheContents P} {db : Analytics P}
    (hcommit : s.db.writeCycle contents c = .ok (db, written)) : tables = db.tables := by
  have hdb := h.commit.symm.trans (Analytics.writeCycle_ok hcommit).2.2
  exact (Prod.mk.inj (Except.ok.inj hdb)).1

namespace AnalyticInv

variable {s : AnalyticState W P} {c : CycleWrite} {tables : Tables} {start : Int} {n m : Nat}

/-- What a cycle finds: sound tables, the liquidity measured from `start`, frozen hours summed. -/
theorem before (hs : AnalyticInv s) (h : Execution s.base c tables start n m) :
    Sound s.db (start + (n : Int) * tranche) ∧
      liquidityFloor s.db.liquidityHourly (start + (n : Int) * tranche) = start ∧
      (∀ k ∈ s.db.liquidityHourly.keys, start ≤ k) ∧
      (start ∈ s.db.liquidityHourly.keys ∨ ((c.withoutWritten s.db.tables.progress).from_ = start ∧
        start ≤ c.through)) ∧
      ∀ e ∈ s.db.tables.hours.entries, e.2.isSome → Summed s.db e.1 := by
  rcases h.first with ⟨he, hf⟩ | ⟨he, hle, rfl⟩
  · have hrunning := hs.running he start n h.before hf
    exact ⟨hrunning.sound, liquidityFloor_running hrunning.liquidity.1 hrunning.liquidity.2 _,
      hrunning.liquidity.2, Or.inl hrunning.liquidity.1, hrunning.frozen⟩
  · have hempty := hs.fresh he
    have hkeys : s.db.liquidityHourly.keys = [] := by rw [hempty]; rfl
    have hready := h.before.withoutWritten h.ready
    have hfrom : (c.withoutWritten s.db.tables.progress).from_ = start := by
      have h1 := hready.first_le
      have h2 := hready.from_le
      simp only [tranche_eq] at h2
      change start ≤ (c.withoutWritten s.db.tables.progress).from_ at h1
      change (c.withoutWritten s.db.tables.progress).from_ ≤ _ at h2
      omega
    refine ⟨hempty ▸ Sound.empty, ?_, by simp [hkeys], Or.inr ⟨hfrom, hle⟩, ?_⟩
    · rw [show start + ((0 : Nat) : Int) * tranche = start by simp]
      exact liquidityFloor_fresh hkeys h.before.aligned
    · rw [hempty]
      simp [Analytics.empty, Tables.empty]

/-- A cycle leaves the tables running. -/
theorem execute (hs : AnalyticInv s) (h : Execution s.base c tables start n m)
    (hthrough : c.through % hour = 0) (contents : Int → TrancheContents P) {db : Analytics P}
    (hcommit : s.db.writeCycle contents c = .ok (db, c.withoutWritten s.db.tables.progress)) :
    Running db start (n + m) := by
  obtain ⟨-, ⟨recorded, rfl⟩, htables⟩ := Analytics.writeCycle_ok hcommit
  obtain ⟨hsound, hfloor, hkeys, hstart, hfrozen⟩ := hs.before h
  have hl : Lands (c.withoutWritten s.db.tables.progress) (start + (n : Int) * tranche)
      (start + ((n + m : Nat) : Int) * tranche) := h.lands_on hthrough
  have hgrid : Grid (s.db.writeHours contents (c.withoutWritten s.db.tables.progress)
      recorded).tables start (n + m) := h.tables_eq hcommit ▸ h.after
  refine ⟨hl.sound hsound, ⟨?_, ?_⟩, ?_⟩
  · rw [OrdMap.mem_keys, hl.liquidityHourly_eq]
    split_ifs with hin
    · exact ⟨_, rfl⟩
    · rcases hstart with hmem | ⟨hfrom, hle⟩
      · exact OrdMap.mem_keys.mp hmem
      · exact absurd ⟨⟨hfrom.le, hle, h.before.aligned⟩, hfloor.le⟩ hin
  · intro k hk
    obtain ⟨r, hr⟩ := OrdMap.mem_keys.mp hk
    rw [hl.liquidityHourly_eq, hfloor] at hr
    split_ifs at hr with hin
    · exact hin.2
    · exact hkeys k (OrdMap.mem_keys.mpr ⟨r, hr⟩)
  · intro e he hsome
    obtain ⟨haligned, hlow⟩ := hgrid.hours e he
    rcases writeCycle_frozen htables he hsome with hold | ⟨hfrom, hle⟩
    · exact hl.summed_before (frozen_lt_fromAfter c hold hsome) (h.before.frozen e hold hsome)
        (hfrozen e hold hsome)
    · exact hl.summed hsound hfrom hle haligned (hfloor.trans_le hlow)

theorem step [DecidableEq W] {s' : AnalyticState W P} (hs : AnalyticInv s)
    (h : AnalyticStep s s') : AnalyticInv s' := by
  have hbase := hs.base.step h.base
  cases h with
  | plan w now =>
    refine ⟨hbase, forall_update hs.plans ?_, hs.fresh, hs.running⟩
    rintro p ⟨rfl⟩
    obtain ⟨first, n, hg⟩ := hs.base.grid
    exact Grid.plan_through hg now
  | execute w p contents db written inFlight first commit =>
    refine ⟨hbase, forall_update hs.plans (by simp), fun he => absurd he (by simp), ?_⟩
    intro _ start n hg hf
    obtain ⟨start', n', m', tables, hexec, -⟩ := hs.base.execute inFlight first
    obtain ⟨rfl, -, -⟩ := Analytics.writeCycle_ok commit
    obtain rfl := hexec.tables_eq commit
    have hrunning := hs.execute hexec (hs.plans w p inFlight) contents commit
    obtain rfl : start' = start := by
      have hsame := hexec.firstHour.symm.trans hf
      exact Option.some.inj hsame
    rw [hg.count_eq hexec.after]
    exact hrunning
  | abandon w =>
    exact ⟨hbase, forall_update hs.plans (by simp), hs.fresh, hs.running⟩

end AnalyticInv

theorem AnalyticReachable.inv [DecidableEq W] {s : AnalyticState W P} (h : AnalyticReachable s) :
    AnalyticInv s := by
  induction h with
  | refl => exact AnalyticInv.init
  | tail _ hstep ih => exact ih.step hstep

end YogSothoth.Analytic
