import YogSothoth.Analytic.FrozenHours

namespace YogSothoth.Analytic

open RotationRuns

section Opening

variable {P : Type*} {facts added : List (PoolFact P)} {through through' : Int}

/-- A mark that no earlier one of its pool is within the gap of. -/
def Opens (facts : List (PoolFact P)) (pool : P) (start : Int) : Prop :=
  Marked facts pool start ∧ ∀ m, Marked facts pool m → m < start → runGap < start - m

/-- Whether a run started is told by the marks through its start. -/
theorem Added.opens_iff (h : Added facts through added through') {pool : P} {start : Int}
    (hle : start ≤ through) : Opens (facts ++ added) pool start ↔ Opens facts pool start := by
  have hmarked : ∀ m, m ≤ start → (Marked (facts ++ added) pool m ↔ Marked facts pool m) := by
    intro m hm
    constructor
    · intro h'
      exact h.marked_le h' (hm.trans hle)
    · intro h'
      exact marked_append.mpr (Or.inl h')
  constructor
  · intro hopens
    refine ⟨(hmarked start le_rfl).mp hopens.1, ?_⟩
    intro m hm hlt
    exact hopens.2 m ((hmarked m hlt.le).mpr hm) hlt
  · intro hopens
    refine ⟨(hmarked start le_rfl).mpr hopens.1, ?_⟩
    intro m hm hlt
    exact hopens.2 m ((hmarked m hlt.le).mp hm) hlt

variable [LinearOrder P]

theorem exists_island_iff (hw : Written facts through) {pool : P} {start : Int} :
    (∃ i : Island P, i.In facts ∧ i.key = toLex (pool, start)) ↔ Opens facts pool start := by
  have hmarks : ∀ m, m ∈ marks facts pool through ↔ Marked facts pool m := fun m => mem_marks hw
  have hsorted : (marks facts pool through).Pairwise (· ≤ ·) := List.pairwise_insertionSort _ _
  have hfun : (· ∈ marks facts pool through) = Marked facts pool :=
    funext fun m => propext (hmarks m)
  have hiff : (∃ e, IsIsland (· ∈ marks facts pool through) runGap start e) ↔ _ :=
    exists_isIsland_iff hsorted
  rw [hfun, hmarks] at hiff
  have hopens : Opens facts pool start ↔ ∃ e, IsIsland (Marked facts pool) runGap start e := by
    rw [hiff, Opens]
    simp only [hmarks]
  rw [hopens]
  constructor
  · intro h
    obtain ⟨i, hi, hkey⟩ := h
    obtain ⟨rfl, rfl⟩ : i.pool = pool ∧ i.startedAt = start :=
      Prod.mk.inj (toLex.injective hkey)
    exact ⟨i.last, hi⟩
  · intro h
    obtain ⟨e, he⟩ := h
    exact ⟨⟨pool, start, e⟩, he, rfl⟩

/-- A pool has a run from each mark that opens one. -/
theorem Drawn.isSome_iff {t : RunTables P} (hd : Drawn facts through t) (hw : Written facts through)
    {pool : P} {start : Int} :
    (t.runs.get? (toLex (pool, start))).isSome ↔ Opens facts pool start := by
  rw [← exists_island_iff hw, Option.isSome_iff_exists]
  constructor
  · intro h
    obtain ⟨r, hr⟩ := h
    obtain ⟨i, hi, hkey, -⟩ := (hd.runs _ r).mp hr
    exact ⟨i, hi, hkey⟩
  · intro h
    obtain ⟨i, hi, hkey⟩ := h
    exact ⟨_, (hd.runs _ _).mpr ⟨i, hi, hkey, rfl⟩⟩

end Opening

variable {P : Type*} [LinearOrder P] {W : Type*}

/-- The runs drawn again, or left with the facts. -/
theorem Lands.drawn {c : CycleWrite} {next next' : Int} {recorded : Tables}
    {contents : Int → TrancheContents P} (hl : Lands c next next')
    (hstays : ¬ next ≤ c.tranchesThrough → next' = next) {db : Analytics P}
    (hw : Written db.facts (next - tranche)) (hd : Drawn db.facts (next - tranche) db.runs) :
    Drawn (db.writeHours contents c recorded).facts (next' - tranche)
      (db.writeHours contents c recorded).runs := by
  have hstarts := hl.starts
  by_cases hle : next ≤ c.tranchesThrough
  · have hadded : Added db.facts (next - tranche)
        (writtenFacts (fun b => (contents b).swaps) c.tranchesFrom c.tranchesThrough)
        (next' - tranche) := hl.added hw
    have hdrawn := hd.writeRotationRuns hadded
    have hthrough : next' - tranche = c.tranchesThrough := by
      have := hl.lands hle
      omega
    have hruns : (db.writeHours contents c recorded).runs =
        db.runs.writeRotationRuns (db.writeHours contents c recorded).facts c.tranchesFrom
          c.tranchesThrough := by
      rw [Analytics.writeHours]
      exact if_pos (hstarts.trans_le hle)
    rw [hruns, hthrough, hstarts]
    rw [hthrough, Int.sub_add_cancel] at hdrawn
    exact hdrawn
  · have hnone : writtenFacts (fun b => (contents b).swaps) c.tranchesFrom c.tranchesThrough =
        [] := by
      rw [writtenFacts, series, if_pos (by omega)]
      rfl
    have hruns : (db.writeHours contents c recorded).runs = db.runs := by
      rw [Analytics.writeHours]
      exact if_neg (by omega)
    have hfacts : (db.writeHours contents c recorded).facts = db.facts := by
      rw [Analytics.writeHours]
      simp only [hnone, List.append_nil]
    rw [hruns, hfacts, hstays hle]
    exact hd

/-- Tables with a tranche's facts for each of `n` steps from `first`, and the runs of these facts. -/
structure RunsDrawn (db : Analytics P) (first : Int) (n : Nat) : Prop where
  grid : Grid db.tables first n
  firstHour : db.tables.progress.firstHour = some first
  written : Written db.facts (first + (n : Int) * tranche - tranche)
  drawn : Drawn db.facts (first + (n : Int) * tranche - tranche) db.runs

/-- The runs are those of the facts, once there are any. -/
structure RunsInv (s : AnalyticState W P) : Prop where
  inv : AnalyticInv s
  running : s.executed ≠ [] → ∃ first n, RunsDrawn s.db first n

theorem RunsInv.init : RunsInv (.init : AnalyticState W P) :=
  ⟨AnalyticInv.init, fun h => absurd rfl h⟩

/-- The tables further on: more tranches, and of the runs that had started, the same ones. -/
structure RunsLater (db : Analytics P) (first : Int) (n : Nat) (db' : Analytics P) (n' : Nat) :
    Prop where
  le : n ≤ n'
  runs : RunsDrawn db' first n'
  started : ∀ pool start, start < first + (n : Int) * tranche →
    ((db'.runs.runs.get? (toLex (pool, start))).isSome ↔
      (db.runs.runs.get? (toLex (pool, start))).isSome)

theorem RunsDrawn.refl {db : Analytics P} {first : Int} {n : Nat} (h : RunsDrawn db first n) :
    RunsLater db first n db n :=
  ⟨le_rfl, h, fun _ _ _ => Iff.rfl⟩

theorem RunsLater.trans {db db' db'' : Analytics P} {first : Int} {n n' n'' : Nat}
    (h : RunsLater db first n db' n') (h' : RunsLater db' first n' db'' n'') :
    RunsLater db first n db'' n'' := by
  have hle : (n : Int) * tranche ≤ (n' : Int) * tranche := by
    have := h.le
    rw [tranche_eq]
    omega
  refine ⟨h.le.trans h'.le, h'.runs, ?_⟩
  intro pool start hlt
  exact (h'.started pool start (by omega)).trans (h.started pool start hlt)

section Step

variable {s : AnalyticState W P} {c written : CycleWrite} {tables : Tables} {first start : Int}
  {n m : Nat} {contents : Int → TrancheContents P} {db : Analytics P}

theorem RunsInv.before (hs : RunsInv s) (h : Execution s.base c tables start n m) :
    Drawn s.db.facts (start + (n : Int) * tranche - tranche) s.db.runs := by
  rcases h.first with ⟨he, hf⟩ | ⟨he, -, -⟩
  · obtain ⟨first, n', hruns⟩ := hs.running he
    obtain rfl : first = start := Option.some.inj (hruns.firstHour.symm.trans hf)
    obtain rfl := hruns.grid.count_eq h.before
    exact hruns.drawn
  · rw [hs.inv.fresh he]
    exact Drawn.empty

/-- A cycle draws the runs of all the facts there are then. -/
theorem RunsInv.execute (hs : RunsInv s) (h : Execution s.base c tables start n m)
    (hthrough : c.through % hour = 0)
    (hcommit : s.db.writeCycle contents c = .ok (db, written)) :
    RunsDrawn db start (n + m) := by
  have htables := h.tables_eq hcommit
  obtain ⟨rfl, ⟨recorded, rfl⟩, -⟩ := Analytics.writeCycle_ok hcommit
  have hl : Lands (c.withoutWritten s.db.tables.progress) (start + (n : Int) * tranche)
      (start + ((n + m : Nat) : Int) * tranche) := h.lands_on hthrough
  have hwritten := (hs.inv.before h).1.written
  refine ⟨htables ▸ h.after, htables ▸ h.firstHour, (hl.added hwritten).written', ?_⟩
  refine hl.drawn ?_ hwritten (hs.before h)
  intro hnot
  have hlands := h.lands
  change if start + (n : Int) * tranche ≤
    (c.withoutWritten s.db.tables.progress).tranchesThrough then _ else m = 0 at hlands
  rw [if_neg hnot] at hlands
  rw [hlands, Nat.add_zero]

/-- A cycle keeps the runs that had started. -/
theorem RunsDrawn.execute (hd : RunsDrawn s.db start n) (hs : RunsInv s)
    (h : Execution s.base c tables start n m) (hthrough : c.through % hour = 0)
    (hcommit : s.db.writeCycle contents c = .ok (db, written)) :
    RunsLater s.db start n db (n + m) := by
  have hafter := hs.execute h hthrough hcommit
  obtain ⟨rfl, ⟨recorded, rfl⟩, -⟩ := Analytics.writeCycle_ok hcommit
  have hl : Lands (c.withoutWritten s.db.tables.progress) (start + (n : Int) * tranche)
      (start + ((n + m : Nat) : Int) * tranche) := h.lands_on hthrough
  refine ⟨Nat.le_add_right n m, hafter, ?_⟩
  intro pool t hlt
  rw [hafter.drawn.isSome_iff hafter.written, hd.drawn.isSome_iff hd.written]
  by_cases haligned : t % tranche = 0
  · apply (hl.added hd.written).opens_iff
    have hfirst := hd.grid.aligned
    simp only [hour_eq, tranche_eq] at *
    omega
  · constructor
    · intro hopens
      obtain ⟨f, hf, -, -, rfl⟩ := hopens.1
      exact absurd (hafter.written.aligned f hf) haligned
    · intro hopens
      obtain ⟨f, hf, -, -, rfl⟩ := hopens.1
      exact absurd (hd.written.aligned f hf) haligned

variable [DecidableEq W] {s' : AnalyticState W P}

theorem RunsInv.step (hs : RunsInv s) (h : AnalyticStep s s') : RunsInv s' := by
  have hinv := hs.inv.step h
  cases h with
  | plan w now => exact ⟨hinv, hs.running⟩
  | execute w p contents db written inFlight first commit =>
    obtain ⟨start, n, m, tables, hexec, -⟩ := hs.inv.base.execute inFlight first
    exact ⟨hinv, fun _ => ⟨start, n + m, hs.execute hexec (hs.inv.plans w p inFlight) commit⟩⟩
  | abandon w => exact ⟨hinv, hs.running⟩

theorem RunsDrawn.step (hd : RunsDrawn s.db first n) (hs : RunsInv s) (h : AnalyticStep s s') :
    ∃ n', RunsLater s.db first n s'.db n' := by
  cases h with
  | plan w now => exact ⟨n, hd.refl⟩
  | execute w p contents db written inFlight started commit =>
    obtain ⟨start, n', m, tables, hexec, -⟩ := hs.inv.base.execute inFlight started
    have hstart : start = first := by
      rcases hexec.first with ⟨-, hf⟩ | ⟨he, -, -⟩
      · exact Option.some.inj (hf.symm.trans hd.firstHour)
      · have hnone := hd.firstHour
        rw [hs.inv.fresh he] at hnone
        cases hnone
    subst hstart
    obtain rfl := hexec.before.count_eq hd.grid
    exact ⟨n' + m, hd.execute hs hexec (hs.inv.plans w p inFlight) commit⟩
  | abandon w => exact ⟨n, hd.refl⟩

/-- No later cycle takes back a run that had started, nor starts one in the tranches written. -/
theorem RunsDrawn.steps (hd : RunsDrawn s.db first n) (hs : RunsInv s)
    (h : Relation.ReflTransGen AnalyticStep s s') :
    RunsInv s' ∧ ∃ n', RunsLater s.db first n s'.db n' := by
  induction h with
  | refl => exact ⟨hs, n, hd.refl⟩
  | tail _ hstep ih =>
    obtain ⟨hs', n', hlater⟩ := ih
    obtain ⟨n'', hnext⟩ := hlater.runs.step hs' hstep
    exact ⟨hs'.step hstep, n'', hlater.trans hnext⟩

theorem AnalyticReachable.runs (h : AnalyticReachable s) : RunsInv s := by
  induction h with
  | refl => exact RunsInv.init
  | tail _ hstep ih => exact ih.step hstep

end Step

end YogSothoth.Analytic
