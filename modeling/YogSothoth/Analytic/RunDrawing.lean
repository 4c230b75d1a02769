import YogSothoth.Analytic.RotationRuns

namespace YogSothoth.Analytic

open RotationRuns

variable {P : Type*}

def Marked (facts : List (PoolFact P)) (pool : P) (m : Int) : Prop :=
  ∃ f ∈ facts, f.pool = pool ∧ f.marked ∧ f.bucket = m

/-- A maximal island of the pool's marks. -/
def Island.In (facts : List (PoolFact P)) (i : Island P) : Prop :=
  IsIsland (Marked facts i.pool) runGap i.startedAt i.last

/-- Extinct, and every hour it touches written whole. -/
def Island.Settled (through : Int) (i : Island P) : Prop :=
  extinct i through ∧ hoursWhole i through

/-- Facts on the five-minute grid, through `through`. -/
structure Written (facts : List (PoolFact P)) (through : Int) : Prop where
  aligned : ∀ f ∈ facts, f.bucket % tranche = 0
  le : ∀ f ∈ facts, f.bucket ≤ through

/-- The tranches of a cycle, after those written through `through`. -/
structure Added (facts : List (PoolFact P)) (through : Int) (added : List (PoolFact P))
    (through' : Int) : Prop where
  written : Written facts through
  aligned : ∀ f ∈ added, f.bucket % tranche = 0
  after : ∀ f ∈ added, through < f.bucket
  le : ∀ f ∈ added, f.bucket ≤ through'
  through_le : through ≤ through'

theorem runGap_eq : runGap = 1800000000000 := rfl

theorem hourOf_mod (t : Int) : hourOf t % hour = 0 := durationTrunc_mod t hour

theorem lt_hourOf_add (t : Int) : t < hourOf t + hour := by
  have := Int.emod_lt_of_pos t (show 0 < hour by decide)
  simp only [hourOf, durationTrunc]
  omega

theorem hourOf_mono {a b : Int} (h : a ≤ b) : hourOf a ≤ hourOf b := by
  simp only [hourOf, durationTrunc, hour_eq]
  omega

namespace Added

variable {facts added : List (PoolFact P)} {through through' : Int}

theorem written' (h : Added facts through added through') : Written (facts ++ added) through' := by
  constructor
  · intro f hf
    rcases List.mem_append.mp hf with hf | hf
    · exact h.written.aligned f hf
    · exact h.aligned f hf
  · intro f hf
    rcases List.mem_append.mp hf with hf | hf
    · exact (h.written.le f hf).trans h.through_le
    · exact h.le f hf

theorem marked_append {pool : P} {m : Int} :
    Marked (facts ++ added) pool m ↔ Marked facts pool m ∨ Marked added pool m := by
  simp only [Marked, List.mem_append, or_and_right, exists_or]

theorem marked_after (h : Added facts through added through') {pool : P} {m : Int}
    (hm : Marked added pool m) : through < m := by
  obtain ⟨f, hf, -, -, rfl⟩ := hm
  exact h.after f hf

theorem marked_le (h : Added facts through added through') {pool : P} {m : Int}
    (hm : Marked (facts ++ added) pool m) (hle : m ≤ through) : Marked facts pool m := by
  rcases marked_append.mp hm with hm | hm
  · exact hm
  · have := h.marked_after hm
    omega

/-- Rows no added fact matches are read from the facts there were. -/
theorem filter_append_eq {p : PoolFact P → Bool} (hp : ∀ f ∈ added, p f = false) :
    (facts ++ added).filter p = facts.filter p := by
  have hnone : added.filter p = [] := by
    rw [List.filter_eq_nil_iff]
    intro f hf
    simp [hp f hf]
  rw [List.filter_append, hnone, List.append_nil]

/-- No tranche added later falls in the hours of a settled island. -/
theorem after_hours (h : Added facts through added through') {i : Island P}
    (hs : i.Settled through) {f : PoolFact P} (hf : f ∈ added) :
    hourOf i.last + hour ≤ f.bucket := by
  have hwhole : hourOf i.last + hour - tranche ≤ through := of_decide_eq_true hs.2
  have halign := h.aligned f hf
  have hafter := h.after f hf
  have hmod := hourOf_mod i.last
  simp only [hour_eq, tranche_eq] at *
  omega

theorem after_last (h : Added facts through added through') {i : Island P}
    (hs : i.Settled through) {f : PoolFact P} (hf : f ∈ added) : i.last < f.bucket := by
  have := h.after_hours hs hf
  have := lt_hourOf_add i.last
  omega

/-- The next mark never extends a settled run. -/
theorem settled_in (h : Added facts through added through') {i : Island P} (hi : i.In facts)
    (hs : i.Settled through) : i.In (facts ++ added) := by
  apply IsIsland.extend hi
  · intro m hm
    exact marked_append.mpr (Or.inl hm)
  · intro m hm
    have hextinct : i.last + runGap ≤ through := of_decide_eq_true hs.1
    rcases marked_append.mp hm with hm | hm
    · exact Or.inl hm
    · have hafter := h.marked_after hm
      right
      simp only [runGap_eq] at *
      omega

/-- An island a cycle does not draw again was already settled. -/
theorem settled_of_lt (h : Added facts through added through') {i : Island P}
    (hi : i.In (facts ++ added)) (hlt : i.last < drawnFrom (through + tranche)) :
    i.In facts ∧ i.Settled through := by
  have hbound : i.last + hour < through + tranche := by
    have : drawnFrom (through + tranche) = through + tranche - hour := rfl
    omega
  have hhour := hourOf_le i.last
  refine ⟨IsIsland.restrict hi ?_ ?_, decide_eq_true ?_, decide_eq_true ?_⟩
  · intro m hm
    exact marked_append.mpr (Or.inl hm)
  · intro m hm hle
    apply h.marked_le hm
    simp only [hour_eq, tranche_eq] at *
    omega
  · simp only [runGap_eq, hour_eq, tranche_eq] at *
    omega
  · simp only [hour_eq, tranche_eq] at *
    omega

variable [LinearOrder P]

theorem whole_eq (h : Added facts through added through') {i : Island P} (hs : i.Settled through)
    (hour : Int) : whole (facts ++ added) i hour = whole facts i hour := by
  rw [whole, whole, filter_append_eq]
  intro f hf
  have := h.after_hours hs hf
  apply decide_eq_false
  rintro ⟨-, -, hlt, -⟩
  omega

theorem tranches_eq (h : Added facts through added through') {i : Island P}
    (hs : i.Settled through) : tranches (facts ++ added) i = tranches facts i := by
  rw [tranches, tranches, filter_append_eq]
  · simp only [h.whole_eq hs]
  · intro f hf
    have := h.after_last hs hf
    apply decide_eq_false
    rintro ⟨-, -, hle⟩
    omega

theorem run_eq (h : Added facts through added through') {i : Island P} (hs : i.Settled through) :
    run (facts ++ added) through' i = run facts through i := by
  have hle := h.through_le
  have hextinct : i.last + runGap ≤ through := of_decide_eq_true hs.1
  have hwhole : hourOf i.last + hour - tranche ≤ through := of_decide_eq_true hs.2
  have hextinct' : extinct i through' = extinct i through :=
    (decide_eq_true (by omega)).trans (decide_eq_true hextinct).symm
  have hwhole' : hoursWhole i through' = hoursWhole i through :=
    (decide_eq_true (by omega)).trans (decide_eq_true hwhole).symm
  rw [run, run, h.tranches_eq hs, hextinct', hwhole']

theorem hourBuckets_eq (h : Added facts through added through') {i : Island P}
    (hs : i.Settled through) : hourBuckets (facts ++ added) i = hourBuckets facts i := by
  rw [hourBuckets, hourBuckets, h.tranches_eq hs]

theorem hourVolume_eq (h : Added facts through added through') {i : Island P}
    (hs : i.Settled through) (hour : Int) :
    hourVolume (facts ++ added) i hour = hourVolume facts i hour := by
  rw [hourVolume, hourVolume, h.tranches_eq hs]

end Added

section Keys

variable {facts : List (PoolFact P)}

theorem Island.In.eq_of_start {i j : Island P} (hi : i.In facts) (hj : j.In facts)
    (hpool : i.pool = j.pool) (hstart : i.startedAt = j.startedAt) : i = j := by
  obtain ⟨pool, s, e⟩ := i
  obtain ⟨pool', s', e'⟩ := j
  simp only at hpool hstart
  subst hpool hstart
  have hlast : e = e' := IsIsland.last_eq hi hj
  rw [hlast]

theorem Island.In.eq_of_key {i j : Island P} (hi : i.In facts) (hj : j.In facts)
    (hkey : i.key = j.key) : i = j := by
  have hpair : (i.pool, i.startedAt) = (j.pool, j.startedAt) := toLex.injective hkey
  exact hi.eq_of_start hj (congrArg Prod.fst hpair) (congrArg Prod.snd hpair)

theorem Island.In.eq_of_meet {i j : Island P} (hi : i.In facts) (hj : j.In facts)
    (hpool : i.pool = j.pool) (hij : i.startedAt ≤ j.last) (hji : j.startedAt ≤ i.last) : i = j := by
  obtain ⟨pool, s, e⟩ := i
  obtain ⟨pool', s', e'⟩ := j
  simp only at hpool
  subst hpool
  obtain ⟨hstart, hlast⟩ : s = s' ∧ e = e' := IsIsland.eq_of_meet hi hj hij hji
  rw [hstart, hlast]

theorem Island.In.eq_of_last {i j : Island P} (hi : i.In facts) (hj : j.In facts)
    (hpool : i.pool = j.pool) (hlast : i.last = j.last) : i = j :=
  hi.eq_of_meet hj hpool (hi.start_le.trans hlast.le) (hj.start_le.trans hlast.ge)

theorem hourKey_eq {i j : Island P} {h h' : Int} :
    i.hourKey h = j.hourKey h' ↔ i.key = j.key ∧ h = h' := by
  simp only [Island.hourKey, Island.key, EmbeddingLike.apply_eq_iff_eq, Prod.mk.injEq, and_assoc]

end Keys

section Drawing

variable [LinearOrder P]

/-- The rows are those of the facts' islands, one run each with its hours. -/
structure Drawn (facts : List (PoolFact P)) (through : Int) (t : RunTables P) : Prop where
  runs : ∀ k r, t.runs.get? k = some r ↔
    ∃ i : Island P, i.In facts ∧ i.key = k ∧ run facts through i = r
  hours : ∀ k v, t.hours.get? k = some v ↔
    ∃ i : Island P, i.In facts ∧ ∃ h ∈ hourBuckets facts i,
      i.hourKey h = k ∧ hourVolume facts i h = v

variable {facts added : List (PoolFact P)} {through through' start : Int}

theorem mem_marks (hw : Written facts through) {pool : P} {m : Int} :
    m ∈ marks facts pool through ↔ Marked facts pool m := by
  simp only [marks, List.mem_insertionSort, List.mem_map, List.mem_filter, decide_eq_true_eq, Marked]
  constructor
  · rintro ⟨f, ⟨hf, hpool, hmarked, -⟩, rfl⟩
    exact ⟨f, hf, hpool, hmarked, rfl⟩
  · rintro ⟨f, hf, hpool, hmarked, rfl⟩
    exact ⟨f, ⟨hf, hpool, hmarked, hw.le f hf⟩, rfl⟩

theorem mem_drawIslands_marks (hw : Written facts through) {i : Island P} :
    (i.startedAt, i.last) ∈ drawIslands runGap (marks facts i.pool through) ↔ i.In facts := by
  have hmarked : (· ∈ marks facts i.pool through) = Marked facts i.pool :=
    funext fun m => propext (mem_marks hw)
  have hsorted : (marks facts i.pool through).Pairwise (· ≤ ·) := List.pairwise_insertionSort _ _
  rw [mem_drawIslands hsorted, hmarked, Island.In]

theorem mem_recent (hw : Written facts through) {i : Island P} (hi : i.In facts)
    (hlast : drawnFrom start ≤ i.last) : i.pool ∈ recent facts start through := by
  obtain ⟨f, hf, hpool, hmarked, hbucket⟩ := hi.last_marked
  simp only [recent, List.mem_dedup, List.mem_map, List.mem_filter, decide_eq_true_eq]
  exact ⟨f, ⟨hf, hmarked, by omega, hw.le f hf⟩, hpool⟩

theorem mem_drawn (hw : Written facts through) {i : Island P} :
    i ∈ drawn facts start through ↔ i.In facts ∧ drawnFrom start ≤ i.last := by
  simp only [drawn, List.mem_flatMap, List.mem_map, List.mem_filter, decide_eq_true_eq]
  constructor
  · rintro ⟨pool, -, e, ⟨he, hlast⟩, rfl⟩
    exact ⟨(mem_drawIslands_marks hw).mp he, hlast⟩
  · rintro ⟨hi, hlast⟩
    exact ⟨i.pool, mem_recent hw hi hlast, _, ⟨(mem_drawIslands_marks hw).mpr hi, hlast⟩, rfl⟩

theorem settled_run {i : Island P} :
    (run facts through i).settled = true ↔ i.Settled through := by
  simp only [run, Bool.and_eq_true, Island.Settled]

variable {t : RunTables P}

/-- What the deletion keeps is the settled islands' runs. -/
theorem Drawn.kept_runs (h : Drawn facts through t) (k : P ×ₗ Int) (r : RotationRun) :
    t.deleteUnsettled.runs.get? k = some r ↔
      ∃ i : Island P, (i.In facts ∧ i.Settled through) ∧ i.key = k ∧ run facts through i = r := by
  rw [RunTables.deleteUnsettled, OrdMap.get?_eq_some, OrdMap.mem_filter, ← OrdMap.get?_eq_some,
    h.runs]
  constructor
  · rintro ⟨⟨i, hi, hk, rfl⟩, hs⟩
    exact ⟨i, ⟨hi, settled_run.mp hs⟩, hk, rfl⟩
  · rintro ⟨i, ⟨hi, hs⟩, hk, rfl⟩
    exact ⟨⟨i, hi, hk, rfl⟩, settled_run.mpr hs⟩

theorem Drawn.kept_hours (h : Drawn facts through t) (k : P ×ₗ Int ×ₗ Int) (v : ℚ) :
    t.deleteUnsettled.hours.get? k = some v ↔
      ∃ i : Island P, (i.In facts ∧ i.Settled through) ∧ ∃ b ∈ hourBuckets facts i,
        i.hourKey b = k ∧ hourVolume facts i b = v := by
  have hrun : ∀ i : Island P, i.In facts → t.runs.get? i.key = some (run facts through i) :=
    fun i hi => (h.runs _ _).mpr ⟨i, hi, rfl, rfl⟩
  rw [RunTables.deleteUnsettled, OrdMap.get?_eq_some, OrdMap.mem_filter, ← OrdMap.get?_eq_some,
    h.hours]
  constructor
  · rintro ⟨⟨i, hi, b, hb, rfl, rfl⟩, hs⟩
    change (t.runs.get? i.key).all RotationRun.settled = true at hs
    rw [hrun i hi, Option.all_some] at hs
    exact ⟨i, ⟨hi, settled_run.mp hs⟩, b, hb, rfl, rfl⟩
  · rintro ⟨i, ⟨hi, hs⟩, b, hb, rfl, rfl⟩
    refine ⟨⟨i, hi, b, hb, rfl, rfl⟩, ?_⟩
    change (t.runs.get? i.key).all RotationRun.settled = true
    rw [hrun i hi, Option.all_some]
    exact settled_run.mpr hs

/-- A cycle draws the islands that were not settled before it. -/
theorem Drawn.mem_islands (h : Drawn facts through t) (ha : Added facts through added through')
    {i : Island P} :
    i ∈ islands t.deleteUnsettled.runs (facts ++ added) (through + tranche) through' ↔
      i.In (facts ++ added) ∧ ¬ (i.In facts ∧ i.Settled through) := by
  rw [islands, List.mem_filter, mem_drawn ha.written']
  simp only [decide_not, Bool.not_eq_true', decide_eq_false_iff_not, List.any_eq_true,
    decide_eq_true_eq]
  constructor
  · rintro ⟨⟨hi, hlast⟩, hnew⟩
    refine ⟨hi, fun hs => hnew ⟨(i.key, run facts through i), ?_, rfl, rfl, settled_run.mpr hs.2⟩⟩
    exact OrdMap.get?_eq_some.mp ((h.kept_runs _ _).mpr ⟨i, hs, rfl, rfl⟩)
  · rintro ⟨hi, hs⟩
    refine ⟨⟨hi, ?_⟩, ?_⟩
    · by_contra hlt
      exact hs (ha.settled_of_lt hi (by omega))
    · rintro ⟨⟨k, r⟩, hmem, hpool, hend, -⟩
      obtain ⟨j, hj, rfl, rfl⟩ := (h.kept_runs k r).mp (OrdMap.get?_eq_some.mpr hmem)
      have hlast : j.last + tranche = i.last + tranche := hend
      have hji := (ha.settled_in hj.1 hj.2).eq_of_last hi hpool (by omega)
      exact hs (hji ▸ hj)

theorem mem_runRows {l : List (Island P)} {k : P ×ₗ Int} {r : RotationRun} :
    (k, r) ∈ runRows facts through l ↔ ∃ i ∈ l, i.key = k ∧ run facts through i = r := by
  simp only [runRows, List.mem_map, Prod.mk.injEq]

theorem mem_hourRows {l : List (Island P)} {k : P ×ₗ Int ×ₗ Int} {v : ℚ} :
    (k, v) ∈ hourRows facts l ↔
      ∃ i ∈ l, ∃ b ∈ hourBuckets facts i, i.hourKey b = k ∧ hourVolume facts i b = v := by
  simp only [hourRows, List.mem_flatMap, List.mem_map, Prod.mk.injEq]

theorem runRows_keyed {l : List (Island P)} (hl : ∀ i ∈ l, i.In facts) :
    OrdMap.Keyed (runRows facts through l) := by
  rintro ⟨k, r⟩ hr ⟨k', r'⟩ hr' hk
  obtain ⟨i, hi, rfl, rfl⟩ := mem_runRows.mp hr
  obtain ⟨j, hj, rfl, rfl⟩ := mem_runRows.mp hr'
  rw [(hl i hi).eq_of_key (hl j hj) hk]

theorem hourRows_keyed {l : List (Island P)} (hl : ∀ i ∈ l, i.In facts) :
    OrdMap.Keyed (hourRows facts l) := by
  rintro ⟨k, v⟩ hv ⟨k', v'⟩ hv' hk
  obtain ⟨i, hi, b, -, rfl, rfl⟩ := mem_hourRows.mp hv
  obtain ⟨j, hj, b', -, rfl, rfl⟩ := mem_hourRows.mp hv'
  obtain ⟨hkey, rfl⟩ := hourKey_eq.mp hk
  rw [(hl i hi).eq_of_key (hl j hj) hkey]

/-- An island as it stands after the cycle was settled before it, or is drawn by it. -/
theorem Drawn.in_iff (h : Drawn facts through t) (ha : Added facts through added through')
    {i : Island P} : i.In (facts ++ added) ↔ (i.In facts ∧ i.Settled through) ∨
      i ∈ islands t.deleteUnsettled.runs (facts ++ added) (through + tranche) through' := by
  rw [h.mem_islands ha]
  constructor
  · intro hi
    by_cases hs : i.In facts ∧ i.Settled through
    · exact Or.inl hs
    · exact Or.inr ⟨hi, hs⟩
  · rintro (hs | ⟨hi, -⟩)
    · exact ha.settled_in hs.1 hs.2
    · exact hi

/-- No settled run shares its key with an island the cycle draws. -/
theorem Drawn.kept_none (h : Drawn facts through t) (ha : Added facts through added through')
    {i : Island P}
    (hi : i ∈ islands t.deleteUnsettled.runs (facts ++ added) (through + tranche) through') :
    t.deleteUnsettled.runs.get? i.key = none ∧
      ∀ b, t.deleteUnsettled.hours.get? (i.hourKey b) = none := by
  obtain ⟨hin, hs⟩ := (h.mem_islands ha).mp hi
  have hother : ∀ j : Island P, j.In facts ∧ j.Settled through → j.key ≠ i.key := by
    intro j hj hkey
    have hji := (ha.settled_in hj.1 hj.2).eq_of_key hin hkey
    exact hs (hji ▸ hj)
  constructor
  · rw [Option.eq_none_iff_forall_ne_some]
    intro r hr
    obtain ⟨j, hj, hkey, -⟩ := (h.kept_runs _ _).mp hr
    exact hother j hj hkey
  · intro b
    rw [Option.eq_none_iff_forall_ne_some]
    intro v hv
    obtain ⟨j, hj, b', -, hkey, -⟩ := (h.kept_hours _ _).mp hv
    exact hother j hj (hourKey_eq.mp hkey).1

/-- A cycle leaves the rows of all the facts there are then. -/
theorem Drawn.writeRotationRuns (h : Drawn facts through t)
    (ha : Added facts through added through') : Drawn (facts ++ added) through'
      (t.writeRotationRuns (facts ++ added) (through + tranche) through') := by
  have hin : ∀ i ∈ islands t.deleteUnsettled.runs (facts ++ added) (through + tranche) through',
      i.In (facts ++ added) := fun i hi => ((h.mem_islands ha).mp hi).1
  constructor
  · intro k r
    rw [RunTables.writeRotationRuns, OrdMap.get?_insertAllNew (runRows_keyed hin), h.kept_runs,
      mem_runRows]
    constructor
    · rintro (⟨i, hs, hk, rfl⟩ | ⟨-, i, hi, hk, rfl⟩)
      · exact ⟨i, ha.settled_in hs.1 hs.2, hk, ha.run_eq hs.2⟩
      · exact ⟨i, hin i hi, hk, rfl⟩
    · rintro ⟨i, hi, rfl, rfl⟩
      rcases (h.in_iff ha).mp hi with hs | hi
      · exact Or.inl ⟨i, hs, rfl, (ha.run_eq hs.2).symm⟩
      · exact Or.inr ⟨(h.kept_none ha hi).1, i, hi, rfl, rfl⟩
  · intro k v
    rw [RunTables.writeRotationRuns, OrdMap.get?_insertAllNew (hourRows_keyed hin), h.kept_hours,
      mem_hourRows]
    constructor
    · rintro (⟨i, hs, b, hb, hk, rfl⟩ | ⟨-, i, hi, b, hb, hk, rfl⟩)
      · exact ⟨i, ha.settled_in hs.1 hs.2, b, (ha.hourBuckets_eq hs.2).symm ▸ hb, hk,
          ha.hourVolume_eq hs.2 b⟩
      · exact ⟨i, hin i hi, b, hb, hk, rfl⟩
    · rintro ⟨i, hi, b, hb, rfl, rfl⟩
      rcases (h.in_iff ha).mp hi with hs | hi
      · exact Or.inl ⟨i, hs, b, ha.hourBuckets_eq hs.2 ▸ hb, rfl, (ha.hourVolume_eq hs.2 b).symm⟩
      · exact Or.inr ⟨(h.kept_none ha hi).2 b, i, hi, b, hb, rfl, rfl⟩

theorem Drawn.empty : Drawn ([] : List (PoolFact P)) through .empty := by
  have hnone : ∀ i : Island P, ¬ i.In [] := by
    intro i hi
    obtain ⟨f, hf, -⟩ := hi.start_marked
    simp at hf
  constructor
  · intro k r
    simp [RunTables.empty, hnone]
  · intro k v
    simp [RunTables.empty, hnone]

/-- The facts and how far they go tell the rows. -/
theorem Drawn.unique {t' : RunTables P} (h : Drawn facts through t) (h' : Drawn facts through t') :
    t = t' := by
  obtain ⟨runs, hours⟩ := t
  obtain ⟨runs', hours'⟩ := t'
  have hruns : runs = runs' := OrdMap.ext_get? fun k => Option.ext fun r => by
    rw [h.runs k r, h'.runs k r]
  have hhours : hours = hours' := OrdMap.ext_get? fun k => Option.ext fun v => by
    rw [h.hours k v, h'.hours k v]
  rw [hruns, hhours]

end Drawing

end YogSothoth.Analytic
