import YogSothoth.Analytic.Cycle
import Mathlib.Logic.Relation
import Mathlib.Data.List.Range

namespace YogSothoth.Analytic

/-- A cycle that went through: the tables it met and what it wrote. -/
structure Executed where
  before : Tables
  written : CycleWrite

/-- A cycle in flight, with the reading it was planned from. -/
structure Planned where
  reading : AnalyticProgress
  cycle : CycleWrite

/-- The tables, each worker's cycle in flight, and the cycles executed so far. -/
structure State (W : Type*) where
  db : Tables
  planned : W → Option Planned
  executed : List Executed

variable {W : Type*}

def State.init : State W := ⟨.empty, fun _ => none, []⟩

/-- Workers read and plan at any clock, and execute or abandon later. Only the first cycle executed
is planned from tables without an hour. -/
inductive Step [DecidableEq W] : State W → State W → Prop
  | plan (s : State W) (w : W) (now : Int) :
    Step s { s with
      planned := Function.update s.planned w (some ⟨s.db.progress, .plan now s.db.progress⟩) }
  | execute (s : State W) (w : W) (p : Planned) (db : Tables) (written : CycleWrite)
    (inFlight : s.planned w = some p) (first : s.executed = [] ∨ p.reading.firstHour.isSome)
    (commit : s.db.writeCycle p.cycle = .ok (db, written)) :
    Step s ⟨db, Function.update s.planned w none, s.executed ++ [⟨s.db, written⟩]⟩
  | abandon (s : State W) (w : W) : Step s { s with planned := Function.update s.planned w none }

def Reachable [DecidableEq W] (s : State W) : Prop := Relation.ReflTransGen Step .init s

theorem hour_eq : hour = 3600000000000 := rfl

theorem tranche_eq : tranche = 300000000000 := rfl

theorem durationTrunc_le (t span : Int) (h : 0 < span) : durationTrunc t span ≤ t := by
  have := Int.emod_nonneg t h.ne'
  simp only [durationTrunc]
  omega

theorem durationTrunc_mod (t span : Int) : durationTrunc t span % span = 0 := by
  rw [durationTrunc, Int.sub_emod, Int.emod_emod, Int.sub_self, Int.zero_emod]

theorem hourOf_le (t : Int) : hourOf t ≤ t := durationTrunc_le t hour (by decide)

theorem mem_series {start stop step b : Int} (hstep : 0 < step) :
    b ∈ series start stop step ↔ start ≤ b ∧ b ≤ stop ∧ (b - start) % step = 0 := by
  rw [series]
  split_ifs with h
  · simp only [List.not_mem_nil, false_iff]
    omega
  · rw [List.mem_map]
    constructor
    · rintro ⟨k, hk, rfl⟩
      have hk := List.mem_range.mp hk
      have hkle : (k : Int) ≤ (stop - start) / step := by omega
      have hmul := (Int.le_ediv_iff_mul_le hstep).mp hkle
      have hpos : 0 ≤ (k : Int) * step := Int.mul_nonneg (by omega) hstep.le
      refine ⟨by omega, by omega, ?_⟩
      have hrest : start + (k : Int) * step - start = (k : Int) * step := by omega
      rw [hrest, Int.mul_emod_left]
    · rintro ⟨hstart, hstop, hmod⟩
      have hdiv : (b - start) / step * step = b - start := Int.ediv_mul_cancel_of_emod_eq_zero hmod
      have hnonneg : 0 ≤ (b - start) / step := Int.ediv_nonneg (by omega) hstep.le
      have hle : (b - start) / step ≤ (stop - start) / step :=
        Int.ediv_le_ediv hstep (by omega)
      refine ⟨((b - start) / step).toNat, List.mem_range.mpr (by omega), ?_⟩
      rw [Int.toNat_of_nonneg hnonneg, hdiv]
      omega

/-- Five-minute steps from the `n`th after `first`, `m` of them. -/
def grid (first : Int) (n m : Nat) : List Int :=
  (List.range' n m).map (fun k : Nat => first + (k : Int) * tranche)

/-- The tables hold the tranches of `n` steps from `first`, hours from `first` on, and no frozen
hour the tranches do not cover. -/
structure Grid (db : Tables) (first : Int) (n : Nat) : Prop where
  aligned : first % hour = 0
  hours : ∀ e ∈ db.hours.entries, e.1 % hour = 0 ∧ first ≤ e.1
  frozen : ∀ e ∈ db.hours.entries, e.2.isSome → e.1 + hour ≤ first + (n : Int) * tranche
  tranches : db.tranches.keys = grid first 0 n

/-- A cycle in flight that starts no later than the tables go. -/
structure Ready (c : CycleWrite) (first : Int) (n : Nat) : Prop where
  fromAligned : c.from_ % hour = 0
  first_le : first ≤ c.from_
  from_le : c.from_ ≤ first + (n : Int) * tranche
  tranches_le : c.tranchesFrom ≤ first + (n : Int) * tranche
  throughAligned : c.tranchesThrough % tranche = 0

theorem Grid.empty {first : Int} (h : first % hour = 0) : Grid .empty first 0 :=
  ⟨h, by simp [Tables.empty], by simp [Tables.empty], rfl⟩

theorem Ready.mono {c : CycleWrite} {first : Int} {n m : Nat} (h : Ready c first n) (hnm : n ≤ m) :
    Ready c first m := by
  have hstep : (n : Int) * tranche ≤ (m : Int) * tranche := by
    rw [tranche_eq]
    omega
  exact ⟨h.fromAligned, h.first_le, h.from_le.trans (by omega), h.tranches_le.trans (by omega),
    h.throughAligned⟩

section Progress

variable {db : Tables} {first : Int} {n : Nat}

theorem Grid.lastFrozen (hg : Grid db first n) {frozen : Int}
    (h : db.progress.lastFrozen = some frozen) :
    frozen % hour = 0 ∧ first ≤ frozen ∧ frozen + hour ≤ first + (n : Int) * tranche := by
  obtain ⟨e, he, rfl⟩ := Option.map_eq_some_iff.mp h
  obtain ⟨he, hsome⟩ := OrdMap.mem_filter.mp (OrdMap.last?_some he).1
  exact ⟨(hg.hours e he).1, (hg.hours e he).2, hg.frozen e he hsome⟩

/-- Every frozen hour is at or before the last one. -/
theorem lastFrozen_max {e : Int × Option Int} (he : e ∈ db.hours.entries) (hs : e.2.isSome) :
    ∃ frozen, db.progress.lastFrozen = some frozen ∧ e.1 ≤ frozen := by
  have hmem : e ∈ db.frozen.entries := OrdMap.mem_filter.mpr ⟨he, hs⟩
  cases hl : db.frozen.last? with
  | none => simp [OrdMap.last?_none.mp hl] at hmem
  | some last => exact ⟨last.1, by simp [Tables.progress, hl], (OrdMap.last?_some hl).2 e hmem⟩

theorem Grid.lastTranche (hg : Grid db first n) :
    db.progress.lastTranche = if n = 0 then none else some (first + ((n : Int) - 1) * tranche) := by
  have hlast : db.progress.lastTranche = db.tranches.keys.getLast? := by
    simp [Tables.progress, OrdMap.last?, OrdMap.keys, List.getLast?_map]
  rw [hlast, hg.tranches]
  cases n with
  | zero => rfl
  | succ n => simp [grid, List.range'_concat]

end Progress

section Write

variable {db : Tables} {first : Int} {n : Nat} {c : CycleWrite}

theorem Grid.fromAfter (hg : Grid db first n) (hc : Ready c first n) :
    c.fromAfter db.progress % hour = 0 ∧ first ≤ c.fromAfter db.progress ∧
      c.fromAfter db.progress ≤ first + (n : Int) * tranche := by
  obtain ⟨hca, hcf, hcl, -, -⟩ := hc
  unfold CycleWrite.fromAfter
  cases h : db.progress.lastFrozen with
  | none => exact ⟨hca, hcf, hcl⟩
  | some frozen =>
    obtain ⟨ha, hf, hl⟩ := hg.lastFrozen h
    simp only [hour_eq, tranche_eq] at *
    omega

/-- The next tranche is where a cycle starts, whatever it was planned from. -/
theorem Grid.tranchesFromAfter (hg : Grid db first n) (hc : Ready c first n) :
    c.tranchesFromAfter db.progress = first + (n : Int) * tranche := by
  obtain ⟨-, hf, hl⟩ := hg.fromAfter hc
  have hle := hc.tranches_le
  unfold CycleWrite.tranchesFromAfter
  rw [hg.lastTranche]
  split_ifs with hn
  · subst hn
    change max c.tranchesFrom (c.fromAfter db.progress) = _
    simp only [tranche_eq] at *
    omega
  · change max (max c.tranchesFrom (first + ((n : Int) - 1) * tranche + tranche))
      (c.fromAfter db.progress) = _
    simp only [tranche_eq] at *
    omega

theorem Grid.withoutWritten (hg : Grid db first n) (hc : Ready c first n) :
    Ready (c.withoutWritten db.progress) first n := by
  obtain ⟨ha, hf, hl⟩ := hg.fromAfter hc
  exact ⟨ha, hf, hl, (hg.tranchesFromAfter hc).le, hc.throughAligned⟩

/-- The cycle starts after every frozen hour. -/
theorem frozen_lt_fromAfter (c : CycleWrite) {e : Int × Option Int} (he : e ∈ db.hours.entries)
    (hs : e.2.isSome) : e.1 < c.fromAfter db.progress := by
  obtain ⟨frozen, hf, hle⟩ := lastFrozen_max he hs
  simp only [CycleWrite.fromAfter, hf, hour_eq]
  omega

/-- The tranches a cycle adds, `m` of them, are the next ones of the grid. -/
theorem series_grid (hf : first % hour = 0) {through : Int} (ht : through % tranche = 0) :
    ∃ m : Nat, series (first + (n : Int) * tranche) through tranche = grid first n m ∧
      (if first + (n : Int) * tranche ≤ through
        then through + tranche = first + ((n + m : Nat) : Int) * tranche else m = 0) := by
  unfold series
  split_ifs with hlt hle
  · exact absurd hle (by omega)
  · exact ⟨0, rfl, rfl⟩
  · refine ⟨((through - (first + (n : Int) * tranche)) / tranche + 1).toNat, ?_, ?_⟩
    · rw [grid, List.range'_eq_map_range, List.map_map]
      apply List.map_congr_left
      intro k _
      simp only [Function.comp_apply, tranche_eq]
      omega
    · simp only [hour_eq, tranche_eq] at *
      omega
  · omega

/-- What is frozen is covered by the tranches there are once the cycle's are in. -/
theorem Grid.freezeThrough (hg : Grid db first n) (hc : Ready c first n) {m : Nat}
    (hm : if first + (n : Int) * tranche ≤ c.tranchesThrough
      then c.tranchesThrough + tranche = first + ((n + m : Nat) : Int) * tranche else m = 0)
    {through : Int} (h : (c.withoutWritten db.progress).freezeThrough = some through) :
    through + hour ≤ first + ((n + m : Nat) : Int) * tranche := by
  obtain ⟨h, -⟩ := Option.filter_eq_some_iff.mp h
  obtain ⟨⟨closed, complete⟩, hz, rfl⟩ := Option.map_eq_some_iff.mp h
  obtain ⟨closed', -, hcomplete⟩ := Option.bind_eq_some_iff.mp hz
  obtain ⟨complete', hwritten, he⟩ := Option.map_eq_some_iff.mp hcomplete
  obtain ⟨rfl, rfl⟩ := Prod.mk.inj he
  obtain ⟨last, hlast, rfl⟩ := Option.map_eq_some_iff.mp hwritten
  have hle : last + tranche ≤ first + ((n + m : Nat) : Int) * tranche := by
    rw [CycleWrite.tranchesWritten, hg.tranchesFromAfter hc, hg.lastTranche] at hlast
    by_cases hadds : first + (n : Int) * tranche ≤ c.tranchesThrough
    · rw [if_pos hadds] at hm
      rw [Option.filter_some_pos (by simpa using hadds)] at hlast
      split_ifs at hlast with hn
      · obtain rfl : c.tranchesThrough = last := by simpa [CycleWrite.optionMax] using hlast
        exact hm.le
      · obtain rfl : max c.tranchesThrough (first + ((n : Int) - 1) * tranche) = last := by
          simpa [CycleWrite.optionMax] using hlast
        simp only [tranche_eq] at *
        omega
    · rw [if_neg hadds] at hm
      rw [Option.filter_some_neg (by simpa using hadds)] at hlast
      split_ifs at hlast with hn
      · simp [CycleWrite.optionMax] at hlast
      · obtain rfl : first + ((n : Int) - 1) * tranche = last := by
          simpa [CycleWrite.optionMax] using hlast
        simp only [tranche_eq] at *
        omega
  have htrunc := durationTrunc_le (last + tranche) hour (by decide)
  simp only [hourOf]
  omega

theorem mem_grid {first t : Int} {n m : Nat} :
    t ∈ grid first n m ↔ ∃ k : Nat, n ≤ k ∧ k < n + m ∧ t = first + (k : Int) * tranche := by
  simp only [grid, List.mem_map, List.mem_range'_1, and_assoc, eq_comm]

/-- The next tranches of the grid are not there yet, and are inserted in order. -/
theorem insertTranches_grid (written first : Int) (n m : Nat) (tranches : OrdMap Int Int)
    (h : tranches.keys = grid first 0 n) :
    ∃ tranches', (grid first n m).foldlM (Tables.insertTranche written) tranches = .ok tranches' ∧
      tranches'.keys = grid first 0 (n + m) := by
  induction m generalizing n tranches with
  | zero => exact ⟨tranches, rfl, h⟩
  | succ m ih =>
    have hlt : ∀ j ∈ tranches.keys, j < first + (n : Int) * tranche := by
      intro j hj
      rw [h, mem_grid] at hj
      obtain ⟨k, -, hk, rfl⟩ := hj
      rw [tranche_eq]
      omega
    have hnew : tranches.get? (first + (n : Int) * tranche) = none :=
      OrdMap.get?_eq_none.mpr (fun hmem => lt_irrefl _ (hlt _ hmem))
    have hkeys := tranches.keys_insert_last written hlt
    have hgrid : grid first 0 n ++ [first + (n : Int) * tranche] = grid first 0 (n + 1) := by
      simp [grid, List.range'_concat]
    rw [h, hgrid] at hkeys
    obtain ⟨tranches', hfold, hkeys'⟩ := ih (n + 1) _ hkeys
    refine ⟨tranches', ?_, ?_⟩
    · rw [grid, List.range'_succ, List.map_cons, List.foldlM_cons, Tables.insertTranche]
      simp only [hnew, Option.isSome_none, Bool.false_eq_true, if_false]
      exact hfold
    · rw [hkeys', Nat.add_assoc, Nat.add_comm 1 m]

theorem mem_series_hour {start stop h : Int} (hm : h ∈ series start stop hour) :
    ∃ k : Nat, h = start + (k : Int) * hour := by
  unfold series at hm
  split_ifs at hm
  · simp at hm
  · obtain ⟨k, -, rfl⟩ := List.mem_map.mp hm
    exact ⟨k, rfl⟩

theorem recordHour_mem {hours : OrdMap Int (Option Int)} {bucket : Int} {e : Int × Option Int}
    (h : e ∈ (Tables.recordHour hours bucket).entries) : e ∈ hours.entries ∨ e = (bucket, none) := by
  unfold Tables.recordHour at h
  split_ifs at h
  · exact Or.inl h
  · rcases OrdMap.mem_insert.mp h with rfl | ⟨h, -⟩
    · exact Or.inr rfl
    · exact Or.inl h

theorem recordHours_mem {buckets : List Int} {hours : OrdMap Int (Option Int)} {e : Int × Option Int}
    (h : e ∈ (buckets.foldl Tables.recordHour hours).entries) :
    e ∈ hours.entries ∨ (e.1 ∈ buckets ∧ e.2 = none) := by
  induction buckets generalizing hours with
  | nil => exact Or.inl h
  | cons b buckets ih =>
    rcases ih h with h | ⟨hb, hn⟩
    · rcases recordHour_mem h with h | rfl
      · exact Or.inl h
      · exact Or.inr ⟨List.mem_cons_self, rfl⟩
    · exact Or.inr ⟨List.mem_cons_of_mem _ hb, hn⟩

theorem recordHour_keys {hours : OrdMap Int (Option Int)} {bucket h : Int} :
    h ∈ (Tables.recordHour hours bucket).keys ↔ h ∈ hours.keys ∨ h = bucket := by
  unfold Tables.recordHour
  split_ifs with hb
  · obtain ⟨v, hv⟩ := Option.isSome_iff_exists.mp hb
    constructor
    · exact Or.inl
    · rintro (h | rfl)
      · exact h
      · exact OrdMap.mem_keys.mpr ⟨v, hv⟩
  · simp only [OrdMap.mem_keys, OrdMap.get?_insert]
    by_cases hh : h = bucket <;> simp [hh]

theorem recordHours_keys {buckets : List Int} {hours : OrdMap Int (Option Int)} {h : Int} :
    h ∈ (buckets.foldl Tables.recordHour hours).keys ↔ h ∈ hours.keys ∨ h ∈ buckets := by
  induction buckets generalizing hours with
  | nil => simp
  | cons b buckets ih => rw [List.foldl_cons, ih, recordHour_keys, List.mem_cons, or_assoc]

theorem freeze_keys (db : Tables) (start through written : Int) :
    (db.freeze start through written).hours.keys = db.hours.keys := by
  simp [Tables.freeze, OrdMap.keys, Tables.freezeHour, Function.comp_def]

theorem Grid.recordHours (hg : Grid db first n) {start : Int} (ha : start % hour = 0)
    (hf : first ≤ start) (through : Int) : Grid (db.recordHours start through) first n := by
  refine ⟨hg.aligned, ?_, ?_, hg.tranches⟩
  · intro e he
    rcases recordHours_mem he with he | ⟨hb, -⟩
    · exact hg.hours e he
    · obtain ⟨k, hk⟩ := mem_series_hour hb
      rw [hk]
      simp only [hour_eq] at *
      omega
  · intro e he hs
    rcases recordHours_mem he with he | ⟨-, hn⟩
    · exact hg.frozen e he hs
    · simp [hn] at hs

theorem Grid.freeze (hg : Grid db first n) {through : Int}
    (h : through + hour ≤ first + (n : Int) * tranche) (start written : Int) :
    Grid (db.freeze start through written) first n := by
  refine ⟨hg.aligned, ?_, ?_, hg.tranches⟩
  · intro e he
    obtain ⟨e', he', rfl⟩ := List.mem_map.mp he
    exact hg.hours e' he'
  · intro e he hs
    obtain ⟨e', he', rfl⟩ := List.mem_map.mp he
    simp only [Tables.freezeHour] at hs ⊢
    split_ifs at hs with hin
    · omega
    · exact hg.frozen e' he' hs

/-- A cycle ready on the grid goes through, adds the next tranches and leaves a grid. -/
theorem Grid.writeCycle (hg : Grid db first n) (hc : Ready c first n) :
    ∃ db' m, db.writeCycle c = .ok (db', c.withoutWritten db.progress) ∧ Grid db' first (n + m) ∧
      (∀ h, h ∈ db'.hours.keys ↔ h ∈ db.hours.keys ∨
        h ∈ series (c.withoutWritten db.progress).from_ c.through hour) ∧
      if first + (n : Int) * tranche ≤ c.tranchesThrough
        then c.tranchesThrough + tranche = first + ((n + m : Nat) : Int) * tranche else m = 0 := by
  have hc' := hg.withoutWritten hc
  obtain ⟨m, hseries, hm⟩ := series_grid (n := n) hg.aligned hc'.throughAligned
  obtain ⟨tranches, hfold, hkeys⟩ :=
    insertTranches_grid (c.withoutWritten db.progress).at_ first n m db.tranches hg.tranches
  have hrecord : db.recordTranches (c.withoutWritten db.progress).tranchesFrom
      (c.withoutWritten db.progress).tranchesThrough (c.withoutWritten db.progress).at_ =
        .ok { db with tranches := tranches } := by
    have hfrom : (c.withoutWritten db.progress).tranchesFrom = first + (n : Int) * tranche :=
      hg.tranchesFromAfter hc
    rw [Tables.recordTranches, hfrom, hseries, hfold]
    rfl
  have hnm : (n : Int) * tranche ≤ ((n + m : Nat) : Int) * tranche := by
    rw [tranche_eq]
    omega
  have hgrid : Grid { db with tranches := tranches } first (n + m) :=
    ⟨hg.aligned, hg.hours, fun e he hs => (hg.frozen e he hs).trans (by omega), hkeys⟩
  have hhours := hgrid.recordHours hc'.fromAligned hc'.first_le c.through
  cases hfreeze : (c.withoutWritten db.progress).freezeThrough with
  | none =>
    refine ⟨_, m, ?_, hhours, fun h => recordHours_keys, hm⟩
    simp only [Tables.writeCycle, hrecord, hfreeze]
    rfl
  | some through =>
    have hcovered := hg.freezeThrough hc hm hfreeze
    refine ⟨_, m, ?_, hhours.freeze hcovered (c.withoutWritten db.progress).from_ c.at_,
      fun h => ?_, hm⟩
    · simp only [Tables.writeCycle, hrecord, hfreeze]
      rfl
    · rw [freeze_keys]
      exact recordHours_keys

theorem planFrom_eq (current : Int) (progress : AnalyticProgress) :
    CycleWrite.planFrom current progress =
      progress.lastFrozen.elim (progress.firstHour.getD current) (· + hour) := by
  unfold CycleWrite.planFrom
  cases progress.lastFrozen with
  | some frozen => rfl
  | none => cases progress.firstHour <;> rfl

/-- The plan before what is written is taken out of it. -/
def CycleWrite.due (now : Int) (progress : AnalyticProgress) : CycleWrite where
  tranchesFrom := progress.lastTranche.elim (planFrom (hourOf now) progress) (· + tranche)
  tranchesThrough := min (trancheOf (now - tranche - freezeMargin))
    (progress.lastTranche.elim (planFrom (hourOf now) progress) (· + tranche) +
      tranche * (maxTranchesPerCycle - 1))
  from_ := planFrom (hourOf now) progress
  through := min (hourOf now) (planFrom (hourOf now) progress + hour * (maxHoursPerCycle - 1))
  freezeThrough := some (hourOf (now - hour - freezeMargin))
  tvlHour := some (hourOf now)
  at_ := now

theorem CycleWrite.plan_eq (now : Int) (progress : AnalyticProgress) :
    CycleWrite.plan now progress = (CycleWrite.due now progress).withoutWritten progress := rfl

/-- A plan starts where the tables stand; before the first hour, at the hour of its clock. -/
theorem Grid.due (hg : Grid db first n) {now : Int}
    (hfirst : db.progress.firstHour.getD (hourOf now) = first) :
    Ready (.due now db.progress) first n := by
  have hfrom : CycleWrite.planFrom (hourOf now) db.progress % hour = 0 ∧
      first ≤ CycleWrite.planFrom (hourOf now) db.progress ∧
      CycleWrite.planFrom (hourOf now) db.progress ≤ first + (n : Int) * tranche := by
    rw [planFrom_eq, hfirst]
    cases hl : db.progress.lastFrozen with
    | none =>
      have ha := hg.aligned
      simp only [Option.elim_none, hour_eq, tranche_eq] at *
      omega
    | some frozen =>
      obtain ⟨ha, hf, hle⟩ := hg.lastFrozen hl
      simp only [Option.elim_some, hour_eq] at *
      omega
  have htranches : db.progress.lastTranche.elim (CycleWrite.planFrom (hourOf now) db.progress)
      (· + tranche) ≤ first + (n : Int) * tranche ∧
      db.progress.lastTranche.elim (CycleWrite.planFrom (hourOf now) db.progress)
      (· + tranche) % tranche = 0 := by
    obtain ⟨ha, hf, hle⟩ := hfrom
    have hfirst := hg.aligned
    rw [hg.lastTranche]
    split_ifs with hn
    · simp only [Option.elim_none, hour_eq, tranche_eq] at *
      omega
    · simp only [Option.elim_some, hour_eq, tranche_eq] at *
      omega
  refine ⟨hfrom.1, hfrom.2.1, hfrom.2.2, htranches.1, ?_⟩
  have hclock := durationTrunc_mod (now - tranche - freezeMargin) tranche
  have hstart := htranches.2
  simp only [CycleWrite.due, trancheOf, maxTranchesPerCycle, maxHoursPerCycle, trancheMinutes]
  rcases le_total (durationTrunc (now - tranche - freezeMargin) tranche)
    (db.progress.lastTranche.elim (CycleWrite.planFrom (hourOf now) db.progress) (· + tranche) +
      tranche * (6 * 60 / 5 - 1)) with h | h
  · rw [min_eq_left h]
    exact hclock
  · rw [min_eq_right h]
    simp only [tranche_eq] at *
    omega

theorem Grid.plan (hg : Grid db first n) {now : Int}
    (hfirst : db.progress.firstHour.getD (hourOf now) = first) :
    Ready (.plan now db.progress) first n :=
  hg.withoutWritten (hg.due hfirst)

end Write

/-- The cycle met no tranche and no frozen hour in what it wrote. -/
structure Executed.Apart (e : Executed) : Prop where
  tranches : ∀ t ∈ e.before.tranches.keys,
    ¬ (e.written.tranchesFrom ≤ t ∧ t ≤ e.written.tranchesThrough)
  hours : ∀ h ∈ e.before.frozen.keys, ¬ (e.written.from_ ≤ h ∧ h ≤ e.written.through)

/-- Every cycle in flight planned from a reading with an hour is ready. -/
def State.AllReady (s : State W) (first : Int) (n : Nat) : Prop :=
  ∀ w p, s.planned w = some p → p.reading.firstHour.isSome → Ready p.cycle first n

/-- Before the first cycle the tables are empty and a plan starts at its own hour; after it the
tables are a grid, which every plan made from a reading with an hour is ready for. -/
structure Inv (s : State W) : Prop where
  fresh : s.executed = [] → s.db = .empty ∧ ∀ w p, s.planned w = some p →
    p.reading.firstHour = none ∧
      ∃ first, first % hour = 0 ∧ Ready p.cycle first 0 ∧ first ≤ p.cycle.through
  running : s.executed ≠ [] → ∃ first n, Grid s.db first n ∧ s.db.progress.firstHour = some first ∧
    s.AllReady first n
  apart : ∀ e ∈ s.executed, e.Apart

theorem Inv.init : Inv (.init : State W) :=
  ⟨fun _ => ⟨rfl, by simp [State.init]⟩, fun h => absurd rfl h, by simp [State.init]⟩

/-- Where a cycle in flight may be executed, there is a grid it is ready for. -/
theorem Inv.ready {s : State W} (hs : Inv s) {w : W} {p : Planned} (inFlight : s.planned w = some p)
    (first : s.executed = [] ∨ p.reading.firstHour.isSome) :
    ∃ start n, Grid s.db start n ∧ Ready p.cycle start n ∧ s.AllReady start n ∧
      ((s.executed ≠ [] ∧ s.db.progress.firstHour = some start) ∨
        (s.executed = [] ∧ start ≤ p.cycle.through ∧ n = 0)) := by
  by_cases he : s.executed = []
  · obtain ⟨hdb, hplans⟩ := hs.fresh he
    obtain ⟨-, start, ha, hr, hle⟩ := hplans w p inFlight
    refine ⟨start, 0, hdb ▸ Grid.empty ha, hr, ?_, Or.inr ⟨he, hle, rfl⟩⟩
    intro v q hv hsome
    rw [(hplans v q hv).1] at hsome
    simp at hsome
  · obtain ⟨start, n, hg, hf, hplans⟩ := hs.running he
    have hreading := first.resolve_left he
    exact ⟨start, n, hg, hplans w p inFlight hreading, hplans, Or.inl ⟨he, hf⟩⟩

theorem mem_series_start {start stop : Int} (h : start ≤ stop) : start ∈ series start stop hour := by
  rw [series, if_neg (by omega), List.mem_map]
  refine ⟨0, ?_, by simp⟩
  simp only [List.mem_range, hour_eq]
  omega

theorem firstHour_eq {db : Tables} {first : Int} (hmem : first ∈ db.hours.keys)
    (hle : ∀ h ∈ db.hours.keys, first ≤ h) : db.progress.firstHour = some first := by
  obtain ⟨e, he, rfl⟩ := List.mem_map.mp hmem
  cases hf : db.hours.first? with
  | none => simp [OrdMap.first?_none.mp hf] at he
  | some e' =>
    obtain ⟨he', hmin⟩ := OrdMap.first?_some hf
    have h := hle e'.1 (List.mem_map_of_mem he')
    have h' := hmin e he
    simp only [Tables.progress, hf, Option.map_some, Option.some.injEq]
    omega

theorem firstHour_mem {db : Tables} {first : Int} (h : db.progress.firstHour = some first) :
    first ∈ db.hours.keys := by
  obtain ⟨e, he, rfl⟩ := Option.map_eq_some_iff.mp h
  exact List.mem_map_of_mem (OrdMap.first?_some he).1

/-- One execution of `c`: the tables stay a grid with the same first hour, `m` tranches further. -/
structure Execution (s : State W) (c : CycleWrite) (db : Tables) (start : Int) (n m : Nat) : Prop where
  before : Grid s.db start n
  ready : Ready c start n
  first : (s.executed ≠ [] ∧ s.db.progress.firstHour = some start) ∨
    (s.executed = [] ∧ start ≤ c.through ∧ n = 0)
  commit : s.db.writeCycle c = .ok (db, c.withoutWritten s.db.progress)
  after : Grid db start (n + m)
  firstHour : db.progress.firstHour = some start
  lands : if start + (n : Int) * tranche ≤ c.tranchesThrough
    then c.tranchesThrough + tranche = start + ((n + m : Nat) : Int) * tranche else m = 0

/-- A cycle in flight that may be executed goes through. -/
theorem Inv.execute {s : State W} (hs : Inv s) {w : W} {p : Planned} (inFlight : s.planned w = some p)
    (first : s.executed = [] ∨ p.reading.firstHour.isSome) :
    ∃ start n m db, Execution s p.cycle db start n m ∧ s.AllReady start n := by
  obtain ⟨start, n, hg, hr, hall, hstart⟩ := hs.ready inFlight first
  obtain ⟨db, m, hwrite, hgrid, hkeys, hm⟩ := hg.writeCycle hr
  have hmem : start ∈ db.hours.keys := by
    rw [hkeys]
    rcases hstart with ⟨-, hf⟩ | ⟨-, hle, rfl⟩
    · exact Or.inl (firstHour_mem hf)
    · right
      have hr' := hg.withoutWritten hr
      have hfrom : (p.cycle.withoutWritten s.db.progress).from_ = start := by
        have h1 := hr'.first_le
        have h2 := hr'.from_le
        simp only [tranche_eq] at h2
        omega
      rw [hfrom]
      exact mem_series_start hle
  have hlow : ∀ h ∈ db.hours.keys, start ≤ h := by
    intro h hh
    obtain ⟨e, he, rfl⟩ := List.mem_map.mp hh
    exact (hgrid.hours e he).2
  exact ⟨start, n, m, db, ⟨hg, hr, hstart, hwrite, hgrid, firstHour_eq hmem hlow, hm⟩, hall⟩

/-- The cycle stays apart from what was there. -/
theorem Execution.apart {s : State W} {c : CycleWrite} {db : Tables} {start : Int} {n m : Nat}
    (h : Execution s c db start n m) :
    Executed.Apart ⟨s.db, c.withoutWritten s.db.progress⟩ := by
  constructor
  · intro t ht
    change t ∈ s.db.tranches.keys at ht
    rw [h.before.tranches, mem_grid] at ht
    obtain ⟨k, -, hk, rfl⟩ := ht
    change ¬ (c.tranchesFromAfter s.db.progress ≤ _ ∧ _)
    rw [h.before.tranchesFromAfter h.ready, tranche_eq]
    omega
  · intro t ht
    obtain ⟨e, he, rfl⟩ := List.mem_map.mp ht
    obtain ⟨he, hsome⟩ := OrdMap.mem_filter.mp he
    have hlt : e.1 < c.fromAfter s.db.progress := frozen_lt_fromAfter c he hsome
    change ¬ (c.fromAfter s.db.progress ≤ _ ∧ _)
    omega

/-- What holds of the cycles in flight still holds once one of them is planned or gone. -/
theorem forall_update [DecidableEq W] {A : Type*} {P : A → Prop} {f : W → Option A} {w : W}
    {a : Option A} (h : ∀ v b, f v = some b → P b) (ha : ∀ b, a = some b → P b) :
    ∀ v b, Function.update f w a v = some b → P b := by
  intro v b hv
  by_cases hvw : v = w
  · subst hvw
    rw [Function.update_self] at hv
    exact ha b hv
  · rw [Function.update_of_ne hvw] at hv
    exact h v b hv

theorem Inv.plan [DecidableEq W] {s : State W} (hs : Inv s) (w : W) (now : Int) :
    Inv { s with
      planned := Function.update s.planned w (some ⟨s.db.progress, .plan now s.db.progress⟩) } := by
  refine ⟨fun he => ⟨(hs.fresh he).1, forall_update (hs.fresh he).2 ?_⟩, fun he => ?_, hs.apart⟩
  · rintro p ⟨rfl⟩
    have ha : hourOf now % hour = 0 := durationTrunc_mod now hour
    simp only [(hs.fresh he).1]
    refine ⟨rfl, hourOf now, ha, (Grid.empty ha).plan rfl, ?_⟩
    change hourOf now ≤ min (hourOf now) (hourOf now + hour * (maxHoursPerCycle - 1))
    simp only [hour_eq, maxHoursPerCycle]
    omega
  · obtain ⟨first, n, hg, hf, hall⟩ := hs.running he
    refine ⟨first, n, hg, hf, forall_update hall ?_⟩
    rintro p ⟨rfl⟩ -
    exact hg.plan (by rw [hf]; rfl)

theorem Inv.step [DecidableEq W] {s s' : State W} (hs : Inv s) (h : Step s s') : Inv s' := by
  cases h with
  | plan w now => exact hs.plan w now
  | execute w p db written inFlight first commit =>
    obtain ⟨start, n, m, db', hexec, hall⟩ := hs.execute inFlight first
    rw [hexec.commit] at commit
    obtain ⟨rfl, rfl⟩ : db' = db ∧ p.cycle.withoutWritten s.db.progress = written := by
      simpa using commit
    refine ⟨fun he => absurd he (by simp),
      fun _ => ⟨start, n + m, hexec.after, hexec.firstHour, ?_⟩, ?_⟩
    · refine forall_update (fun v q hv hq => (hall v q hv hq).mono (Nat.le_add_right n m)) ?_
      simp
    · intro e he
      rcases List.mem_append.mp he with he | he
      · exact hs.apart e he
      · rw [List.mem_singleton.mp he]
        exact hexec.apart
  | abandon w =>
    refine ⟨fun he => ⟨(hs.fresh he).1, forall_update (hs.fresh he).2 (by simp)⟩, fun he => ?_,
      hs.apart⟩
    obtain ⟨first, n, hg, hf, hall⟩ := hs.running he
    exact ⟨first, n, hg, hf, forall_update hall (by simp)⟩

theorem Reachable.inv [DecidableEq W] {s : State W} (h : Reachable s) : Inv s := by
  induction h with
  | refl => exact Inv.init
  | tail _ hstep ih => exact ih.step hstep

theorem Inv.grid {s : State W} (hs : Inv s) : ∃ first n, Grid s.db first n := by
  by_cases he : s.executed = []
  · exact ⟨0, 0, (hs.fresh he).1 ▸ Grid.empty rfl⟩
  · obtain ⟨first, n, hg, -, -⟩ := hs.running he
    exact ⟨first, n, hg⟩

/-- Cycles never value a tranche twice, never skip one and never touch a frozen hour, whatever the
workers' clocks and however they interleave: a cycle that may be executed goes through, what was
executed stayed apart from what was there, and the tranches recorded are steps without a gap. -/
theorem Reachable.cycles_apart [DecidableEq W] {s : State W} (h : Reachable s) :
    (∀ e ∈ s.executed,
      (∀ t ∈ e.before.tranches.keys,
        ¬ (e.written.tranchesFrom ≤ t ∧ t ≤ e.written.tranchesThrough)) ∧
      ∀ f ∈ e.before.frozen.keys, ¬ (e.written.from_ ≤ f ∧ f ≤ e.written.through)) ∧
    (∃ first n, s.db.tranches.keys = (List.range n).map (fun k : Nat => first + (k : Int) * tranche)) ∧
    ∀ w p, s.planned w = some p → (s.executed = [] ∨ p.reading.firstHour.isSome) →
      ∃ db, s.db.writeCycle p.cycle = .ok (db, p.cycle.withoutWritten s.db.progress) := by
  have hs := h.inv
  refine ⟨fun e he => ⟨(hs.apart e he).tranches, (hs.apart e he).hours⟩, ?_, ?_⟩
  · obtain ⟨first, n, hg⟩ := hs.grid
    refine ⟨first, n, ?_⟩
    rw [hg.tranches, grid, List.range_eq_range']
  · intro w p inFlight first
    obtain ⟨start, n, m, db, hexec, -⟩ := hs.execute inFlight first
    exact ⟨db, hexec.commit⟩

/-- The first cycle, at 10:20. -/
def openingCycle : CycleWrite := .plan (minutes 620) Tables.empty.progress

/-- The tables once a cycle is written. -/
def Tables.written (db : Tables) (c : CycleWrite) : Tables :=
  ((db.writeCycle c).toOption.map Prod.fst).getD db

def opened : Tables := Tables.empty.written openingCycle

def openedState : State Nat :=
  ⟨opened,
    Function.update
      (Function.update (fun _ => none) 0 (some ⟨Tables.empty.progress, openingCycle⟩)) 0 none,
    [⟨.empty, openingCycle⟩]⟩

theorem openedState_reachable : Reachable openedState := by
  have hplan := Relation.ReflTransGen.single (Step.plan (.init : State Nat) 0 (minutes 620))
  exact hplan.tail (.execute _ 0 ⟨Tables.empty.progress, openingCycle⟩ opened openingCycle rfl
    (Or.inl rfl) rfl)

/-- Two cycles planned on one reading, at 11:30 and at 11:40. -/
def soonerCycle : CycleWrite := .plan (minutes 690) opened.progress

def laterCycle : CycleWrite := .plan (minutes 700) opened.progress

/-- The tables the later one meets: its first hour is frozen since it was planned. -/
def overtaken : Tables := opened.written soonerCycle

def overtakenCycles : List Executed :=
  [⟨.empty, openingCycle⟩, ⟨opened, soonerCycle⟩,
    ⟨overtaken, laterCycle.withoutWritten overtaken.progress⟩]

theorem soonerCycle_commit : opened.writeCycle soonerCycle = .ok (overtaken, soonerCycle) := by
  decide +kernel

theorem laterCycle_commit : overtaken.writeCycle laterCycle =
    .ok (overtaken.written laterCycle, laterCycle.withoutWritten overtaken.progress) := by
  decide +kernel

theorem overtaken_reachable : ∃ s : State Nat, Reachable s ∧ s.executed = overtakenCycles := by
  have hplanned := (openedState_reachable.tail (.plan _ 0 (minutes 690))).tail
    (.plan _ 1 (minutes 700))
  have hovertaken := hplanned.tail (.execute _ 0 ⟨opened.progress, soonerCycle⟩ overtaken
    soonerCycle rfl (Or.inr rfl) soonerCycle_commit)
  have hlater := hovertaken.tail (.execute _ 1 ⟨opened.progress, laterCycle⟩
    (overtaken.written laterCycle) _ rfl (Or.inr rfl) laterCycle_commit)
  exact ⟨_, hlater, rfl⟩

/-- The overtaken cycle meets a frozen hour and tranches of its own plan, and leaves them out. -/
theorem cycles_apart_opened : ∃ s : State Nat, ∃ e ∈ s.executed,
    e.before.frozen.keys = [minutes 600] ∧ minutes 675 ∈ e.before.tranches.keys ∧
    laterCycle.from_ = minutes 600 ∧ laterCycle.tranchesFrom = minutes 610 ∧
    e.written.from_ = minutes 660 ∧ e.written.tranchesFrom = minutes 680 ∧
    (∀ t ∈ e.before.tranches.keys,
      ¬ (e.written.tranchesFrom ≤ t ∧ t ≤ e.written.tranchesThrough)) ∧
    ∀ f ∈ e.before.frozen.keys, ¬ (e.written.from_ ≤ f ∧ f ≤ e.written.through) := by
  obtain ⟨s, hreachable, hexecuted⟩ := overtaken_reachable
  refine ⟨s, ⟨overtaken, laterCycle.withoutWritten overtaken.progress⟩, ?_, by decide +kernel,
    by decide +kernel, by decide +kernel, by decide +kernel, by decide +kernel, by decide +kernel,
    ?_⟩
  · rw [hexecuted]
    exact List.mem_of_getLast? rfl
  · refine hreachable.cycles_apart.1 _ ?_
    rw [hexecuted]
    exact List.mem_of_getLast? rfl

end YogSothoth.Analytic
