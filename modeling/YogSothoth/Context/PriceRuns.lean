import YogSothoth.Context.PriceSeries
import Mathlib.Data.List.Induction

namespace YogSothoth.Context

/-- The source names a mint at most once in an answer. -/
def PriceAnswer.Once (answer : PriceAnswer) : Prop := (answer.priced.map (·.mint)).Nodup

/-- A fetched price as the tick observes it. -/
def FetchedPrice.observed (now : Instant) (f : FetchedPrice) : TokenPrice :=
  ⟨f.mint, f.priceUsd, f.priceProvider, now⟩

namespace PriceWorker

variable {self : PriceWorker} {answer : PriceAnswer} {now : Instant}

theorem mem_storable {p : TokenPrice} : p ∈ storable answer now ↔
    (∃ f ∈ answer.priced, f.observed now = p) ∧ p.isStorable = true := by
  unfold storable
  rw [List.mem_filter, List.mem_map]
  rfl

theorem storable_batch (hanswer : answer.Once) : Batch now (storable answer now) := by
  refine Batch.filter ⟨?_, ?_⟩ _
  · intro p hp
    obtain ⟨f, -, rfl⟩ := List.mem_map.mp hp
    rfl
  · rw [List.map_map]
    exact hanswer

/-- The observations of an answer that earn a row. -/
def toInsert (self : PriceWorker) (answer : PriceAnswer) (now : Instant) : List TokenPrice :=
  (storable answer now).filter self.kept.worthKeeping

/-- The ways an answer ends: nothing kept or a refused batch, or the observations worth keeping
in the tables and then in the memory. -/
theorem write_cases (self : PriceWorker) (tables : PriceTables) (answer : PriceAnswer)
    (now : Instant) (refused : Option RepositoryError) :
    ((self.write tables answer now refused).1.kept = self.kept ∧
      (self.write tables answer now refused).2.1 = tables ∧
      (self.toInsert answer now = [] ∨
        ∃ e, (self.write tables answer now refused).2.2 = .insertFailed e)) ∨
    (self.toInsert answer now ≠ [] ∧
      (self.write tables answer now refused).1.kept =
        self.kept.record (self.toInsert answer now) ∧
      tables.insertBatch (self.toInsert answer now) refused =
        .ok (self.write tables answer now refused).2.1) := by
  unfold write toInsert
  by_cases hstorable : (storable answer now).isEmpty = true
  · rw [if_pos hstorable, List.isEmpty_iff.mp hstorable]
    exact Or.inl ⟨rfl, rfl, Or.inl rfl⟩
  · rw [if_neg hstorable]
    by_cases hempty : ((storable answer now).filter self.kept.worthKeeping).isEmpty = true
    · rw [if_pos hempty]
      exact Or.inl ⟨rfl, rfl, Or.inl (List.isEmpty_iff.mp hempty)⟩
    · rw [if_neg hempty]
      cases hinsert : tables.insertBatch
          ((storable answer now).filter self.kept.worthKeeping) refused with
      | error e => exact Or.inl ⟨rfl, rfl, Or.inr ⟨e, rfl⟩⟩
      | ok inserted => exact Or.inr ⟨fun h => hempty (List.isEmpty_iff.mpr h), rfl, rfl⟩

theorem ask_kept (self : PriceWorker) (i : Tick) : (self.ask i).1.kept = self.kept := by
  unfold ask
  cases i.candidates with
  | error e => rfl
  | ok candidates =>
    simp only
    split_ifs <;> rfl

/-- A tick that is not answered changes neither the memory nor the tables. -/
theorem priceOnce_unanswered (tables : PriceTables) {i : Tick} {ending : TickOutcome}
    (h : self.answer i = .error ending) :
    (self.priceOnce tables i).1.kept = self.kept ∧ (self.priceOnce tables i).2.1 = tables ∧
      (self.priceOnce tables i).2.2 = ending := by
  unfold priceOnce
  rw [h]
  exact ⟨self.ask_kept i, rfl, rfl⟩

/-- A tick that is answered ends as `write` does, from the same memory. -/
theorem priceOnce_answered (tables : PriceTables) {i : Tick} (h : self.answer i = .ok answer) :
    ∃ answered : PriceWorker, answered.kept = self.kept ∧
      self.priceOnce tables i = answered.write tables answer i.now i.refused := by
  unfold priceOnce
  rw [h]
  let unpriced := (self.ask i).1.unpriced.record (answer.priced.map FetchedPrice.mint)
    answer.unpriced i.now
  exact ⟨{ (self.ask i).1 with unpriced }, self.ask_kept i, rfl⟩

theorem answer_fetched {i : Tick} (h : self.answer i = .ok answer) :
    ∃ mints, i.fetchPrices mints = .ok answer := by
  unfold PriceWorker.answer at h
  cases hask : (self.ask i).2 with
  | error ending =>
    rw [hask] at h
    cases h
  | ok mints =>
    rw [hask] at h
    refine ⟨mints, ?_⟩
    cases hfetch : i.fetchPrices mints with
    | error e =>
      simp only [hfetch, Except.mapError] at h
      cases h
    | ok fetched =>
      simp only [hfetch, Except.mapError] at h
      cases h
      rfl

end PriceWorker

/-- The worker and the tables it writes. -/
structure PriceRun where
  worker : PriceWorker
  tables : PriceTables

namespace PriceRun

def start (interval : Nat) : PriceRun := ⟨PriceWorker.new interval, PriceTables.empty⟩

def step (s : PriceRun) (i : Tick) : PriceRun :=
  ⟨(s.worker.priceOnce s.tables i).1, (s.worker.priceOnce s.tables i).2.1⟩

def outcome (s : PriceRun) (i : Tick) : TickOutcome := (s.worker.priceOnce s.tables i).2.2

def exec (interval : Nat) (ticks : List Tick) : PriceRun := ticks.foldl step (start interval)

theorem exec_concat (interval : Nat) (ticks : List Tick) (i : Tick) :
    exec interval (ticks ++ [i]) = (exec interval ticks).step i := by
  unfold exec
  rw [List.foldl_append]
  rfl

/-- What one tick does to the memory and the tables. -/
theorem step_cases (s : PriceRun) (i : Tick)
    (honce : ∀ mints answer, i.fetchPrices mints = .ok answer → answer.Once) :
    ((s.step i).worker.kept = s.worker.kept ∧ (s.step i).tables = s.tables ∧
      ∀ answer, s.worker.answer i = .ok answer →
        s.worker.toInsert answer i.now = [] ∨ ∃ e, s.outcome i = .insertFailed e) ∨
    ∃ answer, s.worker.answer i = .ok answer ∧ answer.Once ∧
      s.worker.toInsert answer i.now ≠ [] ∧
      (s.step i).worker.kept = s.worker.kept.record (s.worker.toInsert answer i.now) ∧
      s.tables.insertBatch (s.worker.toInsert answer i.now) i.refused = .ok (s.step i).tables := by
  cases hanswer : s.worker.answer i with
  | error ending =>
    have h := PriceWorker.priceOnce_unanswered s.tables hanswer
    exact Or.inl ⟨h.1, h.2.1, nofun⟩
  | ok answer =>
    obtain ⟨mints, hfetch⟩ := PriceWorker.answer_fetched hanswer
    obtain ⟨answered, hkept, hwrite⟩ := PriceWorker.priceOnce_answered s.tables hanswer
    have htoInsert : answered.toInsert answer i.now = s.worker.toInsert answer i.now := by
      unfold PriceWorker.toInsert
      rw [hkept]
    have hcases := answered.write_cases s.tables answer i.now i.refused
    rw [← hwrite, htoInsert, hkept] at hcases
    cases hcases with
    | inl h =>
      refine Or.inl ⟨h.1, h.2.1, ?_⟩
      intro answer' hanswer'
      cases hanswer'
      exact h.2.2
    | inr h => exact Or.inr ⟨answer, rfl, honce mints answer hfetch, h⟩

/-- What holds between two ticks: the memory mirrors the tables, and no row is newer than what
has been observed. -/
structure Inv (interval : Nat) (s : PriceRun) (ticks : List Tick) : Prop where
  mirrors : Mirrors s.worker.kept s.tables
  observed : ∀ row ∈ s.tables.rows, ∃ i ∈ ticks, row.fetchedAt = columnInstant i.now
  maxGap : s.worker.kept.maxGap = (KeptPrices.new interval).maxGap

theorem Inv.start (interval : Nat) : Inv interval (start interval) [] where
  mirrors := Mirrors.empty interval
  observed := nofun
  maxGap := rfl

theorem toInsert_batch (s : PriceRun) {answer : PriceAnswer} (honce : answer.Once)
    (now : Instant) : Batch now (s.worker.toInsert answer now) :=
  (PriceWorker.storable_batch honce).filter _

theorem Inv.step {interval : Nat} {s : PriceRun} {ticks : List Tick} (h : Inv interval s ticks)
    {i : Tick} (hclock : ∀ j ∈ ticks, columnInstant j.now < columnInstant i.now)
    (honce : ∀ mints answer, i.fetchPrices mints = .ok answer → answer.Once) :
    Inv interval (s.step i) (ticks ++ [i]) := by
  have holder : ∀ row ∈ s.tables.rows, row.fetchedAt < columnInstant i.now := by
    intro row hrow
    obtain ⟨j, hj, hat⟩ := h.observed row hrow
    rw [hat]
    exact hclock j hj
  obtain ⟨hkept, htables, -⟩ | ⟨answer, -, hanswer, hne, hkept, hinsert⟩ := s.step_cases i honce
  · refine ⟨?_, ?_, ?_⟩
    · rw [hkept, htables]
      exact h.mirrors
    · intro row hrow
      rw [htables] at hrow
      obtain ⟨j, hj, hat⟩ := h.observed row hrow
      exact ⟨j, List.mem_append_left _ hj, hat⟩
    · rw [hkept]
      exact h.maxGap
  · have hbatch := s.toInsert_batch hanswer i.now
    refine ⟨?_, ?_, ?_⟩
    · rw [hkept]
      exact h.mirrors.record hbatch hne holder hinsert
    · intro row hrow
      rw [(PriceTables.insertBatch_ok hbatch hne holder hinsert).1, List.mem_append] at hrow
      cases hrow with
      | inl hrow =>
        obtain ⟨j, hj, hat⟩ := h.observed row hrow
        exact ⟨j, List.mem_append_left _ hj, hat⟩
      | inr hrow =>
        obtain ⟨p, hp, rfl⟩ := List.mem_map.mp hrow
        refine ⟨i, List.mem_append_right _ (List.mem_singleton_self i), ?_⟩
        change columnInstant p.fetchedAt = _
        rw [hbatch.observed p hp]
    · rw [hkept, KeptPrices.record_maxGap]
      exact h.maxGap

/-- Ticks of a clock that moves by a microsecond at least, with sources that name a mint once. -/
structure Ticks (ticks : List Tick) : Prop where
  clock : ticks.Pairwise (fun i j => columnInstant i.now < columnInstant j.now)
  once : ∀ i ∈ ticks, ∀ mints answer, i.fetchPrices mints = .ok answer → answer.Once

theorem Ticks.sublist {ticks ticks' : List Tick} (h : Ticks ticks) (hsub : ticks'.Sublist ticks) :
    Ticks ticks' where
  clock := h.clock.sublist hsub
  once i hi := h.once i (hsub.subset hi)

theorem Ticks.last_clock {ticks : List Tick} {i : Tick} (h : Ticks (ticks ++ [i])) :
    ∀ j ∈ ticks, columnInstant j.now < columnInstant i.now :=
  fun j hj => (List.pairwise_append.mp h.clock).2.2 j hj i (List.mem_singleton_self i)

theorem Ticks.last_once {ticks : List Tick} {i : Tick} (h : Ticks (ticks ++ [i])) :
    ∀ mints answer, i.fetchPrices mints = .ok answer → answer.Once :=
  h.once i (List.mem_append_right _ (List.mem_singleton_self i))

theorem exec_inv (interval : Nat) {ticks : List Tick} (h : Ticks ticks) :
    Inv interval (exec interval ticks) ticks := by
  induction ticks using List.reverseRecOn with
  | nil => exact Inv.start interval
  | append_singleton ticks i ih =>
    rw [exec_concat]
    exact (ih (h.sublist (List.sublist_append_left _ _))).step h.last_clock h.last_once

/-- An answer that was not refused replaces the entry of a mint when it earns a row, and leaves
it otherwise. -/
theorem step_last {s : PriceRun} {i : Tick}
    (honce : ∀ mints answer, i.fetchPrices mints = .ok answer → answer.Once)
    {answer : PriceAnswer} (hanswer : s.worker.answer i = .ok answer) {f : FetchedPrice}
    (hf : f ∈ answer.priced) (hstorable : (f.observed i.now).isStorable = true)
    (hwritten : ∀ e, s.outcome i ≠ .insertFailed e) :
    (s.step i).worker.kept.last f.mint =
      if s.worker.kept.worthKeeping (f.observed i.now) then
        some (KeptPrice.of (f.observed i.now))
      else s.worker.kept.last f.mint := by
  have hmem : f.observed i.now ∈ PriceWorker.storable answer i.now :=
    PriceWorker.mem_storable.mpr ⟨⟨f, hf, rfl⟩, hstorable⟩
  have hcases := s.step_cases i honce
  by_cases hworth : s.worker.kept.worthKeeping (f.observed i.now) = true
  · have hinsert : f.observed i.now ∈ s.worker.toInsert answer i.now :=
      List.mem_filter.mpr ⟨hmem, hworth⟩
    rw [if_pos hworth]
    obtain ⟨-, -, hnone⟩ | ⟨answer', hanswer', honce', -, hkept, -⟩ := hcases
    · cases hnone answer hanswer with
      | inl hempty =>
        rw [hempty] at hinsert
        cases hinsert
      | inr hfailed =>
        obtain ⟨e, he⟩ := hfailed
        exact absurd he (hwritten e)
    · rw [hanswer] at hanswer'
      cases hanswer'
      rw [hkept]
      exact KeptPrices.record_last_of_mem _ (s.toInsert_batch honce' i.now).mints hinsert
  · rw [if_neg hworth]
    obtain ⟨hkept, -, -⟩ | ⟨answer', hanswer', honce', -, hkept, -⟩ := hcases
    · rw [hkept]
    · rw [hanswer] at hanswer'
      cases hanswer'
      have hother : ∀ p ∈ s.worker.toInsert answer i.now, p.mint ≠ f.mint := by
        intro p hp hmint
        have hp := List.mem_filter.mp hp
        have heq := (PriceWorker.storable_batch honce').eq_of_mint hp.1 hmem hmint
        exact hworth (heq ▸ hp.2)
      rw [hkept, KeptPrices.record_last_of_not_mem _ hother]

/-- After an answer that was not refused, the memory holds it, or a row of it near enough. -/
theorem step_answered {s : PriceRun} {i : Tick}
    (honce : ∀ mints answer, i.fetchPrices mints = .ok answer → answer.Once)
    (hgap : 0 ≤ s.worker.kept.maxGap) {answer : PriceAnswer}
    (hanswer : s.worker.answer i = .ok answer) {f : FetchedPrice} (hf : f ∈ answer.priced)
    (hstorable : (f.observed i.now).isStorable = true)
    (hwritten : ∀ e, s.outcome i ≠ .insertFailed e) :
    ∃ entry, (s.step i).worker.kept.last f.mint = some entry ∧
      entry.priceUsd = atStorageScale f.priceUsd ∧ entry.priceProvider = f.priceProvider ∧
      i.now - entry.fetchedAt ≤ s.worker.kept.maxGap := by
  rw [step_last honce hanswer hf hstorable hwritten]
  by_cases hworth : s.worker.kept.worthKeeping (f.observed i.now) = true
  · refine ⟨KeptPrice.of (f.observed i.now), if_pos hworth, rfl, rfl, ?_⟩
    change i.now - i.now ≤ _
    rw [Int.sub_self]
    exact hgap
  · obtain ⟨entry, hentry, hprice, hprovider, hat⟩ :=
      KeptPrices.not_worthKeeping (Bool.eq_false_iff.mpr hworth)
    exact ⟨entry, by rw [if_neg hworth]; exact hentry, hprice, hprovider, hat⟩

end PriceRun

end YogSothoth.Context
