import YogSothoth.Context.PriceCadence

namespace YogSothoth.Context

namespace UnpricedMints

variable {mint : Pubkey}

theorem isDue_iff {self : UnpricedMints} {now : Instant} :
    self.isDue mint now = true ↔ ∀ d, self.deferred mint = some d → d.dueAt ≤ now := by
  unfold isDue
  cases self.deferred mint with
  | none => simp
  | some d => simp

theorem retainOnly_deferred (self : UnpricedMints) (candidates : List Pubkey) :
    (self.retainOnly candidates).deferred mint =
      if mint ∈ candidates then self.deferred mint else none := rfl

theorem forget_all (self : UnpricedMints) (priced : List Pubkey) (mint : Pubkey) :
    (priced.foldl forget self).tick = self.tick ∧
      (priced.foldl forget self).deferred mint =
        if mint ∈ priced then none else self.deferred mint := by
  induction priced generalizing self with
  | nil => exact ⟨rfl, (if_neg List.not_mem_nil).symm⟩
  | cons first priced ih =>
    obtain ⟨htick, hdeferred⟩ := ih (self.forget first)
    refine ⟨htick, hdeferred.trans ?_⟩
    change (if mint ∈ priced then none else if mint = first then none else self.deferred mint) = _
    by_cases hmem : mint ∈ priced
    · rw [if_pos hmem, if_pos (List.mem_cons_of_mem _ hmem)]
    · rw [if_neg hmem]
      by_cases hfirst : mint = first
      · rw [if_pos hfirst, if_pos (hfirst ▸ List.mem_cons_self)]
      · rw [if_neg hfirst, if_neg (fun h => (List.mem_cons.mp h).elim hfirst hmem)]

/-- What one more answer without a price makes of a deferral. -/
def missed (self : UnpricedMints) (now : Instant) (last : Option Deferral) : Deferral :=
  let misses := min ((last.map (·.misses)).getD 0 + 1) (2 ^ 32 - 1)
  ⟨misses, now + self.waitAfter misses - self.tick⟩

theorem miss_all (self : UnpricedMints) (now : Instant) {unpriced : List Pubkey}
    (hnodup : unpriced.Nodup) (mint : Pubkey) : (unpriced.foldl (miss now) self).tick = self.tick ∧
      (unpriced.foldl (miss now) self).deferred mint =
        if mint ∈ unpriced then some (self.missed now (self.deferred mint))
        else self.deferred mint := by
  induction unpriced generalizing self with
  | nil => exact ⟨rfl, (if_neg List.not_mem_nil).symm⟩
  | cons first unpriced ih =>
    obtain ⟨hfresh, hnodup⟩ := List.nodup_cons.mp hnodup
    obtain ⟨htick, hdeferred⟩ := ih (self.miss now first) hnodup
    refine ⟨htick, hdeferred.trans ?_⟩
    by_cases hfirst : mint = first
    · rw [if_neg (hfirst ▸ hfresh), if_pos (hfirst ▸ List.mem_cons_self), hfirst]
      exact if_pos rfl
    · have hsame : (miss now self first).deferred mint = self.deferred mint := if_neg hfirst
      rw [hsame]
      by_cases hmem : mint ∈ unpriced
      · rw [if_pos hmem, if_pos (List.mem_cons_of_mem _ hmem)]
        rfl
      · rw [if_neg hmem, if_neg (fun h => (List.mem_cons.mp h).elim hfirst hmem)]

/-- The priced leave, the unpriced wait, the others keep their wait. -/
theorem record_deferred (self : UnpricedMints) (priced : List Pubkey) {unpriced : List Pubkey}
    (hnodup : unpriced.Nodup) (now : Instant) (mint : Pubkey) :
    (self.record priced unpriced now).tick = self.tick ∧
      (self.record priced unpriced now).deferred mint =
        if mint ∈ unpriced then
          some (self.missed now (if mint ∈ priced then none else self.deferred mint))
        else if mint ∈ priced then none else self.deferred mint := by
  obtain ⟨htick, hforget⟩ := self.forget_all priced mint
  obtain ⟨htick', hmiss⟩ := (priced.foldl forget self).miss_all now hnodup mint
  refine ⟨htick'.trans htick, hmiss.trans ?_⟩
  rw [hforget]
  unfold missed waitAfter
  rw [htick]

end UnpricedMints

namespace PriceWorker

variable {self : PriceWorker} {i : Tick}

theorem ask_tick (self : PriceWorker) (i : Tick) : (self.ask i).1.tick = self.tick + 1 := by
  unfold ask
  cases i.candidates with
  | error e => rfl
  | ok candidates =>
    simp only
    split_ifs <;> rfl

theorem write_tick (self : PriceWorker) (tables : PriceTables) (answer : PriceAnswer)
    (now : Instant) (refused : Option RepositoryError) :
    (self.write tables answer now refused).1.tick = self.tick := by
  unfold write
  simp only
  split_ifs
  · rfl
  · rfl
  · cases tables.insertBatch _ refused with
    | error e => rfl
    | ok inserted => rfl

theorem write_unpriced (self : PriceWorker) (tables : PriceTables) (answer : PriceAnswer)
    (now : Instant) (refused : Option RepositoryError) :
    (self.write tables answer now refused).1.unpriced = self.unpriced := by
  unfold write
  simp only
  split_ifs
  · rfl
  · rfl
  · cases tables.insertBatch _ refused with
    | error e => rfl
    | ok inserted => rfl

/-- A mint is asked when it is a candidate, at its turn and due. -/
theorem mem_asked {mints : List Pubkey} (h : (self.ask i).2 = .ok mints) {mint : Pubkey} :
    mint ∈ mints ↔ ∃ candidates c, i.candidates = .ok candidates ∧ c ∈ candidates ∧
      c.mint = mint ∧ c.isTurn self.tick = true ∧
      (self.unpriced.retainOnly (candidates.map (·.mint))).isDue mint i.askedAt = true := by
  unfold ask at h
  cases hcandidates : i.candidates with
  | error e =>
    rw [hcandidates] at h
    cases h
  | ok candidates =>
    rw [hcandidates] at h
    simp only at h
    split_ifs at h
    have hmints := Except.ok.inj h
    rw [← hmints, List.mem_map]
    constructor
    · intro ⟨c, hc, hmint⟩
      obtain ⟨hc, hasked⟩ := List.mem_filter.mp hc
      obtain ⟨hturn, hdue⟩ := Bool.and_eq_true_iff.mp hasked
      rw [hmint] at hdue
      exact ⟨candidates, c, rfl, hc, hmint, hturn, hdue⟩
    · intro ⟨candidates', c, hsame, hc, hmint, hturn, hdue⟩
      rw [← Except.ok.inj hsame] at hc hdue
      rw [← hmint] at hdue
      exact ⟨c, List.mem_filter.mpr ⟨hc, Bool.and_eq_true_iff.mpr ⟨hturn, hdue⟩⟩, hmint⟩

/-- A candidate at its turn and due is asked. -/
theorem ask_due {candidates : List PriceCandidate} (hcandidates : i.candidates = .ok candidates)
    {c : PriceCandidate} (hc : c ∈ candidates) (hturn : c.isTurn self.tick = true)
    (hdue : (self.unpriced.retainOnly (candidates.map (·.mint))).isDue c.mint i.askedAt = true) :
    ∃ mints, (self.ask i).2 = .ok mints ∧ c.mint ∈ mints := by
  cases hask : (self.ask i).2 with
  | ok mints =>
    exact ⟨mints, rfl, (mem_asked hask).mpr ⟨candidates, c, hcandidates, hc, rfl, hturn, hdue⟩⟩
  | error ending =>
    have hmem : c ∈ candidates.filter (fun c => c.isTurn self.tick &&
        (self.unpriced.retainOnly (candidates.map (·.mint))).isDue c.mint i.askedAt) :=
      List.mem_filter.mpr ⟨hc, Bool.and_eq_true_iff.mpr ⟨hturn, hdue⟩⟩
    unfold ask at hask
    rw [hcandidates] at hask
    simp only at hask
    split_ifs at hask with hempty hnone
    · rw [List.isEmpty_iff.mp hempty] at hc
      cases hc
    · rw [List.isEmpty_iff, List.map_eq_nil_iff] at hnone
      rw [hnone] at hmem
      cases hmem

theorem ask_unpriced {candidates : List PriceCandidate}
    (hcandidates : i.candidates = .ok candidates) :
    (self.ask i).1.unpriced = self.unpriced.retainOnly (candidates.map (·.mint)) := by
  unfold ask
  rw [hcandidates]
  simp only
  split_ifs <;> rfl

/-- An answer is the source's to the mints asked. -/
theorem answer_asked {answer : PriceAnswer} (h : self.answer i = .ok answer) :
    ∃ mints, (self.ask i).2 = .ok mints ∧ i.fetchPrices mints = .ok answer := by
  unfold PriceWorker.answer at h
  cases hask : (self.ask i).2 with
  | error ending =>
    rw [hask] at h
    cases h
  | ok mints =>
    rw [hask] at h
    exact ⟨mints, rfl, mapError_eq_ok.mp h⟩

theorem answer_ending {ending : TickOutcome} (h : self.answer i = .error ending)
    (e : RepositoryError) : ending ≠ .insertFailed e := by
  unfold PriceWorker.answer at h
  cases hask : (self.ask i).2 with
  | ok mints =>
    rw [hask] at h
    cases hfetch : i.fetchPrices mints with
    | ok answer =>
      simp only [hfetch, Except.mapError] at h
      cases h
    | error failure =>
      simp only [hfetch, Except.mapError] at h
      rw [← Except.error.inj h]
      nofun
  | error ending' =>
    rw [hask] at h
    rw [← Except.error.inj h]
    unfold ask at hask
    cases hcandidates : i.candidates with
    | error failure =>
      rw [hcandidates] at hask
      rw [← Except.error.inj hask]
      nofun
    | ok candidates =>
      rw [hcandidates] at hask
      simp only at hask
      split_ifs at hask
      · rw [← Except.error.inj hask]
        nofun
      · rw [← Except.error.inj hask]
        nofun

end PriceWorker

namespace PriceRun

variable {interval : Nat} {mint : Pubkey}

theorem step_tick (s : PriceRun) (i : Tick) : (s.step i).worker.tick = s.worker.tick + 1 := by
  change (s.worker.priceOnce s.tables i).1.tick = _
  unfold PriceWorker.priceOnce
  cases s.worker.answer i with
  | error ending => exact s.worker.ask_tick i
  | ok answer =>
    simp only [PriceWorker.write_tick]
    exact s.worker.ask_tick i

/-- Ticks are numbered in a `u64`. -/
theorem exec_tick (interval : Nat) (ticks : List Tick) :
    (exec interval ticks).worker.tick = UInt64.ofNat ticks.length := by
  induction ticks using List.reverseRecOn with
  | nil => rfl
  | append_singleton ticks i ih =>
    rw [exec_concat, step_tick, ih, List.length_append, List.length_singleton, UInt64.ofNat_add]
    rfl

theorem step_maxGap (s : PriceRun) (i : Tick) :
    (s.step i).worker.kept.maxGap = s.worker.kept.maxGap := by
  change (s.worker.priceOnce s.tables i).1.kept.maxGap = _
  cases hanswer : s.worker.answer i with
  | error ending =>
    rw [(PriceWorker.priceOnce_unanswered s.tables hanswer).1]
  | ok answer =>
    obtain ⟨answered, hkept, hwrite⟩ := PriceWorker.priceOnce_answered s.tables hanswer
    rw [hwrite, ← hkept]
    obtain ⟨hsame, -, -⟩ | ⟨-, hrecord, -⟩ :=
      answered.write_cases s.tables answer i.now i.refused
    · rw [hsame]
    · rw [hrecord, KeptPrices.record_maxGap]

theorem exec_maxGap (interval : Nat) (ticks : List Tick) :
    (exec interval ticks).worker.kept.maxGap = max (PRICE_SERIES_MAX_GAP - interval) 0 := by
  induction ticks using List.reverseRecOn with
  | nil => exact new_maxGap_eq interval
  | append_singleton ticks i ih => rw [exec_concat, step_maxGap, ih]

/-- A mint no answer names keeps its entry. -/
theorem step_unnamed {s : PriceRun} {i : Tick}
    (honce : ∀ mints answer, i.fetchPrices mints = .ok answer → answer.Once)
    (hother : ∀ answer, s.worker.answer i = .ok answer → ∀ f ∈ answer.priced, f.mint ≠ mint) :
    (s.step i).worker.kept.last mint = s.worker.kept.last mint := by
  obtain ⟨hkept, -, -⟩ | ⟨answer, hanswer, -, -, hkept, -⟩ := s.step_cases i honce
  · rw [hkept]
  · rw [hkept]
    apply KeptPrices.record_last_of_not_mem
    intro p hp
    obtain ⟨⟨f, hf, hobserved⟩, -⟩ := PriceWorker.mem_storable.mp (List.mem_filter.mp hp).1
    rw [← hobserved]
    exact hother answer hanswer f hf

/-- A batch the database does not refuse is not a failed insert. -/
theorem outcome_accepted {s : PriceRun} {i : Tick} (h : i.refused = none)
    (e : RepositoryError) : s.outcome i ≠ .insertFailed e := by
  unfold outcome
  cases hanswer : s.worker.answer i with
  | error ending =>
    rw [(PriceWorker.priceOnce_unanswered s.tables hanswer).2.2]
    exact PriceWorker.answer_ending hanswer e
  | ok answer =>
    obtain ⟨answered, -, hwrite⟩ := PriceWorker.priceOnce_answered s.tables hanswer
    rw [hwrite, h]
    unfold PriceWorker.write PriceTables.insertBatch
    simp only
    split_ifs
    · nofun
    · nofun
    · nofun

/-- What a tick leaves of the mints without a price. -/
theorem step_unpriced (s : PriceRun) (i : Tick) :
    (s.step i).worker.unpriced = (s.worker.answer i).toOption.elim (s.worker.ask i).1.unpriced
      (fun answer => (s.worker.ask i).1.unpriced.record (answer.priced.map FetchedPrice.mint)
        answer.unpriced i.now) := by
  change (s.worker.priceOnce s.tables i).1.unpriced = _
  unfold PriceWorker.priceOnce
  cases s.worker.answer i with
  | error ending => rfl
  | ok answer => exact PriceWorker.write_unpriced _ s.tables answer i.now i.refused

end PriceRun

end YogSothoth.Context
