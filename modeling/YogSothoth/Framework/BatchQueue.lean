import Mathlib.Data.Prod.Lex
import YogSothoth.Framework.Keyset

namespace YogSothoth.BatchQueue

variable {α K : Type} [DecidableEq α] [LinearOrder K]
variable (key : α → K) (servable : α → Bool) (cap : Nat)

/-- A batch of the oldest that wait; the order among those of one age is free. -/
def IsBatch (waiting batch : List α) : Prop :=
  ∃ queue : List α, queue.Perm waiting ∧ queue.Pairwise (fun a b => key a ≤ key b) ∧
    batch = queue.take cap

/-- What still waits after a batch: all but those of it that could be served. -/
def round (waiting batch : List α) : List α :=
  waiting.filter (fun a => !(servable a && decide (a ∈ batch)))

/-- How many that cannot be served are not newer. -/
def ahead (waiting : List α) (a : α) : Nat :=
  waiting.countP (fun b => !servable b && decide (key b ≤ key a))

/-- How many that can be served are not newer. -/
def before (waiting : List α) (a : α) : Nat :=
  waiting.countP (fun b => servable b && decide (key b ≤ key a))

/-- Rounds one after the other. -/
def Rounds (run : Nat → List α) : Prop :=
  ∀ n, ∃ batch, IsBatch key cap (run n) batch ∧ run (n + 1) = round servable (run n) batch

variable {key servable cap} {waiting batch : List α} {a : α}

omit [DecidableEq α] in
theorem IsBatch.subset (h : IsBatch key cap waiting batch) : batch ⊆ waiting := by
  obtain ⟨queue, hperm, _, hbatch⟩ := h
  intro b hb
  rw [hbatch] at hb
  exact hperm.subset (List.take_subset cap queue hb)

omit [DecidableEq α] in
/-- With fewer than a batch of the others ahead, each batch holds one that can be served. -/
theorem IsBatch.serves (h : IsBatch key cap waiting batch) (ha : a ∈ waiting)
    (hservable : servable a = true) (hahead : ahead key servable waiting a < cap) :
    ∃ b ∈ batch, servable b = true ∧ key b ≤ key a := by
  obtain ⟨queue, hperm, hsorted, hbatch⟩ := h
  have hmem := hperm.symm.subset ha
  rw [← List.take_append_drop cap queue] at hmem hsorted
  obtain hmem | hmem := List.mem_append.mp hmem
  · exact ⟨a, hbatch ▸ hmem, hservable, le_refl _⟩
  · by_contra hnone
    have hall : ∀ b ∈ queue.take cap, (!servable b && decide (key b ≤ key a)) = true := by
      intro b hb
      have hle := (List.pairwise_append.mp hsorted).2.2 b hb a hmem
      have hb' : servable b = false := by
        rw [Bool.eq_false_iff]
        exact fun hs => hnone ⟨b, hbatch ▸ hb, hs, hle⟩
      rw [hb', decide_eq_true hle]
      rfl
    have hlength : (queue.take cap).length = cap := by
      have hpos := List.length_pos_of_mem hmem
      rw [List.length_drop] at hpos
      rw [List.length_take]
      omega
    have hcount := List.countP_eq_length.mpr hall
    have hle : (queue.take cap).countP (fun b => !servable b && decide (key b ≤ key a)) ≤
        ahead key servable waiting a := by
      unfold ahead
      rw [← hperm.countP_eq]
      exact (List.take_sublist cap queue).countP_le
    omega

omit [DecidableEq α] in
/-- With a batch of the others ahead, some batch holds only those that can be served and are older. -/
theorem IsBatch.exists_starving (key : α → K) (servable : α → Bool) (waiting : List α) (cap : Nat) :
    ∃ batch, IsBatch key cap waiting batch ∧
      ∀ b ∈ batch, servable b = true → ahead key servable waiting b < cap := by
  have hsorted := orderBy_pairwise (fun b => toLex (key b, servable b)) waiting
  have hperm := orderBy_perm (fun b => toLex (key b, servable b)) waiting
  refine ⟨_, ⟨orderBy (fun b => toLex (key b, servable b)) waiting, hperm, ?_, rfl⟩, ?_⟩
  · refine hsorted.imp ?_
    intro b c hle
    obtain hlt | ⟨heq, _⟩ := Prod.Lex.toLex_le_toLex.mp hle
    · exact le_of_lt hlt
    · exact le_of_eq heq
  · intro b hb hservable
    obtain ⟨i, hi, hget⟩ := List.getElem_of_mem hb
    rw [List.getElem_take] at hget
    rw [List.length_take] at hi
    have hsplit := List.take_append_drop i (orderBy (fun b => toLex (key b, servable b)) waiting)
    rw [List.drop_eq_getElem_cons (by omega), hget] at hsplit
    have hrest : ∀ c ∈ b :: (orderBy (fun b => toLex (key b, servable b)) waiting).drop (i + 1),
        (!servable c && decide (key c ≤ key b)) = false := by
      intro c hc
      obtain heq | hc := List.mem_cons.mp hc
      · rw [heq, hservable]
        rfl
      · rw [← hsplit] at hsorted
        have hle := (List.pairwise_cons.mp (List.pairwise_append.mp hsorted).2.1).1 c hc
        obtain hlt | ⟨_, hle⟩ := Prod.Lex.toLex_le_toLex.mp hle
        · rw [decide_eq_false (not_le.mpr hlt), Bool.and_false]
        · rw [hservable] at hle
          have hc' : servable c = true := top_le_iff.mp hle
          rw [hc']
          rfl
    unfold ahead
    rw [← hperm.countP_eq, ← hsplit, List.countP_append, List.countP_eq_zero.mpr
      (fun c hc => Bool.eq_false_iff.mp (hrest c hc)), Nat.add_zero]
    refine lt_of_le_of_lt (List.countP_le_length) ?_
    rw [List.length_take]
    omega

omit [DecidableEq α] in
/-- A round serves someone whatever its batch, if and only if one that can be served has fewer than
a batch of the others ahead. -/
theorem progress_iff :
    (∀ batch, IsBatch key cap waiting batch → ∃ b ∈ batch, servable b = true) ↔
      ∃ a ∈ waiting, servable a = true ∧ ahead key servable waiting a < cap := by
  constructor
  · intro hall
    obtain ⟨batch, hbatch, hstarving⟩ := IsBatch.exists_starving key servable waiting cap
    obtain ⟨b, hb, hservable⟩ := hall batch hbatch
    exact ⟨b, hbatch.subset hb, hservable, hstarving b hb hservable⟩
  · intro hsome batch hbatch
    obtain ⟨a, ha, hservable, hahead⟩ := hsome
    obtain ⟨b, hb, hservable', _⟩ := hbatch.serves ha hservable hahead
    exact ⟨b, hb, hservable'⟩

theorem ahead_round (waiting batch : List α) (a : α) :
    ahead key servable (round servable waiting batch) a = ahead key servable waiting a := by
  unfold ahead round
  rw [List.countP_filter]
  apply List.countP_congr
  intro b _
  cases servable b <;> simp

theorem mem_round : a ∈ round servable waiting batch ↔
    a ∈ waiting ∧ (servable a = true → a ∉ batch) := by
  unfold round
  rw [List.mem_filter]
  cases servable a <;> simp

/-- Each round with fewer than a batch of the others ahead brings the wait to an end. -/
theorem before_round (h : IsBatch key cap waiting batch) (ha : a ∈ waiting)
    (hservable : servable a = true) (hahead : ahead key servable waiting a < cap) :
    before key servable (round servable waiting batch) a < before key servable waiting a := by
  obtain ⟨b, hb, hservable', hle⟩ := h.serves ha hservable hahead
  have hsub : (round servable waiting batch).Sublist waiting := List.filter_sublist
  unfold before
  refine lt_of_le_of_ne hsub.countP_le ?_
  intro heq
  rw [List.countP_eq_length_filter, List.countP_eq_length_filter] at heq
  have hsame := (hsub.filter (fun b => servable b && decide (key b ≤ key a))).eq_of_length heq
  have hmem : b ∈ waiting.filter (fun b => servable b && decide (key b ≤ key a)) := by
    rw [List.mem_filter, hservable', decide_eq_true hle]
    exact ⟨h.subset hb, rfl⟩
  rw [← hsame] at hmem
  exact (mem_round.mp (List.mem_of_mem_filter hmem)).2 hservable' hb

/-- Over rounds, one that can be served is, unless a batch of the others stays ahead of it. -/
theorem Rounds.served {run : Nat → List α} (hrun : Rounds key servable cap run)
    (hservable : servable a = true) (hahead : ahead key servable (run 0) a < cap) :
    ∃ n, a ∉ run n := by
  by_contra hnone
  rw [not_exists_not] at hnone
  have hstays : ∀ n, ahead key servable (run n) a < cap := by
    intro n
    induction n with
    | zero => exact hahead
    | succ n ih =>
      obtain ⟨batch, _, hround⟩ := hrun n
      rw [hround, ahead_round]
      exact ih
  have hfalls : ∀ n, before key servable (run n) a + n ≤ before key servable (run 0) a := by
    intro n
    induction n with
    | zero => exact le_refl _
    | succ n ih =>
      obtain ⟨batch, hbatch, hround⟩ := hrun n
      have hlt := before_round hbatch (hnone n) hservable (hstays n)
      rw [← hround] at hlt
      omega
  have hend := hfalls (before key servable (run 0) a + 1)
  omega

omit [DecidableEq α] [LinearOrder K] in
/-- A step that can always be taken so as to keep an invariant can be taken for ever. -/
theorem exists_run {S : Type} (step : S → S → Prop) (inv : S → Prop)
    (h : ∀ s, inv s → ∃ s', step s s' ∧ inv s') {s₀ : S} (h₀ : inv s₀) :
    ∃ run : Nat → S, run 0 = s₀ ∧ ∀ n, step (run n) (run (n + 1)) ∧ inv (run n) := by
  choose next hnext using h
  refine ⟨fun n => (Nat.rec (motive := fun _ => {s // inv s}) ⟨s₀, h₀⟩
    (fun _ s => ⟨next s.1 s.2, (hnext s.1 s.2).2⟩) n).1, rfl, ?_⟩
  intro n
  exact ⟨(hnext _ _).1, (Nat.rec (motive := fun _ => {s // inv s}) ⟨s₀, h₀⟩
    (fun _ s => ⟨next s.1 s.2, (hnext s.1 s.2).2⟩) n).2⟩

end YogSothoth.BatchQueue
