import Mathlib.Order.Lattice
import Mathlib.Data.Int.Order.Basic
import Mathlib.Data.List.Sort

/-- A stretch of marks no more than `gap` apart, that no mark outside it is within `gap` of. -/
structure IsIsland (marked : Int → Prop) (gap start last : Int) : Prop where
  start_marked : marked start
  last_marked : marked last
  start_le : start ≤ last
  opens : ∀ m, marked m → m < start → gap < start - m
  ends : ∀ m, marked m → last < m → gap < m - last
  next : ∀ m, marked m → start ≤ m → m < last → ∃ m', marked m' ∧ m < m' ∧ m' - m ≤ gap
  previous : ∀ m, marked m → start < m → m ≤ last → ∃ m', marked m' ∧ m' < m ∧ m - m' ≤ gap

namespace IsIsland

variable {marked marked' : Int → Prop} {gap s e s' e' : Int}

theorem start_eq_of_le (h : IsIsland marked gap s e) (h' : IsIsland marked gap s' e')
    (hs : s ≤ s') (he : s' ≤ e) : s = s' := by
  by_contra hne
  have hlt : s < s' := lt_of_le_of_ne hs hne
  obtain ⟨m, hm, hms, hgap⟩ := h.previous s' h'.start_marked hlt he
  have := h'.opens m hm hms
  omega

theorem last_le_of_start (h : IsIsland marked gap s e) (h' : IsIsland marked gap s e') : e' ≤ e := by
  by_contra hlt
  obtain ⟨m, hm, hem, hgap⟩ := h'.next e h.last_marked h.start_le (by omega)
  have := h.ends m hm hem
  omega

/-- The start tells the island. -/
theorem last_eq (h : IsIsland marked gap s e) (h' : IsIsland marked gap s e') : e = e' :=
  le_antisymm (h'.last_le_of_start h) (h.last_le_of_start h')

/-- Two islands that share an instant are one. -/
theorem eq_of_meet (h : IsIsland marked gap s e) (h' : IsIsland marked gap s' e')
    (hs : s ≤ e') (hs' : s' ≤ e) : s = s' ∧ e = e' := by
  have hstart : s = s' := by
    rcases le_total s s' with hle | hle
    · exact h.start_eq_of_le h' hle hs'
    · exact (h'.start_eq_of_le h hle hs).symm
  subst hstart
  exact ⟨rfl, h.last_eq h'⟩

/-- Marks added past the gap leave an island as it is. -/
theorem extend (h : IsIsland marked gap s e) (hsub : ∀ m, marked m → marked' m)
    (hnew : ∀ m, marked' m → marked m ∨ (e < m ∧ gap < m - e)) : IsIsland marked' gap s e := by
  have hold : ∀ m, marked' m → m ≤ e → marked m := by
    intro m hm hle
    rcases hnew m hm with hm | ⟨hlt, -⟩
    · exact hm
    · omega
  have hle := h.start_le
  refine ⟨hsub s h.start_marked, hsub e h.last_marked, hle, ?_, ?_, ?_, ?_⟩
  · intro m hm hms
    exact h.opens m (hold m hm (by omega)) hms
  · intro m hm hem
    rcases hnew m hm with hm | ⟨-, hgap⟩
    · exact h.ends m hm hem
    · exact hgap
  · intro m hm hsm hme
    obtain ⟨m', hm', hlt, hgap⟩ := h.next m (hold m hm hme.le) hsm hme
    exact ⟨m', hsub m' hm', hlt, hgap⟩
  · intro m hm hsm hme
    obtain ⟨m', hm', hlt, hgap⟩ := h.previous m (hold m hm hme) hsm hme
    exact ⟨m', hsub m' hm', hlt, hgap⟩

/-- Without the marks past its last, an island is still one. -/
theorem restrict (h : IsIsland marked' gap s e) (hsub : ∀ m, marked m → marked' m)
    (hold : ∀ m, marked' m → m ≤ e → marked m) : IsIsland marked gap s e := by
  have hle := h.start_le
  refine ⟨hold s h.start_marked hle, hold e h.last_marked le_rfl, hle, ?_, ?_, ?_, ?_⟩
  · exact fun m hm => h.opens m (hsub m hm)
  · exact fun m hm => h.ends m (hsub m hm)
  · intro m hm hsm hme
    obtain ⟨m', hm', hlt, hgap⟩ := h.next m (hsub m hm) hsm hme
    have hle' : m' ≤ e := by
      by_contra hgt
      have := h.ends m' hm' (by omega)
      omega
    exact ⟨m', hold m' hm' hle', hlt, hgap⟩
  · intro m hm hsm hme
    obtain ⟨m', hm', hlt, hgap⟩ := h.previous m (hsub m hm) hsm hme
    exact ⟨m', hold m' hm' (by omega), hlt, hgap⟩

end IsIsland

/-- The islands from one opened at `start`, its last mark so far `last`. -/
def growIslands (gap start last : Int) : List Int → List (Int × Int)
  | [] => [(start, last)]
  | b :: rest =>
    if b - last ≤ gap then growIslands gap start b rest
    else (start, last) :: growIslands gap b b rest

/-- The marks, in order, cut where two of them are more than `gap` apart: the bounds of each part. -/
def drawIslands (gap : Int) : List Int → List (Int × Int)
  | [] => []
  | b :: rest => growIslands gap b b rest

/-- An island still growing: `rest` is what is marked past `last`. -/
structure Growing (marked : Int → Prop) (gap start last : Int) (rest : List Int) : Prop where
  start_marked : marked start
  last_marked : marked last
  start_le : start ≤ last
  opens : ∀ m, marked m → m < start → gap < start - m
  next : ∀ m, marked m → start ≤ m → m < last → ∃ m', marked m' ∧ m < m' ∧ m' - m ≤ gap
  previous : ∀ m, marked m → start < m → m ≤ last → ∃ m', marked m' ∧ m' < m ∧ m - m' ≤ gap
  sorted : (last :: rest).Pairwise (· ≤ ·)
  rest_marked : ∀ m ∈ rest, marked m
  marked_rest : ∀ m, marked m → last < m → m ∈ rest

namespace Growing

variable {marked : Int → Prop} {gap start last b : Int} {rest : List Int}

theorem isIsland (h : Growing marked gap start last rest) (hend : ∀ m ∈ rest, gap < m - last) :
    IsIsland marked gap start last :=
  ⟨h.start_marked, h.last_marked, h.start_le, h.opens,
    fun m hm hlt => hend m (h.marked_rest m hm hlt), h.next, h.previous⟩

theorem le_rest (h : Growing marked gap start last (b :: rest)) : last ≤ b :=
  (List.pairwise_cons.mp h.sorted).1 b (by simp)

theorem rest_sorted (h : Growing marked gap start last (b :: rest)) :
    (b :: rest).Pairwise (· ≤ ·) := (List.pairwise_cons.mp h.sorted).2

/-- Nothing is marked between the last mark and the next. -/
theorem le_last (h : Growing marked gap start last (b :: rest)) {m : Int} (hm : marked m)
    (hlt : m < b) : m ≤ last := by
  by_contra hgt
  have hmem := h.marked_rest m hm (by omega)
  rcases List.mem_cons.mp hmem with rfl | hmem
  · omega
  · have := (List.pairwise_cons.mp h.rest_sorted).1 m hmem
    omega

theorem marked_tail (h : Growing marked gap start last (b :: rest)) {m : Int} (hm : marked m)
    (hlt : b < m) : m ∈ rest := by
  have hmem := h.marked_rest m hm (by have := h.le_rest; omega)
  rcases List.mem_cons.mp hmem with rfl | hmem
  · omega
  · exact hmem

theorem join (h : Growing marked gap start last (b :: rest)) (hgap : b - last ≤ gap) :
    Growing marked gap start b rest := by
  have hb := h.rest_marked b (by simp)
  have hle := h.le_rest
  have hstart := h.start_le
  refine ⟨h.start_marked, hb, by omega, h.opens, ?_, ?_, h.rest_sorted,
    fun m hm => h.rest_marked m (by simp [hm]), fun m hm => h.marked_tail hm⟩
  · intro m hm hsm hmb
    have hml := h.le_last hm hmb
    rcases hml.lt_or_eq with hlt | rfl
    · exact h.next m hm hsm hlt
    · exact ⟨b, hb, hmb, hgap⟩
  · intro m hm hsm hmb
    rcases le_or_gt m last with hml | hml
    · exact h.previous m hm hsm hml
    · have hmb' : m = b := by
        by_contra hne
        have := h.le_last hm (by omega)
        omega
      exact ⟨last, h.last_marked, hml, by omega⟩

/-- A mark past the gap ends the island. -/
theorem isIsland_of_lt (h : Growing marked gap start last (b :: rest)) (hgap : gap < b - last) :
    IsIsland marked gap start last := by
  apply h.isIsland
  intro m hm
  rcases List.mem_cons.mp hm with rfl | hm
  · exact hgap
  · have := (List.pairwise_cons.mp h.rest_sorted).1 m hm
    omega

theorem cut (h : Growing marked gap start last (b :: rest)) (hgap : gap < b - last) :
    Growing marked gap b b rest := by
  have hb := h.rest_marked b (by simp)
  refine ⟨hb, hb, le_rfl, ?_, ?_, ?_, h.rest_sorted, fun m hm => h.rest_marked m (by simp [hm]),
    fun m hm => h.marked_tail hm⟩
  · intro m hm hmb
    have := h.le_last hm hmb
    omega
  · intro m _ hbm hmb
    omega
  · intro m _ hbm hmb
    omega

/-- An island that grows comes to an end. -/
theorem exists_isIsland (h : Growing marked gap start last rest) :
    ∃ e, IsIsland marked gap start e := by
  induction rest generalizing last with
  | nil => exact ⟨last, h.isIsland (by simp)⟩
  | cons b rest ih =>
    rcases le_or_gt (b - last) gap with hgap | hgap
    · exact ih (h.join hgap)
    · exact ⟨last, h.isIsland_of_lt hgap⟩

end Growing

/-- An island starts at each mark that no earlier one is within the gap of. -/
theorem exists_isIsland_iff {gap s : Int} {marks : List Int} (hsorted : marks.Pairwise (· ≤ ·)) :
    (∃ e, IsIsland (· ∈ marks) gap s e) ↔ s ∈ marks ∧ ∀ m ∈ marks, m < s → gap < s - m := by
  constructor
  · intro h
    obtain ⟨e, he⟩ := h
    exact ⟨he.start_marked, he.opens⟩
  · intro h
    obtain ⟨hs, hopens⟩ := h
    have hgrowing : Growing (· ∈ marks) gap s s (marks.filter (s < ·)) := by
      refine ⟨hs, hs, le_rfl, hopens, ?_, ?_, ?_, ?_, ?_⟩
      · intro m _ hle hlt
        omega
      · intro m _ hlt hle
        omega
      · rw [List.pairwise_cons]
        refine ⟨?_, hsorted.filter _⟩
        intro m hm
        have hlt : s < m := by simpa using (List.mem_filter.mp hm).2
        exact hlt.le
      · intro m hm
        exact (List.mem_filter.mp hm).1
      · intro m hm hlt
        exact List.mem_filter.mpr ⟨hm, decide_eq_true hlt⟩
    exact hgrowing.exists_isIsland

theorem mem_growIslands {marked : Int → Prop} {gap : Int} {rest : List Int}
    {start last : Int} (h : Growing marked gap start last rest) (s e : Int) :
    (s, e) ∈ growIslands gap start last rest ↔ IsIsland marked gap s e ∧ start ≤ s := by
  induction rest generalizing start last with
  | nil =>
    have hisland := h.isIsland (by simp)
    simp only [growIslands, List.mem_singleton, Prod.mk.injEq]
    constructor
    · rintro ⟨rfl, rfl⟩
      exact ⟨hisland, le_rfl⟩
    · rintro ⟨hi, hs⟩
      have hsl : s ≤ last := by
        by_contra hgt
        have := h.marked_rest s hi.start_marked (by omega)
        simp at this
      have hse := hi.start_le
      have := hisland.eq_of_meet hi (by omega) hsl
      omega
  | cons b rest ih =>
    rw [growIslands]
    split_ifs with hb
    · exact ih (h.join hb)
    · have hb : gap < b - last := by omega
      have hisland := h.isIsland_of_lt hb
      have hstart : start ≤ b := h.start_le.trans h.le_rest
      rw [List.mem_cons, ih (h.cut hb), Prod.mk.injEq]
      constructor
      · rintro (⟨rfl, rfl⟩ | ⟨hi, hs⟩)
        · exact ⟨hisland, le_rfl⟩
        · exact ⟨hi, by omega⟩
      · rintro ⟨hi, hs⟩
        rcases lt_or_ge s b with hlt | hge
        · left
          have hsl := h.le_last hi.start_marked hlt
          have hse := hi.start_le
          have := hisland.eq_of_meet hi (by omega) hsl
          omega
        · exact Or.inr ⟨hi, hge⟩

/-- What is drawn from the marks in order is their islands. -/
theorem mem_drawIslands {gap : Int} {marks : List Int}
    (hsorted : marks.Pairwise (· ≤ ·)) (s e : Int) :
    (s, e) ∈ drawIslands gap marks ↔ IsIsland (· ∈ marks) gap s e := by
  cases marks with
  | nil =>
    simp only [drawIslands, List.not_mem_nil, false_iff]
    intro h
    exact absurd h.start_marked (by simp)
  | cons b rest =>
    have hle := (List.pairwise_cons.mp hsorted).1
    have hgrowing : Growing (· ∈ b :: rest) gap b b rest := by
      refine ⟨by simp, by simp, le_rfl, ?_, ?_, ?_, hsorted, fun m hm => by simp [hm], ?_⟩
      · intro m hm hmb
        rcases List.mem_cons.mp hm with rfl | hm
        · omega
        · have := hle m hm
          omega
      · intro m _ hbm hmb
        omega
      · intro m _ hbm hmb
        omega
      · intro m hm hlt
        rcases List.mem_cons.mp hm with rfl | hm
        · omega
        · exact hm
    rw [drawIslands, mem_growIslands hgrowing]
    refine and_iff_left_of_imp ?_
    intro h
    rcases List.mem_cons.mp h.start_marked with rfl | hm
    · exact le_rfl
    · exact hle _ hm
