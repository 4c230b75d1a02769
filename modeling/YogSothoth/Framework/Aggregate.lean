import Mathlib
import YogSothoth.Framework.OrdTable

namespace YogSothoth

section Sums

variable {ι α M : Type*} [AddCommMonoid M]

/-- What rows select of a list, summed over the rows: each element as often as it is selected. -/
theorem sum_selected (rows : List ι) (p : ι → α → Bool) (v : α → M) (l : List α) :
    (rows.map (fun i => ((l.filter (p i)).map v).sum)).sum =
      (l.map (fun a => rows.countP (p · a) • v a)).sum := by
  induction l with
  | nil => simp
  | cons a l ih =>
    have hcons : ∀ i, (((a :: l).filter (p i)).map v).sum =
        (if p i a then v a else 0) + ((l.filter (p i)).map v).sum := by
      intro i
      rw [List.filter_cons]
      split_ifs <;> simp
    have hcount : (rows.map (fun i => if p i a then v a else 0)).sum =
        rows.countP (p · a) • v a := by
      clear ih hcons
      induction rows with
      | nil => simp
      | cons i rows ih =>
        rw [List.map_cons, List.sum_cons, ih, List.countP_cons]
        split_ifs <;> simp [add_nsmul, add_comm]
    simp only [hcons, List.map_cons, List.sum_cons, List.sum_map_add, hcount, ih]

/-- Rows that select each element exactly once sum to the whole. -/
theorem sum_partition {rows : List ι} {p : ι → α → Bool} {l : List α}
    (h : ∀ a ∈ l, rows.countP (p · a) = 1) (v : α → M) :
    (rows.map (fun i => ((l.filter (p i)).map v).sum)).sum = (l.map v).sum := by
  rw [sum_selected]
  congr 1
  apply List.map_congr_left
  intro a ha
  rw [h a ha, one_nsmul]

/-- Rows that select each element at most once sum to no more than the whole. -/
theorem sum_disjoint_le {rows : List ι} {p : ι → α → Bool} {l : List α}
    (h : ∀ a ∈ l, rows.countP (p · a) ≤ 1) {v : α → ℚ} (hv : ∀ a ∈ l, 0 ≤ v a) :
    (rows.map (fun i => ((l.filter (p i)).map v).sum)).sum ≤ (l.map v).sum := by
  rw [sum_selected]
  apply List.sum_le_sum
  intro a ha
  calc rows.countP (p · a) • v a ≤ 1 • v a := nsmul_le_nsmul_left (hv a ha) (h a ha)
    _ = v a := one_nsmul _

end Sums

/-- `SUM`: of the values there are, NULL without any. -/
def sumOption (l : List (Option ℚ)) : Option ℚ :=
  if l.any Option.isSome then some (l.filterMap id).sum else none

theorem sumOption_getD (l : List (Option ℚ)) :
    (sumOption l).getD 0 = (l.map (fun x => x.getD 0)).sum := by
  have hsum : (l.filterMap id).sum = (l.map (fun x => x.getD 0)).sum := by
    induction l with
    | nil => rfl
    | cons x l ih =>
      cases x with
      | none => simpa using ih
      | some w => simpa using ih
  rw [sumOption]
  split_ifs with h
  · exact hsum
  · rw [← hsum]
    have hnone : l.filterMap id = [] := by
      rw [List.filterMap_eq_nil_iff]
      intro x hx
      by_contra hne
      exact h (List.any_eq_true.mpr ⟨x, hx, Option.isSome_iff_ne_none.mpr hne⟩)
    rw [hnone]
    rfl

theorem sumOption_eq_some {l : List (Option ℚ)} {v : ℚ} (h : sumOption l = some v) :
    v = (l.map (fun x => x.getD 0)).sum := by
  rw [← sumOption_getD, h]
  rfl

theorem sumOption_eq_none {l : List (Option ℚ)} : sumOption l = none ↔ ∀ x ∈ l, x = none := by
  rw [sumOption]
  split_ifs with h
  · obtain ⟨x, hx, hs⟩ := List.any_eq_true.mp h
    simp only [false_iff]
    intro hall
    simp [hall x hx] at hs
  · simp only [true_iff]
    intro x hx
    by_contra hne
    exact h (List.any_eq_true.mpr ⟨x, hx, Option.isSome_iff_ne_none.mpr hne⟩)

/-- `SUM`, or 0 of no row at all. -/
def sumOrZero (l : List (Option ℚ)) : Option ℚ := if l.isEmpty then some 0 else sumOption l

theorem sumOrZero_getD (l : List (Option ℚ)) :
    (sumOrZero l).getD 0 = (l.map (fun x => x.getD 0)).sum := by
  rw [sumOrZero]
  split_ifs with h
  · rw [List.isEmpty_iff.mp h]
    rfl
  · exact sumOption_getD l

theorem sumOrZero_eq_none {l : List (Option ℚ)} :
    sumOrZero l = none ↔ l ≠ [] ∧ ∀ x ∈ l, x = none := by
  rw [sumOrZero]
  split_ifs with h
  · simp [List.isEmpty_iff.mp h]
  · rw [sumOption_eq_none]
    have hne : l ≠ [] := fun hl => h (List.isEmpty_iff.mpr hl)
    exact (and_iff_right hne).symm

/-- Groups summed again are unknown when each is: one that is empty makes them a 0. -/
theorem sumOption_groups_eq_none {groups : List (List (Option ℚ))} :
    sumOption (groups.map sumOrZero) = none ↔ ∀ g ∈ groups, g ≠ [] ∧ ∀ x ∈ g, x = none := by
  rw [sumOption_eq_none, List.forall_mem_map]
  simp only [sumOrZero_eq_none]

theorem sumOption_groups_getD (groups : List (List (Option ℚ))) :
    (sumOption (groups.map sumOrZero)).getD 0 =
      (groups.map (fun g => (g.map (fun x => x.getD 0)).sum)).sum := by
  rw [sumOption_getD, List.map_map]
  congr 1
  apply List.map_congr_left
  intro g _
  exact sumOrZero_getD g

/-- Rows of one table of which two never agree on `p` but under one key. -/
theorem OrdMap.countP_le_one {K V : Type*} [LinearOrder K] (m : OrdMap K V) {p : K × V → Bool}
    (h : ∀ a ∈ m.entries, ∀ b ∈ m.entries, p a → p b → a.1 = b.1) : m.entries.countP p ≤ 1 := by
  rw [List.countP_eq_length_filter]
  have hsorted := m.sorted.filter p
  match hl : m.entries.filter p with
  | [] => simp
  | [a] => simp
  | a :: b :: rest =>
    rw [hl] at hsorted
    have hlt := (List.pairwise_cons.mp hsorted).1 b (by simp)
    have ha : a ∈ m.entries.filter p := by simp [hl]
    have hb : b ∈ m.entries.filter p := by simp [hl]
    obtain ⟨ha, hpa⟩ := List.mem_filter.mp ha
    obtain ⟨hb, hpb⟩ := List.mem_filter.mp hb
    exact absurd (h a ha b hb hpa hpb) hlt.ne

end YogSothoth
