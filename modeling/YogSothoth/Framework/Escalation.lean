import Mathlib.Algebra.Order.Group.Basic
import YogSothoth.Framework.Keyset

namespace YogSothoth

variable {α T L : Type*} [LinearOrder T] [LinearOrder L]
variable {time : α → T} {level : α → L} {rows : List α}

/-- The last of the rows since an instant. -/
def latestSince (time : α → T) (since : T) (rows : List α) : Option α :=
  (orderBy (fun a => OrderDual.toDual (time a)) (rows.filter (fun a => since < time a))).head?

theorem latestSince_mem {since : T} {a : α} (h : latestSince time since rows = some a) :
    a ∈ rows ∧ since < time a := by
  have hmem : a ∈ orderBy (fun a => OrderDual.toDual (time a))
      (rows.filter (fun a => since < time a)) := List.mem_of_mem_head? h
  obtain ⟨hrow, hsince⟩ := List.mem_filter.mp (mem_orderBy.mp hmem)
  exact ⟨hrow, of_decide_eq_true hsince⟩

theorem latestSince_le {since : T} {a b : α} (h : latestSince time since rows = some a)
    (hb : b ∈ rows) (hsince : since < time b) : time b ≤ time a := by
  have hsorted := orderBy_pairwise (fun a => OrderDual.toDual (time a))
    (rows.filter (fun a => since < time a))
  have hmem : b ∈ orderBy (fun a => OrderDual.toDual (time a))
      (rows.filter (fun a => since < time a)) :=
    mem_orderBy.mpr (List.mem_filter.mpr ⟨hb, decide_eq_true hsince⟩)
  unfold latestSince at h
  cases horder : orderBy (fun a => OrderDual.toDual (time a))
      (rows.filter (fun a => since < time a)) with
  | nil => rw [horder] at hmem; cases hmem
  | cons c l =>
    rw [horder] at h hmem hsorted
    have hc : c = a := Option.some.inj h
    rcases List.mem_cons.mp hmem with heq | hl
    · rw [heq, hc]
    · have hle := (List.pairwise_cons.mp hsorted).1 b hl
      rw [hc] at hle
      exact OrderDual.toDual_le_toDual.mp hle

theorem latestSince_none {since : T} (h : latestSince time since rows = none) {b : α}
    (hb : b ∈ rows) : time b ≤ since := by
  by_contra hlt
  have hmem : b ∈ orderBy (fun a => OrderDual.toDual (time a))
      (rows.filter (fun a => since < time a)) :=
    mem_orderBy.mpr (List.mem_filter.mpr ⟨hb, decide_eq_true (not_le.mp hlt)⟩)
  unfold latestSince at h
  rw [List.head?_eq_none_iff.mp h] at hmem
  cases hmem

/-- Rows in time order, and of two less than a window apart the later one is the higher. -/
def Escalates [Sub T] (window : T) (time : α → T) (level : α → L) (rows : List α) : Prop :=
  rows.Pairwise (fun a b => time a < time b ∧ (time b - time a < window → level a < level b))

namespace Escalates

section Order

variable [Sub T] {window : T}

theorem nodup (h : Escalates window time level rows) : (rows.map time).Nodup :=
  List.pairwise_map.mpr (h.imp (fun hab => ne_of_lt hab.1))

/-- Of two rows less than a window apart, the one not earlier is not lower. -/
theorem level_le (h : Escalates window time level rows) {a b : α} (ha : a ∈ rows) (hb : b ∈ rows)
    (hle : time a ≤ time b) (hwindow : time b - time a < window) : level a ≤ level b := by
  obtain ⟨i, hi, hai⟩ := List.getElem_of_mem ha
  obtain ⟨j, hj, hbj⟩ := List.getElem_of_mem hb
  have hpair := List.pairwise_iff_getElem.mp h
  rcases lt_trichotomy i j with hij | hij | hij
  · have hstep := hpair i j hi hj hij
    rw [hai, hbj] at hstep
    exact (hstep.2 hwindow).le
  · subst hij
    rw [← hai, ← hbj]
  · have hstep := hpair j i hj hi hij
    rw [hai, hbj] at hstep
    exact absurd hle (not_le.mpr hstep.1)

theorem filter (h : Escalates window time level rows) (p : α → Bool) :
    Escalates window time level (rows.filter p) :=
  List.Pairwise.filter p h

end Order

variable [AddCommGroup T] [IsOrderedAddMonoid T] {window : T}

/-- The last row of a window is its highest. -/
theorem latest_ge (h : Escalates window time level rows) {since now : T} {a b : α}
    (hlatest : latestSince time since rows = some a) (hb : b ∈ rows) (hsince : since < time b)
    (hwindow : now - since ≤ window) (hnow : time a ≤ now) : level b ≤ level a := by
  obtain ⟨ha, -⟩ := latestSince_mem hlatest
  apply h.level_le hb ha (latestSince_le hlatest hb hsince)
  calc time a - time b ≤ now - time b := sub_le_sub_right hnow _
    _ < now - since := sub_lt_sub_left hsince now
    _ ≤ window := hwindow

/-- Past the last row of its window only a higher one may be added. -/
theorem append (h : Escalates window time level rows) {b : α} (hlate : ∀ a ∈ rows, time a < time b)
    (hhigher : ∀ a, latestSince time (time b - window) rows = some a → level a < level b) :
    Escalates window time level (rows ++ [b]) := by
  apply List.pairwise_append.mpr
  refine ⟨h, List.pairwise_singleton _ _, ?_⟩
  intro a ha c hc
  have hcb : c = b := List.mem_singleton.mp hc
  subst hcb
  refine ⟨hlate a ha, ?_⟩
  intro hwindow
  have hsince : time c - window < time a := sub_lt_comm.mp hwindow
  cases hlatest : latestSince time (time c - window) rows with
  | none => exact absurd hsince (not_lt.mpr (latestSince_none hlatest ha))
  | some last =>
    have hlast := (latestSince_mem hlatest).1
    have hle : level a ≤ level last :=
      h.latest_ge hlatest ha hsince (sub_sub_cancel _ _).le (hlate last hlast).le
    exact lt_of_le_of_lt hle (hhigher last hlatest)

/-- A window holds a level once. -/
theorem levels_nodup (h : Escalates window time level rows) (since now : T)
    (hwindow : now - since ≤ window) :
    ((rows.filter (fun a => since < time a ∧ time a ≤ now)).map level).Nodup := by
  have hinside : ∀ a ∈ rows.filter (fun a => since < time a ∧ time a ≤ now),
      since < time a ∧ time a ≤ now := by
    intro a ha
    exact of_decide_eq_true (List.mem_filter.mp ha).2
  apply List.pairwise_map.mpr
  apply List.Pairwise.imp_of_mem ?_ (h.filter (fun a => since < time a ∧ time a ≤ now))
  intro a b ha hb hab
  apply ne_of_lt
  apply hab.2
  calc time b - time a ≤ now - time a := sub_le_sub_right (hinside b hb).2 _
    _ < now - since := sub_lt_sub_left (hinside a ha).1 now
    _ ≤ window := hwindow

end Escalates

end YogSothoth
