import Mathlib.Algebra.Order.Group.Multiset
import Mathlib.Data.List.Induction
import Mathlib.Data.List.Perm.Basic

namespace YogSothoth

variable {S A : Type} {step : S → A → Option S}

/-- The state a run of actions reaches; a step that is not enabled has none. -/
def runFrom (step : S → A → Option S) (s : S) (actions : List A) : Option S :=
  actions.foldlM step s

theorem runFrom_cons {s s' : S} {a : A} {actions : List A} :
    runFrom step s (a :: actions) = some s' ↔
      ∃ t, step s a = some t ∧ runFrom step t actions = some s' := by
  rw [runFrom, List.foldlM_cons]
  exact Option.bind_eq_some_iff

theorem runFrom_append {s s' : S} {before after : List A} :
    runFrom step s (before ++ after) = some s' ↔
      ∃ t, runFrom step s before = some t ∧ runFrom step t after = some s' := by
  rw [runFrom, List.foldlM_append]
  exact Option.bind_eq_some_iff

theorem runFrom_concat {s s' : S} {actions : List A} {a : A} :
    runFrom step s (actions ++ [a]) = some s' ↔
      ∃ t, runFrom step s actions = some t ∧ step t a = some s' := by
  rw [runFrom_append]
  apply exists_congr
  intro t
  constructor
  · intro ⟨ht, hs⟩
    obtain ⟨u, hu, hs⟩ := runFrom_cons.mp hs
    cases hs
    exact ⟨ht, hu⟩
  · intro ⟨ht, hs⟩
    exact ⟨ht, runFrom_cons.mpr ⟨s', hs, rfl⟩⟩

/-- What holds at first and is preserved by every step holds after every run. -/
theorem runFrom_inv {P : S → Prop} (hstep : ∀ s a s', P s → step s a = some s' → P s')
    {s s' : S} {actions : List A} (hs : P s) (h : runFrom step s actions = some s') : P s' := by
  induction actions generalizing s with
  | nil =>
    cases h
    exact hs
  | cons a actions ih =>
    obtain ⟨t, ht, h⟩ := runFrom_cons.mp h
    exact ih (hstep s a t hs ht) h

/-- An invariant that reads the actions taken so far. -/
theorem runFrom_trace {P : List A → S → Prop} {s : S} (hs : P [] s)
    (hstep : ∀ before t a t', P before t → step t a = some t' → P (before ++ [a]) t')
    {actions : List A} {s' : S} (h : runFrom step s actions = some s') : P actions s' := by
  induction actions using List.reverseRecOn generalizing s' with
  | nil =>
    cases h
    exact hs
  | append_singleton before a ih =>
    obtain ⟨t, ht, ha⟩ := runFrom_concat.mp h
    exact hstep before t a s' (ih ht) ha

/-- A measure that every step of a kind takes down bounds the length of a run of such steps. -/
theorem runFrom_bounded {own : A → Prop} {measure : S → Nat}
    (hstep : ∀ s a s', own a → step s a = some s' → measure s' < measure s)
    {s s' : S} {actions : List A} (hown : ∀ a ∈ actions, own a)
    (h : runFrom step s actions = some s') : actions.length + measure s' ≤ measure s := by
  induction actions generalizing s with
  | nil =>
    cases h
    exact Nat.le_of_eq (Nat.zero_add _)
  | cons a actions ih =>
    obtain ⟨t, ht, h⟩ := runFrom_cons.mp h
    have hrest := ih (fun b hb => hown b (List.mem_cons_of_mem a hb)) h
    have hlt := hstep s a t (hown a List.mem_cons_self) ht
    rw [List.length_cons]
    omega

section Slots

variable {α : Type}

theorem perm_cons_eraseIdx {l : List α} {i : Nat} {a : α} (h : l[i]? = some a) :
    l.Perm (a :: l.eraseIdx i) := by
  obtain ⟨hi, rfl⟩ := List.getElem?_eq_some_iff.mp h
  exact (List.getElem_cons_eraseIdx_perm hi).symm

/-- Putting back a value with the same image leaves the images. -/
theorem map_set_eq {β : Type} {f : α → β} {l : List α} {i : Nat} {a b : α} (h : l[i]? = some a)
    (hf : f b = f a) : (l.set i b).map f = l.map f := by
  obtain ⟨hi, rfl⟩ := List.getElem?_eq_some_iff.mp h
  have hmap : i < (l.map f).length := by rwa [List.length_map]
  rw [List.map_set, hf, ← List.getElem_map f (h := hmap), List.set_getElem_self]

theorem set_perm {l : List α} {i : Nat} {a : α} (h : l[i]? = some a) (b : α) :
    (l.set i b).Perm (b :: l.eraseIdx i) :=
  List.set_perm_cons_eraseIdx (List.getElem?_eq_some_iff.mp h).1 b

theorem coe_concat (l : List α) (a : α) : ((l ++ [a] : List α) : Multiset α) = ↑l + {a} := by
  rw [← Multiset.coe_add, Multiset.coe_singleton]

theorem coe_cons (l : List α) (a : α) : ((a :: l : List α) : Multiset α) = ↑l + {a} := by
  rw [← Multiset.cons_coe, ← Multiset.singleton_add, add_comm]

end Slots

end YogSothoth
