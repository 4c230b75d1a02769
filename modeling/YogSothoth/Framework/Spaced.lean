import Mathlib.Data.List.Flatten
import Mathlib.Data.List.Pairwise
import Mathlib.Tactic.Ring

namespace YogSothoth

/-- Instants in order, no two closer than the gap. -/
def Spaced (gap : Nat) (starts : List Nat) : Prop := starts.Pairwise (fun a b => a + gap ≤ b)

namespace Spaced

variable {gap : Nat} {starts : List Nat}

theorem concat {t : Nat} (h : Spaced gap starts) (ht : ∀ a ∈ starts, a + gap ≤ t) :
    Spaced gap (starts ++ [t]) := by
  refine List.pairwise_append.mpr ⟨h, List.pairwise_singleton _ _, fun a ha b hb => ?_⟩
  rw [List.mem_singleton.mp hb]
  exact ht a ha

theorem append {later : List Nat} (h : Spaced gap starts) (h' : Spaced gap later)
    (hbetween : ∀ a ∈ starts, ∀ b ∈ later, a + gap ≤ b) : Spaced gap (starts ++ later) :=
  List.pairwise_append.mpr ⟨h, h', hbetween⟩

theorem cons {t : Nat} (h : Spaced gap starts) (ht : ∀ b ∈ starts, t + gap ≤ b) :
    Spaced gap (t :: starts) := List.pairwise_cons.mpr ⟨ht, h⟩

theorem filter (p : Nat → Bool) (h : Spaced gap starts) : Spaced gap (starts.filter p) :=
  List.Pairwise.filter p h

/-- So many instants span at least so many gaps. -/
theorem span {a : Nat} {rest : List Nat} (h : Spaced gap (a :: rest)) :
    ∃ b ∈ a :: rest, a + rest.length * gap ≤ b := by
  induction rest generalizing a with
  | nil => exact ⟨a, List.mem_singleton_self a, by simp⟩
  | cons b rest ih =>
    obtain ⟨hab, hrest⟩ := List.pairwise_cons.mp h
    obtain ⟨c, hc, hspan⟩ := ih hrest
    have hstep := hab b List.mem_cons_self
    refine ⟨c, List.mem_cons_of_mem a hc, ?_⟩
    have hlength : (b :: rest).length * gap = rest.length * gap + gap := by
      rw [List.length_cons]
      ring
    omega

/-- A window holds no more instants than it has room for. -/
theorem window (h : Spaced gap starts) (opened width : Nat) :
    ((starts.filter (fun t => opened ≤ t ∧ t < opened + width)).length - 1) * gap < width ∨
      (starts.filter (fun t => opened ≤ t ∧ t < opened + width)).length = 0 := by
  have hspaced := h.filter (fun t => decide (opened ≤ t ∧ t < opened + width))
  have hinside : ∀ t ∈ starts.filter (fun t => opened ≤ t ∧ t < opened + width),
      opened ≤ t ∧ t < opened + width := fun t ht => of_decide_eq_true (List.mem_filter.mp ht).2
  cases hwithin : starts.filter (fun t => opened ≤ t ∧ t < opened + width) with
  | nil => exact Or.inr rfl
  | cons a rest =>
    rw [hwithin] at hspaced hinside
    obtain ⟨b, hb, hspan⟩ := hspaced.span
    have ha := hinside a List.mem_cons_self
    have hb := hinside b hb
    refine Or.inl ?_
    rw [List.length_cons, Nat.add_sub_cancel]
    omega

end Spaced

/-- `slice::chunks`, with as much fuel as there are elements. -/
def chunksFrom {A : Type} (size : Nat) : Nat → List A → List (List A)
  | 0, _ => []
  | fuel + 1, l => if l.isEmpty then [] else l.take size :: chunksFrom size fuel (l.drop size)

def chunks {A : Type} (size : Nat) (l : List A) : List (List A) := chunksFrom size l.length l

section Chunks

variable {A : Type} {size : Nat}

end Chunks

end YogSothoth
