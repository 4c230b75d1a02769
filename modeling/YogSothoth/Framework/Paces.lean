import Mathlib.Algebra.Order.BigOperators.Group.List
import Mathlib.Tactic.Linarith
import Mathlib.Tactic.Ring

namespace YogSothoth

/-- Steps that stay between two bounds. -/
def Within (a b : Int) (steps : List Int) : Prop := ∀ s ∈ steps, a ≤ s ∧ s ≤ b

variable {a b : Int}

theorem within_cons {s : Int} {steps : List Int} :
    Within a b (s :: steps) ↔ (a ≤ s ∧ s ≤ b) ∧ Within a b steps := List.forall_mem_cons

theorem Within.append {steps steps' : List Int} (h : Within a b steps) (h' : Within a b steps') :
    Within a b (steps ++ steps') := List.forall_mem_append.mpr ⟨h, h'⟩

theorem within_replicate {s : Int} (n : Nat) (h : a ≤ s ∧ s ≤ b) :
    Within a b (List.replicate n s) := by
  intro s' hs'
  rw [List.eq_of_mem_replicate hs']
  exact h

theorem Within.drop {steps : List Int} (h : Within a b steps) (n : Nat) :
    Within a b (steps.drop n) := fun s hs => h s (List.mem_of_mem_drop hs)

theorem Within.sum_nonneg {steps : List Int} (ha : 0 ≤ a) (h : Within a b steps) :
    0 ≤ steps.sum := List.sum_nonneg (fun s hs => ha.trans (h s hs).1)

/-- Every total that so many steps can reach is reached. -/
theorem exists_within (n : Nat) {total : Int} (hlow : n * a ≤ total) (hhigh : total ≤ n * b) :
    ∃ steps : List Int, steps.length = n ∧ Within a b steps ∧ steps.sum = total := by
  induction n generalizing total with
  | zero =>
    refine ⟨[], rfl, nofun, ?_⟩
    simp only [Nat.cast_zero, zero_mul] at hlow hhigh
    exact le_antisymm hlow hhigh
  | succ n ih =>
    have hsplit (c : Int) : ((n + 1 : Nat) : Int) * c = n * c + c := by
      push_cast
      ring
    rw [hsplit] at hlow hhigh
    by_cases hleast : total - a ≤ n * b
    · obtain ⟨steps, hlength, hwithin, hsum⟩ := ih (by linarith) hleast
      have hab : a ≤ b := by
        by_contra h
        have hmul : (n : Int) * b ≤ n * a := mul_le_mul_of_nonneg_left (by omega) (by omega)
        omega
      refine ⟨a :: steps, by simp [hlength], within_cons.mpr ⟨⟨le_refl a, hab⟩, hwithin⟩, ?_⟩
      rw [List.sum_cons, hsum]
      ring
    · have hab : a ≤ b := by omega
      have hmul : (n : Int) * a ≤ n * b := mul_le_mul_of_nonneg_left hab (by omega)
      obtain ⟨steps, hlength, hwithin, hsum⟩ := ih hmul (le_refl _)
      refine ⟨(total - n * b) :: steps, by simp [hlength],
        within_cons.mpr ⟨⟨by omega, by omega⟩, hwithin⟩, ?_⟩
      rw [List.sum_cons, hsum]
      ring

end YogSothoth
