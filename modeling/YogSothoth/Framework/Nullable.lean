import Mathlib.Data.Option.NAry
import Mathlib.Order.MinMax
import Mathlib.Order.Defs.LinearOrder
import Mathlib.Algebra.Notation.Defs

namespace YogSothoth

section Order

variable {α : Type*} [LinearOrder α]

/-- `LEAST`, which skips NULL. -/
def least : Option α → Option α → Option α
  | some a, some b => some (min a b)
  | some a, none => some a
  | none, b => b

/-- `GREATEST`, which skips NULL. -/
def greatest : Option α → Option α → Option α
  | some a, some b => some (max a b)
  | some a, none => some a
  | none, b => b

theorem least_mem {a b : Option α} {c : α} (h : least a b = some c) : a = some c ∨ b = some c := by
  cases a with
  | none => exact .inr h
  | some a =>
    cases b with
    | none => exact .inl h
    | some b =>
      have hmin : min a b = c := Option.some.inj h
      rcases min_choice a b with hchoice | hchoice
      · exact .inl (congrArg some (hchoice.symm.trans hmin))
      · exact .inr (congrArg some (hchoice.symm.trans hmin))

theorem least_le {a b : Option α} {c : α} (h : least a b = some c) {x : α}
    (hx : a = some x ∨ b = some x) : c ≤ x := by
  cases a with
  | none =>
    cases hx with
    | inl hx => cases hx
    | inr hx => exact (Option.some.inj (h.symm.trans hx)).le
  | some a =>
    cases b with
    | none =>
      cases hx with
      | inl hx => exact (Option.some.inj (h.symm.trans hx)).le
      | inr hx => cases hx
    | some b =>
      have hmin : min a b = c := Option.some.inj h
      rw [← hmin]
      cases hx with
      | inl hx => exact Option.some.inj hx ▸ min_le_left a b
      | inr hx => exact Option.some.inj hx ▸ min_le_right a b

theorem greatest_isSome {a b : Option α} {c : α} (h : a = some c ∨ b = some c) :
    ∃ d, greatest a b = some d ∧ c ≤ d := by
  cases h with
  | inl h =>
    subst h
    cases b with
    | none => exact ⟨c, rfl, le_refl c⟩
    | some b => exact ⟨max c b, rfl, le_max_left c b⟩
  | inr h =>
    subst h
    cases a with
    | none => exact ⟨c, rfl, le_refl c⟩
    | some a => exact ⟨max a c, rfl, le_max_right a c⟩

end Order

/-- `NULLIF(x, 0)`. -/
def nullifZero {α : Type*} [Zero α] [DecidableEq α] (x : α) : Option α :=
  if x = 0 then none else some x

theorem nullifZero_eq_some {α : Type*} [Zero α] [DecidableEq α] {x y : α} :
    nullifZero x = some y ↔ x ≠ 0 ∧ x = y := by
  unfold nullifZero
  split_ifs with h
  · simp [h]
  · simp [h]

end YogSothoth
