import Mathlib.Algebra.Order.Field.Rat
import Mathlib.Data.Rat.Floor
import YogSothoth.Core.Text

namespace YogSothoth

/-- The number a `Decimal` holds. -/
def Decimal.value (d : Decimal) : ℚ := (d.mantissa : ℚ) / 10 ^ d.scale

/-- What the program does with a `Decimal`: reads one from a `NUMERIC`, computes, rounds and prints.
An operator panics (`none`) on a result past a `Decimal`. Of amounts read that are not negative, a
difference is no larger than they are; a difference over a sum other than zero, or over a sum it is
a term of, is at most one. -/
structure RustDecimal where
  fromNumeric : ℚ → Except String Decimal
  add : Decimal → Decimal → Option Decimal
  sub : Decimal → Decimal → Option Decimal
  div : Decimal → Decimal → Option Decimal
  abs : Decimal → Decimal
  roundDp : Decimal → Nat → Decimal
  print : Decimal → String
  sub_isSome : ∀ {u v : ℚ} {a b : Decimal}, 0 ≤ u → 0 ≤ v → fromNumeric u = .ok a →
    fromNumeric v = .ok b → (sub a b).isSome
  div_sum_isSome : ∀ {u v : ℚ} {a b s d : Decimal}, 0 ≤ u → 0 ≤ v → fromNumeric u = .ok a →
    fromNumeric v = .ok b → add a b = some s → sub a b = some d → s.value ≠ 0 → (div d s).isSome
  div_term_isSome : ∀ {u v w : ℚ} {a b t d s : Decimal}, 0 ≤ u → 0 ≤ v → 0 ≤ w →
    fromNumeric u = .ok a → fromNumeric v = .ok b → fromNumeric w = .ok t → sub a b = some d →
    0 < d.value → add t d = some s → (div d s).isSome

namespace RustDecimal

variable (ar : RustDecimal)

def convertBigdecimalToDecimal (value : ℚ) (field : String) : Except RepositoryError Decimal :=
  (ar.fromNumeric value).mapError
    (fun e => .integrity ("failed to convert " ++ field ++ " from BigDecimal to Decimal: " ++ e))

end RustDecimal

end YogSothoth
