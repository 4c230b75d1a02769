import Mathlib.Algebra.Group.Nat.Units
import Mathlib.Algebra.Ring.Int.Defs
import Mathlib.Order.Lattice

namespace YogSothoth

/-- An on-chain address. -/
structure Pubkey where
  bytes : List UInt8
  size : bytes.length = 32
  deriving DecidableEq

structure Signature where
  bytes : List UInt8
  size : bytes.length = 64
  deriving DecidableEq

/-- A `DateTime<Utc>`, in nanoseconds since the epoch. -/
abbrev Instant := Int

/-- Midnight of 2000-01-01, from which a `TIMESTAMPTZ` counts its microseconds. -/
def TIMESTAMPTZ_EPOCH : Instant := 946684800 * 10 ^ 9

/-- An instant as a `TIMESTAMPTZ` column holds it: its nanoseconds are cut off. -/
def columnInstant (t : Instant) : Instant :=
  TIMESTAMPTZ_EPOCH + (t - TIMESTAMPTZ_EPOCH).tdiv 1000 * 1000

theorem columnInstant_mono {s t : Instant} (h : s ≤ t) : columnInstant s ≤ columnInstant t := by
  have hcount : (s - TIMESTAMPTZ_EPOCH).tdiv 1000 ≤ (t - TIMESTAMPTZ_EPOCH).tdiv 1000 :=
    Int.tdiv_le_tdiv (by decide) (Int.sub_le_sub_right h _)
  exact Int.add_le_add_left (Int.mul_le_mul_of_nonneg_right hcount (by decide)) _

theorem columnInstant_second (n : Int) : columnInstant (n * 10 ^ 9) = n * 10 ^ 9 := by
  have hmicros : n * 10 ^ 9 - TIMESTAMPTZ_EPOCH = (n - 946684800) * 10 ^ 6 * 1000 := by
    unfold TIMESTAMPTZ_EPOCH
    omega
  rw [columnInstant, hmicros, Int.mul_tdiv_cancel _ (by decide), ← hmicros, Int.add_comm,
    Int.sub_add_cancel]

inductive Protocol where
  | meteoraDammV2
  | meteoraDlmm
  deriving DecidableEq

def Protocol.asStr : Protocol → String
  | .meteoraDammV2 => "meteora_damm_v2"
  | .meteoraDlmm => "meteora_dlmm"

inductive RepositoryError where
  | backend (message : String)
  | integrity (message : String)
  | notFound (message : String)
  | conflict (message : String)
  | timeout (message : String)
  | conversion (message : String)
  | decode (message : String)
  deriving DecidableEq

/-- `i64::try_from`: a `u64` a `BIGINT` column cannot hold is refused, with the field it is of. -/
def convertU64ToI64 (v : UInt64) (field : String) : Except RepositoryError Int :=
  if v.toNat < 2^63 then .ok v.toNat
  else .error (.integrity
    ("invalid " ++ field ++ ": out of range integral type conversion attempted"))

end YogSothoth
