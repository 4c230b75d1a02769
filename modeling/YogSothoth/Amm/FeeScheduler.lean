import Mathlib.Data.Nat.Bitwise
import YogSothoth.Framework.Checked
import YogSothoth.Framework.Powering
import YogSothoth.Resolver.PoolRow

namespace YogSothoth.Amm

open Resolver (BaseFeeKind FeeSchedulerParams)

def MAX_BASIS_POINT : Nat := 10000

/-- 1.0 in Q64.64. -/
def ONE_Q64 : Nat := 2 ^ 64

def SCALE_OFFSET : Nat := 64

/-- Exponent ceiling of `pow`. -/
def MAX_EXPONENTIAL : Nat := 0x80000

def ZERO_FREQUENCY_STAYS_AT_CLIFF : UInt64 := 0

/-- A bit of the exponent, multiplied in. -/
def powBit (exp bit squaredBase result : Nat) : Option Nat :=
  if 0 < exp &&& bit then (checkedMul 128 result squaredBase).map (· / 2 ^ SCALE_OFFSET)
  else some result

/-- The loop of `pow`: its rounds are bounded by the bits of a `u32`. -/
def powLoop (exp : Nat) : Nat → Nat → Nat → Nat → Option Nat
  | 0, _, _, result => some result
  | rounds + 1, bit, squaredBase, result => do
    let result ← powBit exp bit squaredBase result
    let bit := bit * 2
    if MAX_EXPONENTIAL ≤ bit then some result
    else do
      let squaredBase ← (checkedMul 128 squaredBase squaredBase).map (· / 2 ^ SCALE_OFFSET)
      powLoop exp rounds bit squaredBase result

/-- Q64.64 exponentiation by squaring of an `i32`. -/
def pow (base : Nat) (exp : Int) : Option Nat :=
  if exp = -2 ^ 31 then none
  else if exp = 0 then some ONE_Q64
  else
    let invert := decide (exp < 0)
    let exp := exp.natAbs
    if MAX_EXPONENTIAL ≤ exp then none
    else do
      let (squaredBase, invert) ←
        if ONE_Q64 ≤ base then (checkedDiv (2 ^ 128 - 1) base).map (·, !invert)
        else some (base, invert)
      let result ← powLoop exp 32 1 squaredBase ONE_Q64
      if result = 0 then none
      else if invert then checkedDiv (2 ^ 128 - 1) result
      else some result

/-- `cliff × (1 - reduction_factor / 10_000) ^ passed_period`, in Q64.64. -/
def feeInPeriod (cliffFeeNumerator reductionFactor : UInt64) (passedPeriod : Nat) : Option Nat :=
  if reductionFactor = 0 then some cliffFeeNumerator.toNat
  else do
    let shifted ← checkedShl 128 reductionFactor.toNat SCALE_OFFSET
    let bps ← checkedDiv shifted MAX_BASIS_POINT
    let base ← checkedSub ONE_Q64 bps
    let result ← pow base passedPeriod
    let product ← checkedMul 128 result cliffFeeNumerator.toNat
    tryFrom 64 (product / 2 ^ SCALE_OFFSET)

namespace FeeSchedulerParams

/-- Periods elapsed, clamped to `number_of_period`: all of them before activation. -/
def elapsedPeriods (self : FeeSchedulerParams) (currentPoint : UInt64) : Nat :=
  if self.periodFrequency = ZERO_FREQUENCY_STAYS_AT_CLIFF then 0
  else if currentPoint < self.activationPoint then self.numberOfPeriod.toNat
  else
    let elapsed := (currentPoint - self.activationPoint) / self.periodFrequency
    min ((tryFrom 16 elapsed.toNat).getD (2 ^ 16 - 1)) self.numberOfPeriod.toNat

/-- The fee of a period. -/
def feeOf (self : FeeSchedulerParams) (period : Nat) : Option Nat :=
  match self.kind with
  | .schedulerLinear => do
    let drop ← checkedMul 64 period self.reductionFactor.toNat
    checkedSub self.cliffFeeNumerator.toNat drop
  | .schedulerExponential => feeInPeriod self.cliffFeeNumerator self.reductionFactor period
  | _ => none

end FeeSchedulerParams

/-- The base fee numerator in force at a point. -/
def baseFeeNumeratorAt (params : FeeSchedulerParams) (currentPoint : UInt64) : Option Nat :=
  if params.periodFrequency = ZERO_FREQUENCY_STAYS_AT_CLIFF then
    some params.cliffFeeNumerator.toNat
  else FeeSchedulerParams.feeOf params (FeeSchedulerParams.elapsedPeriods params currentPoint)

/-- What a period leaves of one, in Q64.64. -/
def keptPerPeriod (reductionFactor : UInt64) : Nat :=
  ONE_Q64 - reductionFactor.toNat * 2 ^ 64 / MAX_BASIS_POINT

end YogSothoth.Amm
