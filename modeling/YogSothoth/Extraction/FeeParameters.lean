import YogSothoth.Framework.ByteReader

namespace YogSothoth.Extraction.MeteoraDammV2

/-- How a scheduled fee falls from its cliff. -/
inductive FeeDecay where
  | linear
  | exponential
  deriving DecidableEq

/-- The base fee, one variant per layout. -/
inductive BaseFee where
  | timeScheduler (decay : FeeDecay) (cliffFeeNumerator : UInt64) (numberOfPeriod : UInt16)
      (periodFrequency reductionFactor : UInt64)
  | rateLimiter (cliffFeeNumerator : UInt64) (feeIncrementBps : UInt16)
      (maxLimiterDuration maxFeeBps : UInt32) (referenceAmount : UInt64)
  | marketCapScheduler (decay : FeeDecay) (cliffFeeNumerator : UInt64) (numberOfPeriod : UInt16)
      (sqrtPriceStepBps schedulerExpirationDuration : UInt32) (reductionFactor : UInt64)
  deriving DecidableEq

structure DynamicFee where
  binStep : UInt16
  binStepU128 : BitVec 128
  filterPeriod : UInt16
  decayPeriod : UInt16
  reductionFactor : UInt16
  maxVolatilityAccumulator : UInt32
  variableFeeControl : UInt32
  deriving DecidableEq

structure PoolFees where
  baseFee : BaseFee
  compoundingFeeBps : UInt16
  dynamicFee : Option DynamicFee
  deriving DecidableEq

/-- What a fee update does to the dynamic fee. -/
inductive DynamicFeeUpdate where
  | unchanged
  | disabled
  | set (fee : DynamicFee)
  deriving DecidableEq

structure PoolFeesUpdate where
  cliffFeeNumerator : Option UInt64
  dynamicFee : DynamicFeeUpdate
  compoundingFeeBps : Option UInt16
  deriving DecidableEq

def BASE_FEE_LEN : Nat := 27

def BASE_FEE_MODE_OFFSET : Nat := 26

def DYNAMIC_FEE_LEN : Nat := 32

/-- Why a fee blob was not decoded. -/
inductive FeeParametersRejection where
  | unknownBaseFeeMode (mode : UInt8)
  | invalidOptionTag (field : String) (tag : UInt8)
  | truncated (field : String) (len need : Nat)
  | trailingBytes (len : Nat)
  | nonZeroPadding (value : UInt8)
  deriving DecidableEq

abbrev Bytes (n : Nat) := { bytes : List UInt8 // bytes.length = n }

abbrev FeeReader (A : Type) := ByteReader FeeParametersRejection A

abbrev Decoded (A : Type) := ExceptT FeeParametersRejection Option A

def take (n : Nat) (field : String) : FeeReader (Bytes n) := fun rest =>
  if h : n ≤ rest.length then pure (⟨rest.take n, List.length_take_of_le h⟩, rest.drop n)
  else throw (.truncated field rest.length n)

/-- The byte of an array of one. -/
def onlyByte (bytes : Bytes 1) : UInt8 := bytes.1.headD 0

/-- A borsh `Option` tag: whether a value follows. -/
def optionTag (field : String) : FeeReader Bool := do
  let tag := onlyByte (← take 1 field)
  if tag = 0 then return false
  else if tag = 1 then return true
  else throw (.invalidOptionTag field tag)

def isEmpty : FeeReader Bool := fun rest => pure (rest.isEmpty, rest)

def finish : FeeReader Unit := fun rest =>
  if rest.length = 0 then pure ((), rest) else throw (.trailingBytes rest.length)

def decayFrom (linear mode : UInt8) : FeeDecay := if mode = linear then .linear else .exponential

def decodeBaseFee (bytes : Bytes BASE_FEE_LEN) : Decoded BaseFee := do
  let cliffFeeNumerator ← leAt UInt64 bytes.1 0
  let mode ← byteAt bytes.1 BASE_FEE_MODE_OFFSET
  if mode = 0 ∨ mode = 1 then
    return .timeScheduler (decayFrom 0 mode) cliffFeeNumerator (← leAt UInt16 bytes.1 8)
      (← leAt UInt64 bytes.1 10) (← leAt UInt64 bytes.1 18)
  else if mode = 2 then
    return .rateLimiter cliffFeeNumerator (← leAt UInt16 bytes.1 8) (← leAt UInt32 bytes.1 10)
      (← leAt UInt32 bytes.1 14) (← leAt UInt64 bytes.1 18)
  else if mode = 3 ∨ mode = 4 then
    return .marketCapScheduler (decayFrom 3 mode) cliffFeeNumerator (← leAt UInt16 bytes.1 8)
      (← leAt UInt32 bytes.1 10) (← leAt UInt32 bytes.1 14) (← leAt UInt64 bytes.1 18)
  else throw (.unknownBaseFeeMode mode)

def decodeDynamicFee (bytes : Bytes DYNAMIC_FEE_LEN) : Decoded DynamicFee := do
  return {
    binStep := ← leAt UInt16 bytes.1 0
    binStepU128 := ← leAt (BitVec 128) bytes.1 2
    filterPeriod := ← leAt UInt16 bytes.1 18
    decayPeriod := ← leAt UInt16 bytes.1 20
    reductionFactor := ← leAt UInt16 bytes.1 22
    maxVolatilityAccumulator := ← leAt UInt32 bytes.1 24
    variableFeeControl := ← leAt UInt32 bytes.1 28 }

/-- The dynamic fee of a creation. -/
def readDynamicFee : FeeReader (Option DynamicFee) := do
  if ← optionTag "dynamic_fee" then
    return some (← decodeDynamicFee (← take DYNAMIC_FEE_LEN "dynamic_fee"))
  else return none

def readPadding : FeeReader Unit := do
  let padding := onlyByte (← take 1 "padding")
  if padding ≠ 0 then throw (.nonZeroPadding padding)

def readPoolFees : FeeReader PoolFees := do
  let baseFee ← decodeBaseFee (← take BASE_FEE_LEN "base_fee")
  let compoundingFeeBps := fromLeBytes (← take 2 "compounding_fee_bps").1
  readPadding
  let dynamicFee ← readDynamicFee
  finish
  return ⟨baseFee, compoundingFeeBps, dynamicFee⟩

/-- The fees of a creation, from `pool_fees_raw`. -/
def decodeMeteoraDammV2PoolFees (raw : List UInt8) : Decoded PoolFees := readPoolFees.run' raw

/-- An optional integer of an update. -/
def readOptional (A : Type) [LeInt A] (field : String) : FeeReader (Option A) := do
  if ← optionTag field then return some (fromLeBytes (← take (LeInt.width A) field).1)
  else return none

def readDynamicFeeUpdate : FeeReader DynamicFeeUpdate := do
  if ← optionTag "dynamic_fee" then do
    let bytes ← take DYNAMIC_FEE_LEN "dynamic_fee"
    if bytes.1.all (· = 0) then return .disabled
    else return .set (← decodeDynamicFee bytes)
  else return .unchanged

/-- Nothing left is the layout of two fields. -/
def readCompounding : FeeReader (Option UInt16) := do
  if ← isEmpty then return none
  else readOptional UInt16 "compounding_fee_bps"

def readPoolFeesUpdate : FeeReader PoolFeesUpdate := do
  let cliffFeeNumerator ← readOptional UInt64 "cliff_fee_numerator"
  let dynamicFee ← readDynamicFeeUpdate
  let compoundingFeeBps ← readCompounding
  finish
  return ⟨cliffFeeNumerator, dynamicFee, compoundingFeeBps⟩

/-- What a fee update changes, from `params_raw`. -/
def decodeMeteoraDammV2PoolFeesUpdate (raw : List UInt8) : Decoded PoolFeesUpdate :=
  readPoolFeesUpdate.run' raw

end YogSothoth.Extraction.MeteoraDammV2
