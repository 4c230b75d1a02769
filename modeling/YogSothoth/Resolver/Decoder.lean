import YogSothoth.Amm.Dlmm
import YogSothoth.Framework.ByteReader
import YogSothoth.Resolver.PoolRow

namespace YogSothoth.Decoder

open Amm (DecimalOps decimalFrom baseFeeBps)
open Resolver (BaseFeeKind FeeSchedulerParams PoolRegistryProperties)

theorem dammV2Bytes : [9, 45, 33, 53, 101, 122, 21, 156, 43, 135, 212, 182, 106, 112, 219, 142,
    151, 82, 56, 159, 247, 106, 175, 32, 108, 237, 6, 58, 56, 249, 90, (237 : UInt8)].length = 32 :=
  rfl

theorem dlmmBytes : [4, 233, 225, 47, 188, 132, 232, 38, 201, 50, 204, 233, 226, 100, 12, 206, 21,
    89, 12, 28, 98, 115, 176, 146, 87, 8, 186, 59, 133, 32, 176, (188 : UInt8)].length = 32 := rfl

/-- `cpamdpZCGKUy5JxQXB4dcpGPiikHawvSWAd6mEn1sGG`. -/
def METEORA_DAMM_V2_PROGRAM_ID : Pubkey := ⟨_, dammV2Bytes⟩

/-- `LBUZKhRxPF3XUpBCjp4YzTKgLccjZhTSDM9YuVaPwxo`. -/
def METEORA_DLMM_PROGRAM_ID : Pubkey := ⟨_, dlmmBytes⟩

def programId : Protocol → Pubkey
  | .meteoraDammV2 => METEORA_DAMM_V2_PROGRAM_ID
  | .meteoraDlmm => METEORA_DLMM_PROGRAM_ID

def fromProgramId (id : Pubkey) : Option Protocol :=
  [Protocol.meteoraDammV2, Protocol.meteoraDlmm].find? (fun protocol => programId protocol = id)

structure MeteoraDlmmPoolAccountProperties where
  binStep : UInt16
  baseFactor : UInt16
  baseFeePowerFactor : UInt8
  variableFeeControl : UInt32
  maxVolatilityAccumulator : UInt32
  protocolShare : UInt16

/-- What goes to a satellite, of one protocol. -/
inductive PoolAccountProperties where
  | meteoraDammV2 (properties : Resolver.PoolAccountProperties)
  | meteoraDlmm (properties : MeteoraDlmmPoolAccountProperties)

def PoolAccountProperties.protocol : PoolAccountProperties → Protocol
  | .meteoraDammV2 _ => .meteoraDammV2
  | .meteoraDlmm _ => .meteoraDlmm

structure DecodedPoolAccount where
  registry : PoolRegistryProperties
  properties : PoolAccountProperties

def DecodedPoolAccount.protocol (self : DecodedPoolAccount) : Protocol := self.properties.protocol

/-- Why an account was not decoded. -/
inductive PoolAccountRejection where
  | unknownProgram (programId : Pubkey)
  | notAPoolAccount (protocol : Protocol)
  | truncated (protocol : Protocol) (len min : Nat)

/-- `base_fee_kind_from`, with the reason of its refusal. -/
def baseFeeKindFrom (mode : UInt8) (numberOfPeriod : UInt16) : Except String BaseFeeKind :=
  if numberOfPeriod = 0 ∧ (mode = 0 ∨ mode = 1 ∨ mode = 3 ∨ mode = 4) then .ok .constant
  else if mode = 0 then .ok .schedulerLinear
  else if mode = 1 then .ok .schedulerExponential
  else if mode = 2 then .ok .rateLimiter
  else if mode = 3 then .ok .marketCapSchedulerLinear
  else if mode = 4 then .ok .marketCapSchedulerExponential
  else .error ("unknown BaseFeeMode discriminant: " ++ toString mode.toNat)

/-- A key read at an offset; `none` where the slice or its length check would panic. -/
def pubkeyAt (data : List UInt8) (offset : Nat) : Option Pubkey :=
  (slice data offset 32).bind fun bytes => if h : bytes.length = 32 then some ⟨bytes, h⟩ else none

namespace DammV2

def POOL_DISCRIMINATOR : List UInt8 := [0xf1, 0x9a, 0x6d, 0x04, 0x11, 0xb1, 0x6d, 0xbc]

def CLIFF_FEE_NUMERATOR_OFFSET : Nat := 8
def BASE_FEE_MODE_OFFSET : Nat := 16
def NUMBER_OF_PERIOD_OFFSET : Nat := 22
def PERIOD_FREQUENCY_OFFSET : Nat := 24
def REDUCTION_FACTOR_OFFSET : Nat := 32
def PROTOCOL_FEE_PERCENT_OFFSET : Nat := 48
def REFERRAL_FEE_PERCENT_OFFSET : Nat := 50
def DYNAMIC_FEE_INITIALIZED_OFFSET : Nat := 56
def TOKEN_A_MINT_OFFSET : Nat := 168
def TOKEN_B_MINT_OFFSET : Nat := 200
def ACTIVATION_POINT_OFFSET : Nat := 472
def ACTIVATION_TYPE_OFFSET : Nat := 480

def MIN_LEN : Nat := TOKEN_B_MINT_OFFSET + 32

def SCHEDULER_MIN_LEN : Nat := ACTIVATION_TYPE_OFFSET + 1

/-- `fee_numerator_to_bps`: over a hundred thousandth of the fee denominator. -/
def feeNumeratorToBps (ar : DecimalOps) (numerator : UInt64) : Option Decimal :=
  ar.div (decimalFrom numerator) (decimalFrom 100000)

/-- The parameters of a time scheduler, where the account is one and is long enough. -/
def decodeFeeScheduler (data : List UInt8) (baseFeeKind : Option BaseFeeKind)
    (numberOfPeriod : UInt16) : Option (Option FeeSchedulerParams) :=
  if (baseFeeKind = some .schedulerLinear ∨ baseFeeKind = some .schedulerExponential) ∧
      SCHEDULER_MIN_LEN ≤ data.length then do
    let cliffFeeNumerator ← leAt UInt64 data CLIFF_FEE_NUMERATOR_OFFSET
    let periodFrequency ← leAt UInt64 data PERIOD_FREQUENCY_OFFSET
    let reductionFactor ← leAt UInt64 data REDUCTION_FACTOR_OFFSET
    let activationPoint ← leAt UInt64 data ACTIVATION_POINT_OFFSET
    let activationType ← byteAt data ACTIVATION_TYPE_OFFSET
    some (baseFeeKind.map fun kind => ⟨cliffFeeNumerator, numberOfPeriod, periodFrequency,
      reductionFactor, activationPoint, activationType, kind⟩)
  else some none

/-- The reads of `decode_pool_account`, past its two checks. -/
def readPool (ar : DecimalOps) (data : List UInt8) : Option DecodedPoolAccount := do
  let numberOfPeriod ← leAt UInt16 data NUMBER_OF_PERIOD_OFFSET
  let mode ← byteAt data BASE_FEE_MODE_OFFSET
  let cliffFeeNumerator ← leAt UInt64 data CLIFF_FEE_NUMERATOR_OFFSET
  let tokenAMint ← pubkeyAt data TOKEN_A_MINT_OFFSET
  let tokenBMint ← pubkeyAt data TOKEN_B_MINT_OFFSET
  let feeBps ← feeNumeratorToBps ar cliffFeeNumerator
  let protocolFeePercent ← byteAt data PROTOCOL_FEE_PERCENT_OFFSET
  let referralFeePercent ← byteAt data REFERRAL_FEE_PERCENT_OFFSET
  let dynamicFee ← byteAt data DYNAMIC_FEE_INITIALIZED_OFFSET
  let feeScheduler ← decodeFeeScheduler data (baseFeeKindFrom mode numberOfPeriod).toOption
    numberOfPeriod
  some ⟨⟨tokenAMint, tokenBMint, feeBps.value⟩, .meteoraDammV2 ⟨protocolFeePercent,
    referralFeePercent, (baseFeeKindFrom mode numberOfPeriod).toOption, dynamicFee != 0,
    feeScheduler⟩⟩

def decodePoolAccount (ar : DecimalOps) (data : List UInt8) :
    Option (Except PoolAccountRejection DecodedPoolAccount) :=
  if data.length < MIN_LEN then
    some (.error (.truncated .meteoraDammV2 data.length MIN_LEN))
  else (slice data 0 8).bind fun discriminator =>
    if discriminator ≠ POOL_DISCRIMINATOR then some (.error (.notAPoolAccount .meteoraDammV2))
    else (readPool ar data).map .ok

end DammV2

namespace Dlmm

def LB_PAIR_DISCRIMINATOR : List UInt8 := [0x21, 0x0b, 0x31, 0x62, 0xb5, 0x65, 0xb1, 0x0d]

def BASE_FACTOR_OFFSET : Nat := 8
def VARIABLE_FEE_CONTROL_OFFSET : Nat := 16
def MAX_VOLATILITY_ACCUMULATOR_OFFSET : Nat := 20
def PROTOCOL_SHARE_OFFSET : Nat := 32
def BASE_FEE_POWER_FACTOR_OFFSET : Nat := 34
def BIN_STEP_OFFSET : Nat := 80
def TOKEN_X_MINT_OFFSET : Nat := 88
def TOKEN_Y_MINT_OFFSET : Nat := 120

def MIN_LEN : Nat := TOKEN_Y_MINT_OFFSET + 32

/-- The reads of `decode_pool_account`, past its two checks. -/
def readPair (ar : DecimalOps) (data : List UInt8) : Option DecodedPoolAccount := do
  let binStep ← leAt UInt16 data BIN_STEP_OFFSET
  let baseFactor ← leAt UInt16 data BASE_FACTOR_OFFSET
  let baseFeePowerFactor ← byteAt data BASE_FEE_POWER_FACTOR_OFFSET
  let tokenXMint ← pubkeyAt data TOKEN_X_MINT_OFFSET
  let tokenYMint ← pubkeyAt data TOKEN_Y_MINT_OFFSET
  let feeBps ← baseFeeBps ar baseFactor binStep baseFeePowerFactor
  let variableFeeControl ← leAt UInt32 data VARIABLE_FEE_CONTROL_OFFSET
  let maxVolatilityAccumulator ← leAt UInt32 data MAX_VOLATILITY_ACCUMULATOR_OFFSET
  let protocolShare ← leAt UInt16 data PROTOCOL_SHARE_OFFSET
  some ⟨⟨tokenXMint, tokenYMint, feeBps.value⟩, .meteoraDlmm ⟨binStep, baseFactor,
    baseFeePowerFactor, variableFeeControl, maxVolatilityAccumulator, protocolShare⟩⟩

def decodePoolAccount (ar : DecimalOps) (data : List UInt8) :
    Option (Except PoolAccountRejection DecodedPoolAccount) :=
  if data.length < MIN_LEN then
    some (.error (.truncated .meteoraDlmm data.length MIN_LEN))
  else (slice data 0 8).bind fun discriminator =>
    if discriminator ≠ LB_PAIR_DISCRIMINATOR then some (.error (.notAPoolAccount .meteoraDlmm))
    else (readPair ar data).map .ok

end Dlmm

/-- `decode_pool_account`: the owner selects the layout; `none` for a panic. -/
def decodePoolAccount (ar : DecimalOps) (id : Pubkey) (data : List UInt8) :
    Option (Except PoolAccountRejection DecodedPoolAccount) :=
  match fromProgramId id with
  | none => some (.error (.unknownProgram id))
  | some .meteoraDammV2 => DammV2.decodePoolAccount ar data
  | some .meteoraDlmm => Dlmm.decodePoolAccount ar data

section Total

variable (ar : DecimalOps) {data : List UInt8} {start : Nat}

theorem exists_slice {n : Nat} (h : start + n ≤ data.length) :
    ∃ bytes, slice data start n = some bytes ∧ bytes.length = n := by
  refine ⟨(data.drop start).take n, if_pos h, ?_⟩
  rw [List.length_take, List.length_drop]
  omega

theorem exists_leAt (α : Type) [LeInt α] (start : Nat) (h : start + LeInt.width α ≤ data.length) :
    ∃ v, leAt α data start = some v := by
  obtain ⟨bytes, hbytes, _⟩ := exists_slice h
  refine ⟨fromLeBytes bytes, ?_⟩
  unfold leAt
  rw [hbytes, Option.map_some]

theorem exists_byteAt (start : Nat) (h : start < data.length) : ∃ b, byteAt data start = some b :=
  ⟨data[start], List.getElem?_eq_getElem h⟩

theorem exists_pubkeyAt (start : Nat) (h : start + 32 ≤ data.length) :
    ∃ key, pubkeyAt data start = some key := by
  obtain ⟨bytes, hbytes, hlength⟩ := exists_slice h
  refine ⟨⟨bytes, hlength⟩, ?_⟩
  unfold pubkeyAt
  rw [hbytes, Option.bind_some, dif_pos hlength]

theorem exists_feeNumeratorToBps (numerator : UInt64) :
    ∃ bps, DammV2.feeNumeratorToBps ar numerator = some bps ∧ bps.value = numerator.toNat / 100000 := by
  obtain ⟨bps, hdiv, hvalue⟩ := ar.div_ten_pow (a := decimalFrom numerator)
    (b := decimalFrom 100000) (k := 5) rfl rfl rfl (by decide)
  have hdivisor : (100000 : UInt64).toNat = 100000 := rfl
  refine ⟨bps, hdiv, ?_⟩
  rw [hvalue, Amm.decimalFrom_value, Amm.decimalFrom_value, hdivisor, Nat.cast_ofNat]

theorem exists_feeScheduler (data : List UInt8) (kind : Option BaseFeeKind) (numberOfPeriod : UInt16) :
    ∃ params, DammV2.decodeFeeScheduler data kind numberOfPeriod = some params := by
  unfold DammV2.decodeFeeScheduler
  split_ifs with h
  · have hread := fun (start : Nat) (hstart : start + LeInt.width UInt64 ≤ DammV2.SCHEDULER_MIN_LEN) =>
      exists_leAt UInt64 start (hstart.trans h.2)
    obtain ⟨cliff, hcliff⟩ := hread DammV2.CLIFF_FEE_NUMERATOR_OFFSET (by decide)
    obtain ⟨frequency, hfrequency⟩ := hread DammV2.PERIOD_FREQUENCY_OFFSET (by decide)
    obtain ⟨reduction, hreduction⟩ := hread DammV2.REDUCTION_FACTOR_OFFSET (by decide)
    obtain ⟨point, hpoint⟩ := hread DammV2.ACTIVATION_POINT_OFFSET (by decide)
    obtain ⟨type, htype⟩ := exists_byteAt DammV2.ACTIVATION_TYPE_OFFSET h.2
    rw [hcliff, hfrequency, hreduction, hpoint, htype]
    exact ⟨_, rfl⟩
  · exact ⟨none, rfl⟩

/-- A cp-amm account is decoded if and only if it is long enough and a pool's. -/
theorem dammV2_decodes (data : List UInt8) :
    ∃ result, DammV2.decodePoolAccount ar data = some result ∧
      ((∃ decoded, result = .ok decoded ∧ decoded.protocol = .meteoraDammV2) ↔
        DammV2.MIN_LEN ≤ data.length ∧ data.take 8 = DammV2.POOL_DISCRIMINATOR) := by
  unfold DammV2.decodePoolAccount
  split_ifs with hshort
  · refine ⟨_, rfl, iff_of_false ?_ (fun h => absurd h.1 (not_le.mpr hshort))⟩
    simp
  · have hlen := not_lt.mp hshort
    have hdiscriminator : slice data 0 8 = some (data.take 8) :=
      if_pos (le_trans (by decide) hlen)
    rw [hdiscriminator, Option.bind_some]
    split_ifs with hforeign
    · refine ⟨_, rfl, iff_of_false ?_ (fun h => hforeign h.2)⟩
      simp
    · obtain ⟨periods, hperiods⟩ := exists_leAt UInt16 DammV2.NUMBER_OF_PERIOD_OFFSET
        (le_trans (by decide) hlen)
      obtain ⟨mode, hmode⟩ := exists_byteAt DammV2.BASE_FEE_MODE_OFFSET
        (lt_of_lt_of_le (by decide) hlen)
      obtain ⟨cliff, hcliff⟩ := exists_leAt UInt64 DammV2.CLIFF_FEE_NUMERATOR_OFFSET
        (le_trans (by decide) hlen)
      obtain ⟨mintA, hmintA⟩ := exists_pubkeyAt DammV2.TOKEN_A_MINT_OFFSET
        (le_trans (by decide) hlen)
      obtain ⟨mintB, hmintB⟩ := exists_pubkeyAt DammV2.TOKEN_B_MINT_OFFSET
        (le_trans (by decide) hlen)
      obtain ⟨bps, hbps, _⟩ := exists_feeNumeratorToBps ar cliff
      obtain ⟨protocolFee, hprotocolFee⟩ := exists_byteAt DammV2.PROTOCOL_FEE_PERCENT_OFFSET
        (lt_of_lt_of_le (by decide) hlen)
      obtain ⟨referralFee, hreferralFee⟩ := exists_byteAt DammV2.REFERRAL_FEE_PERCENT_OFFSET
        (lt_of_lt_of_le (by decide) hlen)
      obtain ⟨dynamicFee, hdynamicFee⟩ := exists_byteAt DammV2.DYNAMIC_FEE_INITIALIZED_OFFSET
        (lt_of_lt_of_le (by decide) hlen)
      obtain ⟨scheduler, hscheduler⟩ := exists_feeScheduler data
        (baseFeeKindFrom mode periods).toOption periods
      have hread : ∃ decoded, DammV2.readPool ar data = some decoded ∧
          decoded.protocol = .meteoraDammV2 := by
        unfold DammV2.readPool
        simp only [hperiods, hmode, hcliff, hmintA, hmintB, hbps, hprotocolFee, hreferralFee,
          hdynamicFee, hscheduler, Option.bind_eq_bind, Option.bind_some]
        exact ⟨_, rfl, rfl⟩
      obtain ⟨decoded, hdecoded, hprotocol⟩ := hread
      rw [hdecoded]
      exact ⟨.ok decoded, rfl, iff_of_true ⟨decoded, rfl, hprotocol⟩ ⟨hlen, not_not.mp hforeign⟩⟩

/-- A DLMM account is decoded as one, or refused. -/
theorem dlmm_decodes (data : List UInt8) :
    ∃ result, Dlmm.decodePoolAccount ar data = some result ∧
      ∀ decoded, result = .ok decoded → decoded.protocol = .meteoraDlmm := by
  unfold Dlmm.decodePoolAccount
  split_ifs with hshort
  · exact ⟨_, rfl, fun _ h => nomatch h⟩
  · have hlen := not_lt.mp hshort
    have hdiscriminator : slice data 0 8 = some (data.take 8) :=
      if_pos (le_trans (by decide) hlen)
    rw [hdiscriminator, Option.bind_some]
    split_ifs with hforeign
    · exact ⟨_, rfl, fun _ h => nomatch h⟩
    · obtain ⟨step, hstep⟩ := exists_leAt UInt16 Dlmm.BIN_STEP_OFFSET (le_trans (by decide) hlen)
      obtain ⟨factor, hfactor⟩ := exists_leAt UInt16 Dlmm.BASE_FACTOR_OFFSET
        (le_trans (by decide) hlen)
      obtain ⟨power, hpower⟩ := exists_byteAt Dlmm.BASE_FEE_POWER_FACTOR_OFFSET
        (lt_of_lt_of_le (by decide) hlen)
      obtain ⟨mintX, hmintX⟩ := exists_pubkeyAt Dlmm.TOKEN_X_MINT_OFFSET (le_trans (by decide) hlen)
      obtain ⟨mintY, hmintY⟩ := exists_pubkeyAt Dlmm.TOKEN_Y_MINT_OFFSET (le_trans (by decide) hlen)
      obtain ⟨bps, hbps, _⟩ := Amm.baseFeeBps_value ar factor step power
      obtain ⟨control, hcontrol⟩ := exists_leAt UInt32 Dlmm.VARIABLE_FEE_CONTROL_OFFSET
        (le_trans (by decide) hlen)
      obtain ⟨ceiling, hceiling⟩ := exists_leAt UInt32 Dlmm.MAX_VOLATILITY_ACCUMULATOR_OFFSET
        (le_trans (by decide) hlen)
      obtain ⟨share, hshare⟩ := exists_leAt UInt16 Dlmm.PROTOCOL_SHARE_OFFSET
        (le_trans (by decide) hlen)
      have hread : ∃ decoded, Dlmm.readPair ar data = some decoded ∧
          decoded.protocol = .meteoraDlmm := by
        unfold Dlmm.readPair
        simp only [hstep, hfactor, hpower, hmintX, hmintY, hbps, hcontrol, hceiling, hshare,
          Option.bind_eq_bind, Option.bind_some]
        exact ⟨_, rfl, rfl⟩
      obtain ⟨decoded, hdecoded, hprotocol⟩ := hread
      rw [hdecoded]
      exact ⟨.ok decoded, rfl, fun other h => Except.ok.inj h ▸ hprotocol⟩

/-- No account panics; those decoded as cp-amm pools are the cp-amm program's, long enough and with
its discriminator. -/
theorem decodePoolAccount_total (id : Pubkey) (data : List UInt8) :
    ∃ result, decodePoolAccount ar id data = some result ∧
      ((∃ decoded, result = .ok decoded ∧ decoded.protocol = .meteoraDammV2) ↔
        id = METEORA_DAMM_V2_PROGRAM_ID ∧ DammV2.MIN_LEN ≤ data.length ∧
          data.take 8 = DammV2.POOL_DISCRIMINATOR) := by
  unfold decodePoolAccount fromProgramId
  by_cases hdamm : id = METEORA_DAMM_V2_PROGRAM_ID
  · have hfound : [Protocol.meteoraDammV2, Protocol.meteoraDlmm].find?
        (fun protocol => programId protocol = id) = some .meteoraDammV2 := by
      rw [hdamm]
      rfl
    rw [hfound]
    obtain ⟨result, hresult, hiff⟩ := dammV2_decodes ar data
    exact ⟨result, hresult, hiff.trans (and_iff_right hdamm).symm⟩
  · have hother : ∀ result : Except PoolAccountRejection DecodedPoolAccount,
        (∀ decoded, result = .ok decoded → decoded.protocol = .meteoraDlmm) →
        ((∃ decoded, result = .ok decoded ∧ decoded.protocol = .meteoraDammV2) ↔
          id = METEORA_DAMM_V2_PROGRAM_ID ∧ DammV2.MIN_LEN ≤ data.length ∧
            data.take 8 = DammV2.POOL_DISCRIMINATOR) := by
      intro result hresult
      refine iff_of_false ?_ (fun h => hdamm h.1)
      intro h
      obtain ⟨decoded, heq, hprotocol⟩ := h
      rw [hresult decoded heq] at hprotocol
      cases hprotocol
    have hfirst : decide (programId .meteoraDammV2 = id) = false := decide_eq_false (Ne.symm hdamm)
    rw [List.find?_cons_of_neg (by rw [hfirst]; exact Bool.false_ne_true)]
    by_cases hdlmm : programId .meteoraDlmm = id
    · rw [List.find?_cons_of_pos (by rw [decide_eq_true hdlmm])]
      obtain ⟨result, hresult, hprotocol⟩ := dlmm_decodes ar data
      exact ⟨result, hresult, hother result hprotocol⟩
    · rw [List.find?_cons_of_neg (by rw [decide_eq_false hdlmm]; exact Bool.false_ne_true)]
      exact ⟨_, rfl, hother _ fun _ h => nomatch h⟩

end Total

end YogSothoth.Decoder
