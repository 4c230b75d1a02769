import YogSothoth.Core.Types
import YogSothoth.Framework.Borsh
import YogSothoth.Framework.Sha256

namespace YogSothoth.Extraction

open Borsh

instance : BorshDeserialize Pubkey where
  deserializeReader := (fun bytes => ⟨bytes.1, bytes.2⟩) <$> takeBytes 32

structure SwapParameters2 where
  (amount0 amount1 : UInt64)
  swapMode : UInt8

instance : BorshDeserialize SwapParameters2 where
  deserializeReader := .mk <$> field <*> field <*> field

structure SwapResult2 where
  (includedFeeInputAmount excludedFeeInputAmount amountLeft outputAmount : UInt64)
  nextSqrtPrice : BitVec 128
  (claimingFee protocolFee compoundingFee referralFee : UInt64)

instance : BorshDeserialize SwapResult2 where
  deserializeReader := .mk <$> field <*> field <*> field <*> field <*> field <*> field <*> field <*>
    field <*> field

structure EvtSwap2 where
  pool : Pubkey
  (tradeDirection collectFeeMode : UInt8)
  hasReferral : Bool
  params : SwapParameters2
  swapResult : SwapResult2
  (includedTransferFeeAmountIn includedTransferFeeAmountOut excludedTransferFeeAmountOut : UInt64)
  (currentTimestamp reserveAAmount reserveBAmount : UInt64)

instance : BorshDeserialize EvtSwap2 where
  deserializeReader := .mk <$> field <*> field <*> field <*> field <*> field <*> field <*> field <*>
    field <*> field <*> field <*> field <*> field

structure EvtLiquidityChange where
  (pool position owner : Pubkey)
  (tokenAAmount tokenBAmount transferFeeIncludedTokenAAmount : UInt64)
  (transferFeeIncludedTokenBAmount reserveAAmount reserveBAmount : UInt64)
  liquidityDelta : BitVec 128
  (tokenAAmountThreshold tokenBAmountThreshold : UInt64)
  changeType : UInt8

instance : BorshDeserialize EvtLiquidityChange where
  deserializeReader := .mk <$> field <*> field <*> field <*> field <*> field <*> field <*> field <*>
    field <*> field <*> field <*> field <*> field <*> field

structure EvtClaimPositionFee where
  (pool position owner : Pubkey)
  (feeAClaimed feeBClaimed : UInt64)

instance : BorshDeserialize EvtClaimPositionFee where
  deserializeReader := .mk <$> field <*> field <*> field <*> field <*> field

structure EvtClaimReward where
  (pool position owner mintReward : Pubkey)
  rewardIndex : UInt8
  totalReward : UInt64

instance : BorshDeserialize EvtClaimReward where
  deserializeReader := .mk <$> field <*> field <*> field <*> field <*> field <*> field

structure EvtClaimProtocolFee where
  pool : Pubkey
  (tokenAAmount tokenBAmount : UInt64)

instance : BorshDeserialize EvtClaimProtocolFee where
  deserializeReader := .mk <$> field <*> field <*> field

structure EvtInitializeReward where
  (pool rewardMint funder creator : Pubkey)
  rewardIndex : UInt8
  rewardDuration : UInt64

instance : BorshDeserialize EvtInitializeReward where
  deserializeReader := .mk <$> field <*> field <*> field <*> field <*> field <*> field

structure EvtFundReward where
  (pool funder mintReward : Pubkey)
  rewardIndex : UInt8
  (amount transferFeeExcludedAmountIn rewardDurationEnd : UInt64)
  (preRewardRate postRewardRate : BitVec 128)

instance : BorshDeserialize EvtFundReward where
  deserializeReader := .mk <$> field <*> field <*> field <*> field <*> field <*> field <*> field <*>
    field <*> field

structure EvtWithdrawIneligibleReward where
  (pool rewardMint : Pubkey)
  amount : UInt64

instance : BorshDeserialize EvtWithdrawIneligibleReward where
  deserializeReader := .mk <$> field <*> field <*> field

structure EvtUpdateRewardDuration where
  pool : Pubkey
  rewardIndex : UInt8
  (oldRewardDuration newRewardDuration : UInt64)

instance : BorshDeserialize EvtUpdateRewardDuration where
  deserializeReader := .mk <$> field <*> field <*> field <*> field

structure EvtUpdateRewardFunder where
  pool : Pubkey
  rewardIndex : UInt8
  (oldFunder newFunder : Pubkey)

instance : BorshDeserialize EvtUpdateRewardFunder where
  deserializeReader := .mk <$> field <*> field <*> field <*> field

structure EvtWithdrawDeadLiquidityReward where
  (pool rewardMint : Pubkey)
  amount : UInt64

instance : BorshDeserialize EvtWithdrawDeadLiquidityReward where
  deserializeReader := .mk <$> field <*> field <*> field

/-- What moved from the first position to the second. -/
structure SplitAmountInfo2 where
  (permanentLockedLiquidity unlockedLiquidity vestedLiquidity : BitVec 128)
  (feeA feeB reward0 reward1 : UInt64)

instance : BorshDeserialize SplitAmountInfo2 where
  deserializeReader := .mk <$> field <*> field <*> field <*> field <*> field <*> field <*> field

/-- One position after the split; its two first fields come the other way round. -/
structure SplitPositionInfo2 where
  (unlockedLiquidity permanentLockedLiquidity vestedLiquidity : BitVec 128)
  (feeA feeB reward0 reward1 : UInt64)

instance : BorshDeserialize SplitPositionInfo2 where
  deserializeReader := .mk <$> field <*> field <*> field <*> field <*> field <*> field <*> field

structure SplitPositionParameters3 where
  (unlockedLiquidityNumerator permanentLockedLiquidityNumerator feeANumerator : UInt32)
  (feeBNumerator reward0Numerator reward1Numerator innerVestingLiquidityNumerator : UInt32)

instance : BorshDeserialize SplitPositionParameters3 where
  deserializeReader := .mk <$> field <*> field <*> field <*> field <*> field <*> field <*> field

structure EvtSplitPosition3 where
  (pool firstOwner secondOwner firstPosition secondPosition : Pubkey)
  currentSqrtPrice : BitVec 128
  amountSplits : SplitAmountInfo2
  (firstPositionInfo secondPositionInfo : SplitPositionInfo2)
  splitPositionParameters : SplitPositionParameters3

instance : BorshDeserialize EvtSplitPosition3 where
  deserializeReader := .mk <$> field <*> field <*> field <*> field <*> field <*> field <*> field <*>
    field <*> field <*> field

structure EvtCreatePosition where
  (pool owner position positionNftMint : Pubkey)

instance : BorshDeserialize EvtCreatePosition where
  deserializeReader := .mk <$> field <*> field <*> field <*> field

structure EvtClosePosition where
  (pool owner position positionNftMint : Pubkey)

instance : BorshDeserialize EvtClosePosition where
  deserializeReader := .mk <$> field <*> field <*> field <*> field

structure EvtLockPosition where
  (pool position owner vesting : Pubkey)
  (cliffPoint periodFrequency : UInt64)
  (cliffUnlockLiquidity liquidityPerPeriod : BitVec 128)
  numberOfPeriod : UInt16

instance : BorshDeserialize EvtLockPosition where
  deserializeReader := .mk <$> field <*> field <*> field <*> field <*> field <*> field <*> field <*>
    field <*> field

structure EvtPermanentLockPosition where
  (pool position : Pubkey)
  (lockLiquidityAmount totalPermanentLockedLiquidity : BitVec 128)

instance : BorshDeserialize EvtPermanentLockPosition where
  deserializeReader := .mk <$> field <*> field <*> field <*> field

structure BaseFeeParameters where
  data : { bytes : List UInt8 // bytes.length = 27 }

instance : BorshDeserialize BaseFeeParameters where
  deserializeReader := .mk <$> field

instance : BorshSerialize BaseFeeParameters where
  serialize v :=
    serialize v.data

structure DynamicFeeParameters where
  binStep : UInt16
  binStepU128 : BitVec 128
  (filterPeriod decayPeriod reductionFactor : UInt16)
  (maxVolatilityAccumulator variableFeeControl : UInt32)

instance : BorshDeserialize DynamicFeeParameters where
  deserializeReader := .mk <$> field <*> field <*> field <*> field <*> field <*> field <*> field

instance : BorshSerialize DynamicFeeParameters where
  serialize v :=
    serialize v.binStep ++ serialize v.binStepU128 ++ serialize v.filterPeriod ++
      serialize v.decayPeriod ++ serialize v.reductionFactor ++
      serialize v.maxVolatilityAccumulator ++ serialize v.variableFeeControl

structure PoolFeeParameters where
  baseFee : BaseFeeParameters
  compoundingFeeBps : UInt16
  padding : UInt8
  dynamicFee : Option DynamicFeeParameters

instance : BorshDeserialize PoolFeeParameters where
  deserializeReader := .mk <$> field <*> field <*> field <*> field

instance : BorshSerialize PoolFeeParameters where
  serialize v :=
    serialize v.baseFee ++ serialize v.compoundingFeeBps ++ serialize v.padding ++
      serialize v.dynamicFee

structure EvtInitializePool where
  (pool tokenAMint tokenBMint creator payer alphaVault : Pubkey)
  poolFees : PoolFeeParameters
  (sqrtMinPrice sqrtMaxPrice : BitVec 128)
  (activationType collectFeeMode : UInt8)
  (liquidity sqrtPrice : BitVec 128)
  activationPoint : UInt64
  (tokenAFlag tokenBFlag : UInt8)
  (tokenAAmount tokenBAmount totalAmountA totalAmountB : UInt64)
  poolType : UInt8

instance : BorshDeserialize EvtInitializePool where
  deserializeReader := .mk <$> field <*> field <*> field <*> field <*> field <*> field <*> field <*>
    field <*> field <*> field <*> field <*> field <*> field <*> field <*> field <*> field <*>
    field <*> field <*> field <*> field <*> field

structure EvtSetPoolStatus where
  pool : Pubkey
  status : UInt8

instance : BorshDeserialize EvtSetPoolStatus where
  deserializeReader := .mk <$> field <*> field

/-- The update parameters are kept raw: whatever follows the two addresses. -/
structure EvtUpdatePoolFees where
  (pool operator : Pubkey)
  paramsRaw : List UInt8

instance : BorshDeserialize EvtUpdatePoolFees where
  deserializeReader := .mk <$> field <*> field <*> readToEnd

/-- One decoded DAMM v2 event. -/
inductive DammV2WireEvent where
  | swap2 (e : EvtSwap2)
  | liquidityChange (e : EvtLiquidityChange)
  | claimPositionFee (e : EvtClaimPositionFee)
  | claimReward (e : EvtClaimReward)
  | claimProtocolFee (e : EvtClaimProtocolFee)
  | initializeReward (e : EvtInitializeReward)
  | fundReward (e : EvtFundReward)
  | withdrawIneligibleReward (e : EvtWithdrawIneligibleReward)
  | updateRewardDuration (e : EvtUpdateRewardDuration)
  | updateRewardFunder (e : EvtUpdateRewardFunder)
  | withdrawDeadLiquidityReward (e : EvtWithdrawDeadLiquidityReward)
  | splitPosition3 (e : EvtSplitPosition3)
  | createPosition (e : EvtCreatePosition)
  | closePosition (e : EvtClosePosition)
  | lockPosition (e : EvtLockPosition)
  | permanentLockPosition (e : EvtPermanentLockPosition)
  | initializePool (e : EvtInitializePool)
  | setPoolStatus (e : EvtSetPoolStatus)
  | updatePoolFees (e : EvtUpdatePoolFees)

def wireEventName : DammV2WireEvent → String
  | .swap2 _ => "EvtSwap2"
  | .liquidityChange _ => "EvtLiquidityChange"
  | .claimPositionFee _ => "EvtClaimPositionFee"
  | .claimReward _ => "EvtClaimReward"
  | .claimProtocolFee _ => "EvtClaimProtocolFee"
  | .initializeReward _ => "EvtInitializeReward"
  | .fundReward _ => "EvtFundReward"
  | .withdrawIneligibleReward _ => "EvtWithdrawIneligibleReward"
  | .updateRewardDuration _ => "EvtUpdateRewardDuration"
  | .updateRewardFunder _ => "EvtUpdateRewardFunder"
  | .withdrawDeadLiquidityReward _ => "EvtWithdrawDeadLiquidityReward"
  | .splitPosition3 _ => "EvtSplitPosition3"
  | .createPosition _ => "EvtCreatePosition"
  | .closePosition _ => "EvtClosePosition"
  | .lockPosition _ => "EvtLockPosition"
  | .permanentLockPosition _ => "EvtPermanentLockPosition"
  | .initializePool _ => "EvtInitializePool"
  | .setPoolStatus _ => "EvtSetPoolStatus"
  | .updatePoolFees _ => "EvtUpdatePoolFees"

def DISCRIMINATOR_LEN : Nat := 8

/-- `sha256("event:<name>")[..8]`. -/
def computeDiscriminator (name : String) : List UInt8 :=
  (Sha256.hash ("event:" ++ name).toUTF8.data.toList).take DISCRIMINATOR_LEN

structure KnownDiscriminators where
  (swap2 liquidity claimPosFee claimReward : List UInt8)
  (claimProtocolFee initializeReward fundReward withdrawIneligibleReward : List UInt8)
  (updateRewardDuration updateRewardFunder withdrawDeadLiquidityReward splitPosition3 : List UInt8)
  (splitPosition2Deprecated createPosition closePosition lockPosition : List UInt8)
  (permanentLockPosition initializePool setPoolStatus updatePoolFees : List UInt8)

/-- The discriminators of one extraction. -/
def known : KnownDiscriminators where
  swap2 := computeDiscriminator "EvtSwap2"
  liquidity := computeDiscriminator "EvtLiquidityChange"
  claimPosFee := computeDiscriminator "EvtClaimPositionFee"
  claimReward := computeDiscriminator "EvtClaimReward"
  claimProtocolFee := computeDiscriminator "EvtClaimProtocolFee"
  initializeReward := computeDiscriminator "EvtInitializeReward"
  fundReward := computeDiscriminator "EvtFundReward"
  withdrawIneligibleReward := computeDiscriminator "EvtWithdrawIneligibleReward"
  updateRewardDuration := computeDiscriminator "EvtUpdateRewardDuration"
  updateRewardFunder := computeDiscriminator "EvtUpdateRewardFunder"
  withdrawDeadLiquidityReward := computeDiscriminator "EvtWithdrawDeadLiquidityReward"
  splitPosition3 := computeDiscriminator "EvtSplitPosition3"
  splitPosition2Deprecated := computeDiscriminator "EvtSplitPosition2"
  createPosition := computeDiscriminator "EvtCreatePosition"
  closePosition := computeDiscriminator "EvtClosePosition"
  lockPosition := computeDiscriminator "EvtLockPosition"
  permanentLockPosition := computeDiscriminator "EvtPermanentLockPosition"
  initializePool := computeDiscriminator "EvtInitializePool"
  setPoolStatus := computeDiscriminator "EvtSetPoolStatus"
  updatePoolFees := computeDiscriminator "EvtUpdatePoolFees"

end YogSothoth.Extraction
