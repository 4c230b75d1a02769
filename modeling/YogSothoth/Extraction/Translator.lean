import YogSothoth.Projection.PoolCurrentState
import YogSothoth.Extraction.Events
import YogSothoth.Framework.Fallible

namespace YogSothoth.Extraction

open Projection (EventPosition LiquidityEventKind)

inductive TradeDirection where
  | aToB
  | bToA
  deriving DecidableEq

def TradeDirection.fromU8 (v : UInt8) : Except UInt8 TradeDirection :=
  if v = 0 then .ok .aToB else if v = 1 then .ok .bToA else .error v

def liquidityEventKindFromU8 (v : UInt8) : Except UInt8 LiquidityEventKind :=
  if v = 0 then .ok .add else if v = 1 then .ok .remove else .error v

inductive TranslationError where
  | invalidEnum (field : String) (value : UInt8)

def TranslationError.toString : TranslationError → String
  | .invalidEnum field value => "invalid " ++ field ++ " value: " ++ ToString.toString value

structure MeteoraDammV2SwapEvent extends EventPosition where
  poolAddress : Pubkey
  tradeDirection : TradeDirection
  (amountA amountB reserveAAfter reserveBAfter : UInt64)
  nextSqrtPrice : BitVec 128
  (claimingFee protocolFee compoundingFee referralFee : UInt64)
  feeTokenIsA : Bool

structure MeteoraDammV2LiquidityEvent extends EventPosition where
  poolAddress : Pubkey
  liquidityEventKind : LiquidityEventKind
  (amountA amountB : UInt64)
  liquidityDelta : BitVec 128
  (reserveAAfter reserveBAfter : UInt64)
  (position owner : Pubkey)

structure MeteoraDammV2ClaimPositionFeeEvent extends EventPosition where
  (poolAddress position owner : Pubkey)
  (feeAClaimed feeBClaimed : UInt64)

structure MeteoraDammV2ClaimRewardEvent extends EventPosition where
  (poolAddress position owner mintReward : Pubkey)
  rewardIndex : UInt8
  totalReward : UInt64

structure MeteoraDammV2ClaimProtocolFeeEvent extends EventPosition where
  poolAddress : Pubkey
  (tokenAAmount tokenBAmount : UInt64)

structure MeteoraDammV2InitializeRewardEvent extends EventPosition where
  (poolAddress rewardMint funder creator : Pubkey)
  rewardIndex : UInt8
  rewardDuration : UInt64

structure MeteoraDammV2FundRewardEvent extends EventPosition where
  (poolAddress funder mintReward : Pubkey)
  rewardIndex : UInt8
  (amount transferFeeExcludedAmountIn rewardDurationEnd : UInt64)
  (preRewardRate postRewardRate : BitVec 128)

structure MeteoraDammV2WithdrawIneligibleRewardEvent extends EventPosition where
  (poolAddress rewardMint : Pubkey)
  amount : UInt64

structure MeteoraDammV2UpdateRewardDurationEvent extends EventPosition where
  poolAddress : Pubkey
  rewardIndex : UInt8
  (oldRewardDuration newRewardDuration : UInt64)

structure MeteoraDammV2UpdateRewardFunderEvent extends EventPosition where
  poolAddress : Pubkey
  rewardIndex : UInt8
  (oldFunder newFunder : Pubkey)

structure MeteoraDammV2WithdrawDeadLiquidityRewardEvent extends EventPosition where
  (poolAddress rewardMint : Pubkey)
  amount : UInt64

structure MeteoraDammV2SplitAmounts where
  (permanentLockedLiquidity unlockedLiquidity vestedLiquidity : BitVec 128)
  (feeA feeB reward0 reward1 : UInt64)

structure MeteoraDammV2SplitPositionState where
  (unlockedLiquidity permanentLockedLiquidity vestedLiquidity : BitVec 128)
  (feeA feeB reward0 reward1 : UInt64)

structure MeteoraDammV2SplitNumerators where
  (unlockedLiquidity permanentLockedLiquidity feeA feeB reward0 reward1 : UInt32)
  innerVestingLiquidity : UInt32

structure MeteoraDammV2SplitPositionEvent extends EventPosition where
  (poolAddress firstOwner secondOwner firstPosition secondPosition : Pubkey)
  currentSqrtPrice : BitVec 128
  amounts : MeteoraDammV2SplitAmounts
  (firstPositionAfter secondPositionAfter : MeteoraDammV2SplitPositionState)
  numerators : MeteoraDammV2SplitNumerators

structure MeteoraDammV2CreatePositionEvent extends EventPosition where
  (poolAddress owner position positionNftMint : Pubkey)

structure MeteoraDammV2ClosePositionEvent extends EventPosition where
  (poolAddress owner position positionNftMint : Pubkey)

structure MeteoraDammV2LockPositionEvent extends EventPosition where
  (poolAddress position owner vesting : Pubkey)
  (cliffPoint periodFrequency : UInt64)
  (cliffUnlockLiquidity liquidityPerPeriod : BitVec 128)
  numberOfPeriod : UInt16

structure MeteoraDammV2PermanentLockPositionEvent extends EventPosition where
  (poolAddress position : Pubkey)
  (lockLiquidityAmount totalPermanentLockedLiquidity : BitVec 128)

structure MeteoraDammV2InitializePoolEvent extends EventPosition where
  (poolAddress tokenAMint tokenBMint creator payer alphaVault : Pubkey)
  (sqrtMinPrice sqrtMaxPrice sqrtPrice liquidity : BitVec 128)
  activationType : UInt8
  activationPoint : UInt64
  (collectFeeMode poolType tokenAFlag tokenBFlag : UInt8)
  (tokenAAmount tokenBAmount totalAmountA totalAmountB : UInt64)
  poolFeesRaw : List UInt8

structure MeteoraDammV2SetPoolStatusEvent extends EventPosition where
  poolAddress : Pubkey
  status : UInt8

structure MeteoraDammV2UpdatePoolFeesEvent extends EventPosition where
  (poolAddress operator : Pubkey)
  paramsRaw : List UInt8

/-- Whether the fee was charged on token A: mode 0 charges the output token, 1 and 2 token B. -/
def computeFeeTokenIsA (collectFeeMode : UInt8) (tradeDirection : TradeDirection) :
    Except UInt8 Bool :=
  if collectFeeMode = 0 then .ok (decide (tradeDirection = .bToA))
  else if collectFeeMode = 1 then .ok false
  else if collectFeeMode = 2 then .ok false
  else .error collectFeeMode

def translateSwap (wire : EvtSwap2) (eventPosition : EventPosition) :
    Except TranslationError MeteoraDammV2SwapEvent := do
  let tradeDirection ← (TradeDirection.fromU8 wire.tradeDirection).mapError
    (TranslationError.invalidEnum "trade_direction")
  let feeTokenIsA ← (computeFeeTokenIsA wire.collectFeeMode tradeDirection).mapError
    (TranslationError.invalidEnum "collect_fee_mode")
  let (amountA, amountB) := match tradeDirection with
    | .aToB => (wire.includedTransferFeeAmountIn, wire.includedTransferFeeAmountOut)
    | .bToA => (wire.includedTransferFeeAmountOut, wire.includedTransferFeeAmountIn)
  return {
    toEventPosition := eventPosition, poolAddress := wire.pool, tradeDirection, amountA, amountB,
    reserveAAfter := wire.reserveAAmount, reserveBAfter := wire.reserveBAmount,
    nextSqrtPrice := wire.swapResult.nextSqrtPrice, claimingFee := wire.swapResult.claimingFee,
    protocolFee := wire.swapResult.protocolFee,
    compoundingFee := wire.swapResult.compoundingFee,
    referralFee := wire.swapResult.referralFee, feeTokenIsA }

def translateLiquidity (wire : EvtLiquidityChange) (eventPosition : EventPosition) :
    Except TranslationError MeteoraDammV2LiquidityEvent := do
  let liquidityEventKind ← (liquidityEventKindFromU8 wire.changeType).mapError
    (TranslationError.invalidEnum "change_type")
  return {
    toEventPosition := eventPosition, poolAddress := wire.pool, liquidityEventKind,
    amountA := wire.tokenAAmount, amountB := wire.tokenBAmount,
    liquidityDelta := wire.liquidityDelta, reserveAAfter := wire.reserveAAmount,
    reserveBAfter := wire.reserveBAmount, position := wire.position, owner := wire.owner }

def translateClaimPositionFee (wire : EvtClaimPositionFee) (eventPosition : EventPosition) :
    MeteoraDammV2ClaimPositionFeeEvent :=
  { toEventPosition := eventPosition, poolAddress := wire.pool, position := wire.position,
    owner := wire.owner, feeAClaimed := wire.feeAClaimed, feeBClaimed := wire.feeBClaimed }

def translateClaimReward (wire : EvtClaimReward) (eventPosition : EventPosition) :
    MeteoraDammV2ClaimRewardEvent :=
  { toEventPosition := eventPosition, poolAddress := wire.pool, position := wire.position,
    owner := wire.owner, mintReward := wire.mintReward, rewardIndex := wire.rewardIndex,
    totalReward := wire.totalReward }

def translateClaimProtocolFee (wire : EvtClaimProtocolFee) (eventPosition : EventPosition) :
    MeteoraDammV2ClaimProtocolFeeEvent :=
  { toEventPosition := eventPosition, poolAddress := wire.pool, tokenAAmount := wire.tokenAAmount,
    tokenBAmount := wire.tokenBAmount }

def translateInitializeReward (wire : EvtInitializeReward) (eventPosition : EventPosition) :
    MeteoraDammV2InitializeRewardEvent :=
  { toEventPosition := eventPosition, poolAddress := wire.pool, rewardMint := wire.rewardMint,
    funder := wire.funder, creator := wire.creator, rewardIndex := wire.rewardIndex,
    rewardDuration := wire.rewardDuration }

def translateFundReward (wire : EvtFundReward) (eventPosition : EventPosition) :
    MeteoraDammV2FundRewardEvent :=
  { toEventPosition := eventPosition, poolAddress := wire.pool, funder := wire.funder,
    mintReward := wire.mintReward, rewardIndex := wire.rewardIndex, amount := wire.amount,
    transferFeeExcludedAmountIn := wire.transferFeeExcludedAmountIn,
    rewardDurationEnd := wire.rewardDurationEnd, preRewardRate := wire.preRewardRate,
    postRewardRate := wire.postRewardRate }

def translateWithdrawIneligibleReward (wire : EvtWithdrawIneligibleReward)
    (eventPosition : EventPosition) : MeteoraDammV2WithdrawIneligibleRewardEvent :=
  { toEventPosition := eventPosition, poolAddress := wire.pool, rewardMint := wire.rewardMint,
    amount := wire.amount }

def translateUpdateRewardDuration (wire : EvtUpdateRewardDuration)
    (eventPosition : EventPosition) : MeteoraDammV2UpdateRewardDurationEvent :=
  { toEventPosition := eventPosition, poolAddress := wire.pool, rewardIndex := wire.rewardIndex,
    oldRewardDuration := wire.oldRewardDuration, newRewardDuration := wire.newRewardDuration }

def translateUpdateRewardFunder (wire : EvtUpdateRewardFunder) (eventPosition : EventPosition) :
    MeteoraDammV2UpdateRewardFunderEvent :=
  { toEventPosition := eventPosition, poolAddress := wire.pool, rewardIndex := wire.rewardIndex,
    oldFunder := wire.oldFunder, newFunder := wire.newFunder }

def translateWithdrawDeadLiquidityReward (wire : EvtWithdrawDeadLiquidityReward)
    (eventPosition : EventPosition) : MeteoraDammV2WithdrawDeadLiquidityRewardEvent :=
  { toEventPosition := eventPosition, poolAddress := wire.pool, rewardMint := wire.rewardMint,
    amount := wire.amount }

def splitPositionState (i : SplitPositionInfo2) : MeteoraDammV2SplitPositionState :=
  { unlockedLiquidity := i.unlockedLiquidity,
    permanentLockedLiquidity := i.permanentLockedLiquidity,
    vestedLiquidity := i.vestedLiquidity, feeA := i.feeA, feeB := i.feeB,
    reward0 := i.reward0, reward1 := i.reward1 }

def translateSplitPosition (wire : EvtSplitPosition3) (eventPosition : EventPosition) :
    MeteoraDammV2SplitPositionEvent :=
  let a := wire.amountSplits
  let p := wire.splitPositionParameters
  { toEventPosition := eventPosition, poolAddress := wire.pool, firstOwner := wire.firstOwner,
    secondOwner := wire.secondOwner, firstPosition := wire.firstPosition,
    secondPosition := wire.secondPosition, currentSqrtPrice := wire.currentSqrtPrice
    amounts :=
      { permanentLockedLiquidity := a.permanentLockedLiquidity,
        unlockedLiquidity := a.unlockedLiquidity, vestedLiquidity := a.vestedLiquidity,
        feeA := a.feeA, feeB := a.feeB, reward0 := a.reward0, reward1 := a.reward1 }
    firstPositionAfter := splitPositionState wire.firstPositionInfo
    secondPositionAfter := splitPositionState wire.secondPositionInfo
    numerators :=
      { unlockedLiquidity := p.unlockedLiquidityNumerator,
        permanentLockedLiquidity := p.permanentLockedLiquidityNumerator,
        feeA := p.feeANumerator, feeB := p.feeBNumerator, reward0 := p.reward0Numerator,
        reward1 := p.reward1Numerator,
        innerVestingLiquidity := p.innerVestingLiquidityNumerator } }

def translateCreatePosition (wire : EvtCreatePosition) (eventPosition : EventPosition) :
    MeteoraDammV2CreatePositionEvent :=
  { toEventPosition := eventPosition, poolAddress := wire.pool, owner := wire.owner,
    position := wire.position, positionNftMint := wire.positionNftMint }

def translateClosePosition (wire : EvtClosePosition) (eventPosition : EventPosition) :
    MeteoraDammV2ClosePositionEvent :=
  { toEventPosition := eventPosition, poolAddress := wire.pool, owner := wire.owner,
    position := wire.position, positionNftMint := wire.positionNftMint }

def translateLockPosition (wire : EvtLockPosition) (eventPosition : EventPosition) :
    MeteoraDammV2LockPositionEvent :=
  { toEventPosition := eventPosition, poolAddress := wire.pool, position := wire.position,
    owner := wire.owner, vesting := wire.vesting, cliffPoint := wire.cliffPoint,
    periodFrequency := wire.periodFrequency, cliffUnlockLiquidity := wire.cliffUnlockLiquidity,
    liquidityPerPeriod := wire.liquidityPerPeriod, numberOfPeriod := wire.numberOfPeriod }

def translatePermanentLockPosition (wire : EvtPermanentLockPosition)
    (eventPosition : EventPosition) : MeteoraDammV2PermanentLockPositionEvent :=
  { toEventPosition := eventPosition, poolAddress := wire.pool, position := wire.position,
    lockLiquidityAmount := wire.lockLiquidityAmount,
    totalPermanentLockedLiquidity := wire.totalPermanentLockedLiquidity }

def translateInitializePool (wire : EvtInitializePool) (eventPosition : EventPosition) :
    MeteoraDammV2InitializePoolEvent :=
  { toEventPosition := eventPosition, poolAddress := wire.pool, tokenAMint := wire.tokenAMint,
    tokenBMint := wire.tokenBMint, creator := wire.creator, payer := wire.payer,
    alphaVault := wire.alphaVault, sqrtMinPrice := wire.sqrtMinPrice,
    sqrtMaxPrice := wire.sqrtMaxPrice, sqrtPrice := wire.sqrtPrice, liquidity := wire.liquidity,
    activationType := wire.activationType, activationPoint := wire.activationPoint,
    collectFeeMode := wire.collectFeeMode, poolType := wire.poolType,
    tokenAFlag := wire.tokenAFlag, tokenBFlag := wire.tokenBFlag,
    tokenAAmount := wire.tokenAAmount, tokenBAmount := wire.tokenBAmount,
    totalAmountA := wire.totalAmountA, totalAmountB := wire.totalAmountB,
    poolFeesRaw := Borsh.serialize wire.poolFees }

def translateSetPoolStatus (wire : EvtSetPoolStatus) (eventPosition : EventPosition) :
    MeteoraDammV2SetPoolStatusEvent :=
  { toEventPosition := eventPosition, poolAddress := wire.pool, status := wire.status }

def translateUpdatePoolFees (wire : EvtUpdatePoolFees) (eventPosition : EventPosition) :
    MeteoraDammV2UpdatePoolFeesEvent :=
  { toEventPosition := eventPosition, poolAddress := wire.pool, operator := wire.operator,
    paramsRaw := wire.paramsRaw }

inductive MeteoraDammV2Event where
  | swap (e : MeteoraDammV2SwapEvent)
  | liquidity (e : MeteoraDammV2LiquidityEvent)
  | claimPositionFee (e : MeteoraDammV2ClaimPositionFeeEvent)
  | claimReward (e : MeteoraDammV2ClaimRewardEvent)
  | claimProtocolFee (e : MeteoraDammV2ClaimProtocolFeeEvent)
  | initializeReward (e : MeteoraDammV2InitializeRewardEvent)
  | fundReward (e : MeteoraDammV2FundRewardEvent)
  | withdrawIneligibleReward (e : MeteoraDammV2WithdrawIneligibleRewardEvent)
  | updateRewardDuration (e : MeteoraDammV2UpdateRewardDurationEvent)
  | updateRewardFunder (e : MeteoraDammV2UpdateRewardFunderEvent)
  | withdrawDeadLiquidityReward (e : MeteoraDammV2WithdrawDeadLiquidityRewardEvent)
  | splitPosition (e : MeteoraDammV2SplitPositionEvent)
  | createPosition (e : MeteoraDammV2CreatePositionEvent)
  | closePosition (e : MeteoraDammV2ClosePositionEvent)
  | lockPosition (e : MeteoraDammV2LockPositionEvent)
  | permanentLockPosition (e : MeteoraDammV2PermanentLockPositionEvent)
  | initializePool (e : MeteoraDammV2InitializePoolEvent)
  | setPoolStatus (e : MeteoraDammV2SetPoolStatusEvent)
  | updatePoolFees (e : MeteoraDammV2UpdatePoolFeesEvent)

/-- Where the event sits in the chain, which every kind carries in its own fields. -/
def MeteoraDammV2Event.eventPosition : MeteoraDammV2Event → EventPosition
  | .swap e => e.toEventPosition
  | .liquidity e => e.toEventPosition
  | .claimPositionFee e => e.toEventPosition
  | .claimReward e => e.toEventPosition
  | .claimProtocolFee e => e.toEventPosition
  | .initializeReward e => e.toEventPosition
  | .fundReward e => e.toEventPosition
  | .withdrawIneligibleReward e => e.toEventPosition
  | .updateRewardDuration e => e.toEventPosition
  | .updateRewardFunder e => e.toEventPosition
  | .withdrawDeadLiquidityReward e => e.toEventPosition
  | .splitPosition e => e.toEventPosition
  | .createPosition e => e.toEventPosition
  | .closePosition e => e.toEventPosition
  | .lockPosition e => e.toEventPosition
  | .permanentLockPosition e => e.toEventPosition
  | .initializePool e => e.toEventPosition
  | .setPoolStatus e => e.toEventPosition
  | .updatePoolFees e => e.toEventPosition

inductive DomainEvent where
  | meteoraDammV2 (e : MeteoraDammV2Event)

def DomainEvent.eventPosition : DomainEvent → EventPosition
  | .meteoraDammV2 e => e.eventPosition

def translateDammV2 (wire : DammV2WireEvent) (eventPosition : EventPosition) :
    Except TranslationError MeteoraDammV2Event :=
  match wire with
  | .swap2 e => do return .swap (← translateSwap e eventPosition)
  | .liquidityChange e => do return .liquidity (← translateLiquidity e eventPosition)
  | .claimPositionFee e => .ok (.claimPositionFee (translateClaimPositionFee e eventPosition))
  | .claimReward e => .ok (.claimReward (translateClaimReward e eventPosition))
  | .claimProtocolFee e => .ok (.claimProtocolFee (translateClaimProtocolFee e eventPosition))
  | .initializeReward e => .ok (.initializeReward (translateInitializeReward e eventPosition))
  | .fundReward e => .ok (.fundReward (translateFundReward e eventPosition))
  | .withdrawIneligibleReward e =>
      .ok (.withdrawIneligibleReward (translateWithdrawIneligibleReward e eventPosition))
  | .updateRewardDuration e =>
      .ok (.updateRewardDuration (translateUpdateRewardDuration e eventPosition))
  | .updateRewardFunder e => .ok (.updateRewardFunder (translateUpdateRewardFunder e eventPosition))
  | .withdrawDeadLiquidityReward e =>
      .ok (.withdrawDeadLiquidityReward (translateWithdrawDeadLiquidityReward e eventPosition))
  | .splitPosition3 e => .ok (.splitPosition (translateSplitPosition e eventPosition))
  | .createPosition e => .ok (.createPosition (translateCreatePosition e eventPosition))
  | .closePosition e => .ok (.closePosition (translateClosePosition e eventPosition))
  | .lockPosition e => .ok (.lockPosition (translateLockPosition e eventPosition))
  | .permanentLockPosition e =>
      .ok (.permanentLockPosition (translatePermanentLockPosition e eventPosition))
  | .initializePool e => .ok (.initializePool (translateInitializePool e eventPosition))
  | .setPoolStatus e => .ok (.setPoolStatus (translateSetPoolStatus e eventPosition))
  | .updatePoolFees e => .ok (.updatePoolFees (translateUpdatePoolFees e eventPosition))

def translateWireEvent (wire : DammV2WireEvent) (eventPosition : EventPosition) :
    Except TranslationError DomainEvent := do
  return .meteoraDammV2 (← translateDammV2 wire eventPosition)

theorem translateSwap_position {wire : EvtSwap2} {at_ : EventPosition}
    {e : MeteoraDammV2SwapEvent} (h : translateSwap wire at_ = .ok e) :
    e.toEventPosition = at_ := by
  unfold translateSwap at h
  cases hd : TradeDirection.fromU8 wire.tradeDirection with
  | error v => rw [hd] at h; cases h
  | ok direction =>
    cases hf : computeFeeTokenIsA wire.collectFeeMode direction with
    | error v => rw [hd] at h; simp only [Except.mapError, bind, Except.bind, hf] at h; cases h
    | ok isA =>
      rw [hd] at h
      simp only [Except.mapError, bind, Except.bind, hf] at h
      cases h
      rfl

theorem translateLiquidity_position {wire : EvtLiquidityChange} {at_ : EventPosition}
    {e : MeteoraDammV2LiquidityEvent} (h : translateLiquidity wire at_ = .ok e) :
    e.toEventPosition = at_ := by
  unfold translateLiquidity at h
  cases hk : liquidityEventKindFromU8 wire.changeType with
  | error v => rw [hk] at h; cases h
  | ok kind => rw [hk] at h; cases h; rfl

/-- Every translator keeps the position it is given. -/
theorem translateDammV2_position {wire : DammV2WireEvent} {at_ : EventPosition}
    {e : MeteoraDammV2Event} (h : translateDammV2 wire at_ = .ok e) : e.eventPosition = at_ := by
  cases wire with
  | swap2 w =>
    obtain ⟨swap, hswap, he⟩ := bind_eq_ok h
    cases he
    exact translateSwap_position hswap
  | liquidityChange w =>
    obtain ⟨liquidity, hliquidity, he⟩ := bind_eq_ok h
    cases he
    exact translateLiquidity_position hliquidity
  | _ => cases h; rfl

theorem translateWireEvent_position {wire : DammV2WireEvent} {at_ : EventPosition}
    {e : DomainEvent} (h : translateWireEvent wire at_ = .ok e) : e.eventPosition = at_ := by
  obtain ⟨inner, hinner, he⟩ := bind_eq_ok h
  cases he
  exact translateDammV2_position hinner

end YogSothoth.Extraction
