import YogSothoth.Extraction.Translator
import YogSothoth.Framework.Aggregate
import YogSothoth.Framework.Nullable

namespace YogSothoth.Analytic

open Extraction (MeteoraDammV2SwapEvent TradeDirection)

/-- A row of `meteora_damm_v2_swap_events_5min`, its pool and bucket apart. -/
structure SwapEvents5min where
  (volumeInA volumeInB : Option ℚ)
  swapCount : Nat
  (feeInA feeInB protocolFeeInA protocolFeeInB referralFeeInA referralFeeInB : Option ℚ)
  (tradedA tradedB : ℚ)
  (feeInBOnBuys protocolFeeInBOnBuys referralFeeInBOnBuys : Option ℚ)

/-- `SUM(value) FILTER (WHERE p)`. -/
def sumFilter {α : Type*} (p : α → Bool) (value : α → Nat) (rows : List α) : Option ℚ :=
  sumOption ((rows.filter p).map (fun r => some (value r : ℚ)))

namespace Swap

variable (s : MeteoraDammV2SwapEvent)

def aToB : Bool := s.tradeDirection = .aToB

def bToA : Bool := s.tradeDirection = .bToA

def amountA : Nat := s.amountA.toNat

def amountB : Nat := s.amountB.toNat

def protocolFee : Nat := s.protocolFee.toNat

def referralFee : Nat := s.referralFee.toNat

/-- `claiming_fee + protocol_fee + compounding_fee + referral_fee`. -/
def fee : Nat :=
  s.claimingFee.toNat + s.protocolFee.toNat + s.compoundingFee.toNat + s.referralFee.toNat

def feeInA : Bool := s.feeTokenIsA

def feeInB : Bool := !s.feeTokenIsA

def feeInBOnBuys : Bool := bToA s && !s.feeTokenIsA

end Swap

/-- The aggregate's row of a pool's swaps of a tranche; a group has a swap. -/
def swapEvents5min (swaps : List MeteoraDammV2SwapEvent) : SwapEvents5min where
  volumeInA := sumFilter Swap.aToB Swap.amountA swaps
  volumeInB := sumFilter Swap.bToA Swap.amountB swaps
  swapCount := swaps.length
  feeInA := sumFilter Swap.feeInA Swap.fee swaps
  feeInB := sumFilter Swap.feeInB Swap.fee swaps
  protocolFeeInA := sumFilter Swap.feeInA Swap.protocolFee swaps
  protocolFeeInB := sumFilter Swap.feeInB Swap.protocolFee swaps
  referralFeeInA := sumFilter Swap.feeInA Swap.referralFee swaps
  referralFeeInB := sumFilter Swap.feeInB Swap.referralFee swaps
  tradedA := (swaps.map (fun s => (Swap.amountA s : ℚ))).sum
  tradedB := (swaps.map (fun s => (Swap.amountB s : ℚ))).sum
  feeInBOnBuys := sumFilter Swap.feeInBOnBuys Swap.fee swaps
  protocolFeeInBOnBuys := sumFilter Swap.feeInBOnBuys Swap.protocolFee swaps
  referralFeeInBOnBuys := sumFilter Swap.feeInBOnBuys Swap.referralFee swaps

def yogTokenAmount (amount : ℚ) (decimals : Option Int) : Option ℚ :=
  decimals.map (fun d => amount / 10 ^ d)

def yogAmountUsd (amount : ℚ) (decimals : Option Int) (priceUsd : Option ℚ) : Option ℚ :=
  Option.map₂ (· * ·) (yogTokenAmount amount decimals) priceUsd

/-- What moved nothing is worth zero without a price or a scale. -/
def yogMovedAmountUsd (amount : ℚ) (decimals : Option Int) (priceUsd : Option ℚ) : Option ℚ :=
  if amount = 0 then some 0 else yogAmountUsd amount decimals priceUsd

inductive Token where
  | a
  | b
  deriving DecidableEq

inductive Trust where
  | a
  | b
  | both
  deriving DecidableEq

/-- A pool's tokens in the tranche: decimals, market prices, and the anchor. -/
structure Quoted where
  (decA decB : Option Int)
  (marketA marketB : Option ℚ)
  anchor : Option Token

/-- The token whose leg values the flows: the anchor, else the other, with a market price and
decimals; both on a tie. -/
def Quoted.trust (q : Quoted) : Option Trust :=
  let aOk := q.marketA.isSome && q.decA.isSome
  let bOk := q.marketB.isSome && q.decB.isSome
  if q.anchor = some .a ∧ aOk then some .a
  else if q.anchor = some .b ∧ bOk then some .b
  else if aOk && bOk then some .both
  else if aOk then some .a
  else if bOk then some .b
  else none

namespace SwapEvents5min

variable (t : SwapEvents5min) (q : Quoted)

/-- The sales' B fees are what the buys' leave. -/
def soldFeeB : ℚ := t.feeInB.getD 0 - t.feeInBOnBuys.getD 0

def soldProtocolB : ℚ := t.protocolFeeInB.getD 0 - t.protocolFeeInBOnBuys.getD 0

def soldReferralB : ℚ := t.referralFeeInB.getD 0 - t.referralFeeInBOnBuys.getD 0

/-- Each direction's gross output in raw units: its output, and the fee taken on it. -/
def outA : ℚ := t.tradedA - t.volumeInA.getD 0 + t.feeInA.getD 0

def outB : ℚ := t.tradedB - t.volumeInB.getD 0 + t.soldFeeB

/-- Each direction's gross at market price, by either leg. -/
def aToBByA : Option ℚ := yogMovedAmountUsd (t.volumeInA.getD 0) q.decA q.marketA

def aToBByB : Option ℚ := yogMovedAmountUsd t.outB q.decB q.marketB

def bToAByB : Option ℚ := yogMovedAmountUsd (t.volumeInB.getD 0) q.decB q.marketB

/-- Nothing out is worth nothing. -/
def bToAByA : Option ℚ :=
  if t.volumeInB.getD 0 = 0 ∨ t.outA = 0 then some 0
  else Option.map₂ (· / ·)
    (Option.map₂ (· * ·) (yogMovedAmountUsd t.outA q.decA q.marketA) t.volumeInB)
    (nullifZero (t.volumeInB.getD 0 - t.feeInBOnBuys.getD 0))

def aToB : Option ℚ :=
  match q.trust with
  | some .a => t.aToBByA q
  | some .b => t.aToBByB q
  | some .both => least (t.aToBByA q) (t.aToBByB q)
  | none => none

def bToA : Option ℚ :=
  match q.trust with
  | some .b => t.bToAByB q
  | some .a => t.bToAByA q
  | some .both => least (t.bToAByB q) (t.bToAByA q)
  | none => none

/-- USD per raw unit of each fee: in a trusted token at its market price, otherwise at its share of
the gross of the direction that paid it. -/
def perA : Option ℚ :=
  if t.feeInA.getD 0 = 0 then some 0
  else if q.trust = some .b then Option.map₂ (· / ·) (t.bToAByB q) (nullifZero t.outA)
  else yogAmountUsd 1 q.decA q.marketA

def saleB : Option ℚ :=
  if t.soldFeeB = 0 then some 0
  else if q.trust = some .a then Option.map₂ (· / ·) (t.aToBByA q) (nullifZero t.outB)
  else yogAmountUsd 1 q.decB q.marketB

def buyB : Option ℚ :=
  if t.feeInBOnBuys.getD 0 = 0 then some 0
  else if q.trust = some .a then
    Option.map₂ (· / ·) (t.bToAByA q) (nullifZero (t.volumeInB.getD 0))
  else yogAmountUsd 1 q.decB q.marketB

def valued : Bool :=
  q.trust.isSome && (t.aToB q).isSome && (t.bToA q).isSome && (t.perA q).isSome &&
    (t.saleB q).isSome && (t.buyB q).isSome

/-- A fee of three parts at its three prices. -/
def feeUsd (inA sold onBuys : ℚ) : Option ℚ :=
  if t.valued q then
    Option.map₂ (· + ·) (Option.map₂ (· + ·) ((t.perA q).map (inA * ·)) ((t.saleB q).map (sold * ·)))
      ((t.buyB q).map (onBuys * ·))
  else none

def feesUsd : Option ℚ := t.feeUsd q (t.feeInA.getD 0) t.soldFeeB (t.feeInBOnBuys.getD 0)

def protocolFeesUsd : Option ℚ :=
  t.feeUsd q (t.protocolFeeInA.getD 0) t.soldProtocolB (t.protocolFeeInBOnBuys.getD 0)

def referralFeesUsd : Option ℚ :=
  t.feeUsd q (t.referralFeeInA.getD 0) t.soldReferralB (t.referralFeeInBOnBuys.getD 0)

end SwapEvents5min

/-- A row of `analytic_pool_5min`, its pool, bucket, protocol and rotation apart. -/
structure Pool5min where
  swapCount : Nat
  valued : Bool
  (volumeInAUsd volumeInBUsd feesUsd lpFeesUsd protocolFeesUsd referralFeesUsd : Option ℚ)

/-- The row the tranche's statement inserts for a pool. -/
def pool5min (t : SwapEvents5min) (q : Quoted) : Pool5min where
  swapCount := t.swapCount
  valued := t.valued q
  volumeInAUsd := if t.valued q then t.aToB q else none
  volumeInBUsd := if t.valued q then t.bToA q else none
  feesUsd := t.feesUsd q
  lpFeesUsd := Option.map₂ (· - ·) (Option.map₂ (· - ·) (t.feesUsd q) (t.protocolFeesUsd q))
    (t.referralFeesUsd q)
  protocolFeesUsd := t.protocolFeesUsd q
  referralFeesUsd := t.referralFeesUsd q

end YogSothoth.Analytic
