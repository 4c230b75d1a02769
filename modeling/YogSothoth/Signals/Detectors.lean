import YogSothoth.Core.Decimals
import YogSothoth.Framework.Isolation
import YogSothoth.Signals.Engine

namespace YogSothoth.Signals

def DETECTOR_FLOW_IMBALANCE : String := "flow_imbalance"

def DETECTOR_TVL_DRAIN : String := "tvl_drain"

variable (texts : Texts) (ar : RustDecimal)

/-- What an operator panics on is `none`. -/
abbrev Panics (α : Type) := Option α

/-- A row of the directional-flow query: NULL where the window is not entirely valuable. -/
structure PoolSwapFlowRow where
  poolAddress : String
  volumeAToBUsd : Option ℚ
  volumeBToAUsd : Option ℚ

structure PoolSwapFlow where
  poolAddress : Pubkey
  volumeAToBUsd : Option Decimal
  volumeBToAUsd : Option Decimal

def PoolSwapFlow.tryFrom (row : PoolSwapFlowRow) : Except RepositoryError PoolSwapFlow := do
  let poolAddress ← convertStringToPubkey texts row.poolAddress "pool_address"
  let volumeAToBUsd ←
    convertOptional row.volumeAToBUsd "volume_a_to_b_usd" ar.convertBigdecimalToDecimal
  let volumeBToAUsd ←
    convertOptional row.volumeBToAUsd "volume_b_to_a_usd" ar.convertBigdecimalToDecimal
  return ⟨poolAddress, volumeAToBUsd, volumeBToAUsd⟩

/-- A row of the liquidity-flow query: NULL where the window or the pool is not valued. -/
structure PoolLiquidityFlowRow where
  poolAddress : String
  addedUsd : Option ℚ
  removedUsd : Option ℚ
  tvlUsd : Option ℚ

structure PoolLiquidityFlow where
  poolAddress : Pubkey
  addedUsd : Option Decimal
  removedUsd : Option Decimal
  tvlUsd : Option Decimal

def PoolLiquidityFlow.tryFrom (row : PoolLiquidityFlowRow) :
    Except RepositoryError PoolLiquidityFlow := do
  let poolAddress ← convertStringToPubkey texts row.poolAddress "pool_address"
  let addedUsd ← convertOptional row.addedUsd "added_usd" ar.convertBigdecimalToDecimal
  let removedUsd ← convertOptional row.removedUsd "removed_usd" ar.convertBigdecimalToDecimal
  let tvlUsd ← convertOptional row.tvlUsd "tvl_usd" ar.convertBigdecimalToDecimal
  return ⟨poolAddress, addedUsd, removedUsd, tvlUsd⟩

/-- The thresholds of a detector, `floor` the starting TVL below which a pool is not considered. -/
structure DetectorSettings where
  floor : Decimal
  threshold : Decimal
  critical : Decimal

/-- What a tick stamps on its signals. -/
structure EvalContext where
  evaluatedAt : Instant
  protocol : Protocol

/-- The severity of a magnitude, with the threshold that justifies it. -/
def severityOf (settings : DetectorSettings) (magnitude : Decimal) : Severity × Decimal :=
  if settings.critical.value ≤ magnitude.value then (.critical, settings.critical)
  else (.warning, settings.threshold)

namespace FlowImbalanceDetector

def message (imbalance total : Decimal) : String :=
  "directional flow imbalance " ++ ar.print (ar.roundDp imbalance 4) ++ " (total volume $" ++
    ar.print (ar.roundDp total 2) ++ ")"

/-- What the loop makes of one flow: nothing, or a signal. -/
def judge (settings : DetectorSettings) (ctx : EvalContext) (flow : PoolSwapFlow) :
    Panics (Option Signal) :=
  match flow.volumeAToBUsd, flow.volumeBToAUsd with
  | some aToB, some bToA => do
    let total ← ar.add aToB bToA
    if total.value = 0 then return none
    let difference ← ar.sub aToB bToA
    let imbalance ← ar.div difference total
    let magnitude := ar.abs imbalance
    if magnitude.value < settings.threshold.value then return none
    let (severity, threshold) := severityOf settings magnitude
    return some ⟨DETECTOR_FLOW_IMBALANCE, ctx.protocol, flow.poolAddress, severity, imbalance,
      some threshold, some (message ar imbalance total), ctx.evaluatedAt⟩
  | _, _ => some none

/-- An evaluation on the rows its query returns. -/
def evaluate (settings : DetectorSettings) (ctx : EvalContext) (rows : List PoolSwapFlowRow) :
    Panics (Except DetectorError (List Signal)) :=
  judgeAll (fun row => (PoolSwapFlow.tryFrom texts ar row).mapError .repository)
    (judge ar settings ctx) rows

end FlowImbalanceDetector

namespace TvlDrainDetector

def message (drain netRemoved tvl : Decimal) : String :=
  "liquidity drain " ++ ar.print (ar.roundDp drain 4) ++ " (net $" ++
    ar.print (ar.roundDp netRemoved 2) ++ " removed, TVL now $" ++ ar.print (ar.roundDp tvl 2) ++ ")"

def judge (settings : DetectorSettings) (ctx : EvalContext) (flow : PoolLiquidityFlow) :
    Panics (Option Signal) :=
  match flow.tvlUsd with
  | none => some none
  | some tvl =>
    match flow.addedUsd, flow.removedUsd with
    | some added, some removed => do
      let netRemoved ← ar.sub removed added
      if netRemoved.value ≤ 0 then return none
      let startingTvl ← ar.add tvl netRemoved
      if startingTvl.value < settings.floor.value then return none
      let drain ← ar.div netRemoved startingTvl
      if drain.value < settings.threshold.value then return none
      let (severity, threshold) := severityOf settings drain
      return some ⟨DETECTOR_TVL_DRAIN, ctx.protocol, flow.poolAddress, severity, drain,
        some threshold, some (message ar drain netRemoved tvl), ctx.evaluatedAt⟩
    | _, _ => some none

def evaluate (settings : DetectorSettings) (ctx : EvalContext)
    (rows : List PoolLiquidityFlowRow) : Panics (Except DetectorError (List Signal)) :=
  judgeAll (fun row => (PoolLiquidityFlow.tryFrom texts ar row).mapError .repository)
    (judge ar settings ctx) rows

end TvlDrainDetector

/-- What a tick emits of an evaluation, with the stored signals it finds since an instant. -/
def emitted (detector : String) (found : List Signal) (since : Instant)
    (evaluated : Panics (Except DetectorError (List Signal))) :
    Panics (Except DetectorError (List Signal)) :=
  evaluated.map (fun result => result.map (fun candidates =>
    emittable candidates (latestSeverityByPool found detector since)))

/-- A pool's signals are those of its row alone, and no row fails the evaluation. -/
def Apart (pool : Pubkey) (among alone : Panics (Except DetectorError (List Signal))) : Prop :=
  ∃ signals own, among = some (.ok signals) ∧ alone = some (.ok own) ∧
    signals.filter (fun s => s.poolAddress = pool) = own

end YogSothoth.Signals
