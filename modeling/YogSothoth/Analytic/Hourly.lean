import YogSothoth.Analytic.RotationRuns
import YogSothoth.Core.Page
import YogSothoth.Framework.Aggregate

namespace YogSothoth.Analytic

/-- A row of `analytic_pool_hourly`, its key apart: the USD columns are NULL unless every tranche
of the hour is valued. -/
structure PoolHour where
  swapCount : Int
  usd : Option Usd

def PoolHour.valued (r : PoolHour) : Bool := r.usd.isSome

inductive ProtocolColumn where
  | volume
  | fees
  | lpFees
  | protocolFees
  | referralFees
  deriving DecidableEq

def ProtocolColumn.of : ProtocolColumn → Usd → ℚ
  | volume, u => u.volume
  | fees, u => u .fees
  | lpFees, u => u .lpFees
  | protocolFees, u => u .protocolFees
  | referralFees, u => u .referralFees

/-- A row of `analytic_protocol_hourly`, its key apart. -/
structure ProtocolHour where
  usd : ProtocolColumn → Option ℚ
  swapCount : Int
  activePools : Nat
  activePoolsValued : Nat

/-- A row of `analytic_liquidity_moves`. -/
structure LiquidityMove where
  timestamp : Int
  bucket : Int
  kind : LiquidityMoveKind
  amountUsd : Option ℚ

/-- A row of `analytic_protocol_liquidity_hourly`, its key apart. -/
structure LiquidityHour where
  createdUsd : ℚ
  addedUsd : ℚ
  removedUsd : ℚ
  moves : Nat
  movesValued : Nat

/-- What there is to value in a tranche: its pools' swaps, and the liquidity moves. -/
structure TrancheContents (P : Type*) where
  swaps : List (PoolTranche P)
  moves : List LiquidityMove

variable {P : Type*}

/-- The rows `value_liquidity_tranche` inserts: the moves of the tranche, under its bucket. -/
def trancheMoves (contents : Int → TrancheContents P) (bucket : Int) : List LiquidityMove :=
  ((contents bucket).moves.filter
    (fun m => bucket ≤ m.timestamp ∧ m.timestamp < bucket + tranche)).map
      (fun m => { m with bucket := bucket })

def writtenMoves (contents : Int → TrancheContents P) (start through : Int) :
    List LiquidityMove :=
  (series start through tranche).flatMap (trancheMoves contents)

namespace Hourly

/-- A group of facts summed. -/
def poolHour (group : List (PoolFact P)) : PoolHour where
  swapCount := (group.map (fun f => f.swapCount)).sum
  usd := if group.all PoolFact.valued then some (group.map (fun f => f.usd.getD 0)).sum else none

def hourKey (f : PoolFact P) : P ×ₗ Int := toLex (f.pool, hourOf f.bucket)

def selected (facts : List (PoolFact P)) (start through : Int) : List (PoolFact P) :=
  facts.filter (fun f => start ≤ f.bucket ∧ f.bucket < through + hour)

/-- An hour's pool rows summed: 0 only without any. -/
def protocolHour (rows : List PoolHour) : ProtocolHour where
  usd c := if rows.isEmpty then some 0 else sumOption (rows.map (fun r => r.usd.map c.of))
  swapCount := (rows.map PoolHour.swapCount).sum
  activePools := rows.length
  activePoolsValued := rows.countP PoolHour.valued

def movedUsd (moves : List LiquidityMove) (kind : LiquidityMoveKind) : ℚ :=
  ((moves.filter (fun m => m.kind = kind)).filterMap LiquidityMove.amountUsd).sum

def liquidityHour (moves : List LiquidityMove) : LiquidityHour where
  createdUsd := movedUsd moves .create
  addedUsd := movedUsd moves .add
  removedUsd := movedUsd moves .remove
  moves := moves.length
  movesValued := moves.countP (fun m => m.amountUsd.isSome)

def microsecond : Int := 1000

/-- Before the first hour written, the first one whose tranches are all valued with their moves. -/
def liquidityFloor (hourly : OrdMap Int LiquidityHour) (nextTranche : Int) : Int :=
  (hourly.first?.map Prod.fst).getD (hourOf (nextTranche - microsecond) + hour)

def upsertLiquidityHourly (hourly : OrdMap Int LiquidityHour) (moves : List LiquidityMove)
    (start through nextTranche : Int) : OrdMap Int LiquidityHour :=
  hourly.upsertAll (((series start through hour).filter
    (fun h => liquidityFloor hourly nextTranche ≤ h)).map (fun h =>
      (h, liquidityHour (moves.filter (fun m => h ≤ m.timestamp ∧ m.timestamp < h + hour)))))

variable [LinearOrder P]

def poolRows (facts : List (PoolFact P)) (start through : Int) : List ((P ×ₗ Int) × PoolHour) :=
  ((selected facts start through).map hourKey).dedup.map fun k =>
    (k, poolHour ((selected facts start through).filter (fun f => hourKey f = k)))

/-- The tranches of the hours, summed per pool and hour. -/
def upsertPoolHourly (hourly : OrdMap (P ×ₗ Int) PoolHour) (facts : List (PoolFact P))
    (start through : Int) : OrdMap (P ×ₗ Int) PoolHour :=
  hourly.upsertAll (poolRows facts start through)

def hourRows (hourly : OrdMap (P ×ₗ Int) PoolHour) (start through h : Int) : List PoolHour :=
  (hourly.entries.filter (fun e => (start ≤ (ofLex e.1).2 ∧ (ofLex e.1).2 ≤ through) ∧
    (ofLex e.1).2 = h)).map Prod.snd

/-- The pools' hours summed, an hour without any at 0. -/
def upsertProtocolHourly (hourly : OrdMap Int ProtocolHour) (pools : OrdMap (P ×ₗ Int) PoolHour)
    (start through : Int) : OrdMap Int ProtocolHour :=
  hourly.upsertAll ((series start through hour).map
    (fun h => (h, protocolHour (hourRows pools start through h))))

end Hourly

/-- The tables a cycle writes. -/
structure Analytics (P : Type*) [LinearOrder P] where
  tables : Tables
  facts : List (PoolFact P)
  moves : List LiquidityMove
  runs : RunTables P
  poolHourly : OrdMap (P ×ₗ Int) PoolHour
  protocolHourly : OrdMap Int ProtocolHour
  liquidityHourly : OrdMap Int LiquidityHour

variable [LinearOrder P]

namespace Analytics

def empty : Analytics P := ⟨.empty, [], [], .empty, ∅, ∅, ∅⟩

/-- The cycle as the lock lets it through, its tranches recorded: the runs drawn again when there is
one, the hours they are summed into, and the hours recorded and frozen. -/
def writeHours (contents : Int → TrancheContents P) (db : Analytics P) (cycle : CycleWrite)
    (tables : Tables) : Analytics P :=
  let facts := db.facts ++
    writtenFacts (fun b => (contents b).swaps) cycle.tranchesFrom cycle.tranchesThrough
  let moves := db.moves ++ writtenMoves contents cycle.tranchesFrom cycle.tranchesThrough
  let runs := if cycle.tranchesFrom ≤ cycle.tranchesThrough
    then db.runs.writeRotationRuns facts cycle.tranchesFrom cycle.tranchesThrough
    else db.runs
  let poolHourly := Hourly.upsertPoolHourly db.poolHourly facts cycle.from_ cycle.through
  let protocolHourly :=
    Hourly.upsertProtocolHourly db.protocolHourly poolHourly cycle.from_ cycle.through
  let liquidityHourly := Hourly.upsertLiquidityHourly db.liquidityHourly moves cycle.from_
    cycle.through cycle.tranchesFrom
  let tables := tables.recordHours cycle.from_ cycle.through
  let tables := match cycle.freezeThrough with
    | some through => tables.freeze cycle.from_ through cycle.at_
    | none => tables
  ⟨tables, facts, moves, runs, poolHourly, protocolHourly, liquidityHourly⟩

/-- One transaction: a tranche written twice fails it, and nothing is kept. -/
def writeCycle (contents : Int → TrancheContents P) (db : Analytics P) (cycle : CycleWrite) :
    Except RepositoryError (Analytics P × CycleWrite) :=
  let cycle := cycle.withoutWritten db.tables.progress
  (db.tables.recordTranches cycle.tranchesFrom cycle.tranchesThrough cycle.at_).map
    (fun tables => (db.writeHours contents cycle tables, cycle))

end Analytics

end YogSothoth.Analytic
