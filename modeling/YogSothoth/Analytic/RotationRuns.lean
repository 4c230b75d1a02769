import Mathlib
import YogSothoth.Analytic.Run
import YogSothoth.Framework.Islands
import YogSothoth.Framework.OrdTable

namespace YogSothoth.Analytic

/-- A tranche is marked when its quoted side traded this many times its mean reserve. -/
def runRotation : ℚ := 1

/-- The longest gap between two marked tranches of one run. -/
def runGap : Int := minutes 30

/-- The USD columns of a fact. -/
inductive UsdColumn where
  | volumeInA
  | volumeInB
  | fees
  | lpFees
  | protocolFees
  | referralFees
  deriving DecidableEq

abbrev Usd := UsdColumn → ℚ

def Usd.volume (u : Usd) : ℚ := u .volumeInA + u .volumeInB

/-- What one tranche says of a pool. The USD columns are NULL exactly when it is not valued. -/
structure PoolTranche (P : Type*) where
  pool : P
  swapCount : Int
  usd : Option Usd
  rotation : Option ℚ

/-- A row of `analytic_pool_5min`. -/
structure PoolFact (P : Type*) extends PoolTranche P where
  bucket : Int

variable {P : Type*}

namespace PoolFact

def valued (f : PoolFact P) : Bool := f.usd.isSome

def marked (f : PoolFact P) : Bool := f.rotation.any (fun rotation => runRotation ≤ rotation)

/-- `volume_in_a_usd + volume_in_b_usd`, of a valued fact. -/
def volume (f : PoolFact P) : ℚ := (f.usd.map Usd.volume).getD 0

end PoolFact

/-- The rows `value_tranche` inserts: the tranche's contents under its bucket. -/
def trancheFacts (contents : Int → List (PoolTranche P)) (bucket : Int) : List (PoolFact P) :=
  (contents bucket).map (fun c => { c with bucket := bucket })

def writtenFacts (contents : Int → List (PoolTranche P)) (start through : Int) :
    List (PoolFact P) :=
  (series start through tranche).flatMap (trancheFacts contents)

/-- A row of `analytic_rotation_runs`, its key apart. -/
structure RotationRun where
  endedAt : Int
  volumeUsd : ℚ
  firstHourVolumeUsd : ℚ
  extinct : Bool
  settled : Bool
  deriving DecidableEq

/-- The marked tranches of a pool that make one run, by the first and the last. -/
@[ext] structure Island (P : Type*) where
  pool : P
  startedAt : Int
  last : Int

variable [LinearOrder P]

/-- `analytic_rotation_runs` and `analytic_rotation_run_hours`, under their primary keys. -/
structure RunTables (P : Type*) [LinearOrder P] where
  runs : OrdMap (P ×ₗ Int) RotationRun
  hours : OrdMap (P ×ₗ Int ×ₗ Int) ℚ

namespace Island

def key (i : Island P) : P ×ₗ Int := toLex (i.pool, i.startedAt)

def hourKey (i : Island P) (bucket : Int) : P ×ₗ Int ×ₗ Int :=
  toLex (i.pool, toLex (i.startedAt, bucket))

end Island

namespace RotationRuns

/-- The first bucket whose mark still counts for a cycle that starts at `start`. -/
def drawnFrom (start : Int) : Int := start - max runGap hour

/-- The pools marked since. -/
def recent (facts : List (PoolFact P)) (start through : Int) : List P :=
  ((facts.filter (fun f => f.marked ∧ drawnFrom start ≤ f.bucket ∧ f.bucket ≤ through)).map
    (fun f => f.pool)).dedup

/-- A pool's marked buckets, in order. -/
def marks (facts : List (PoolFact P)) (pool : P) (through : Int) : List Int :=
  ((facts.filter (fun f => f.pool = pool ∧ f.marked ∧ f.bucket ≤ through)).map
    PoolFact.bucket).insertionSort (· ≤ ·)

def drawn (facts : List (PoolFact P)) (start through : Int) : List (Island P) :=
  (recent facts start through).flatMap fun pool =>
    ((drawIslands runGap (marks facts pool through)).filter
      (fun i => drawnFrom start ≤ i.2)).map (fun i => ⟨pool, i.1, i.2⟩)

/-- A settled run is known by its end. -/
def islands (runs : OrdMap (P ×ₗ Int) RotationRun) (facts : List (PoolFact P))
    (start through : Int) : List (Island P) :=
  (drawn facts start through).filter fun i =>
    ¬ runs.entries.any (fun b => (ofLex b.1).1 = i.pool ∧ b.2.endedAt = i.last + tranche ∧ b.2.settled)

/-- Whether the pool's facts of `h` are all valued, among the hours the island touches. -/
def whole (facts : List (PoolFact P)) (i : Island P) (h : Int) : Bool :=
  (facts.filter (fun f => f.pool = i.pool ∧ hourOf i.startedAt ≤ f.bucket ∧
    f.bucket < hourOf i.last + hour ∧ hourOf f.bucket = h)).all PoolFact.valued

/-- The island's tranches, each with the volume it counts. -/
def tranches (facts : List (PoolFact P)) (i : Island P) : List (Int × ℚ) :=
  (facts.filter (fun f => f.pool = i.pool ∧ i.startedAt ≤ f.bucket ∧ f.bucket ≤ i.last)).map
    (fun f => (f.bucket, if whole facts i (hourOf f.bucket) then f.volume else 0))

def extinct (i : Island P) (through : Int) : Bool := i.last + runGap ≤ through

def hoursWhole (i : Island P) (through : Int) : Bool :=
  hourOf i.last + hour - tranche ≤ through

def run (facts : List (PoolFact P)) (through : Int) (i : Island P) : RotationRun where
  endedAt := i.last + tranche
  volumeUsd := ((tranches facts i).map Prod.snd).sum
  firstHourVolumeUsd :=
    (((tranches facts i).filter (fun t => t.1 < i.startedAt + hour)).map Prod.snd).sum
  extinct := extinct i through
  settled := extinct i through && hoursWhole i through

def hourBuckets (facts : List (PoolFact P)) (i : Island P) : List Int :=
  ((tranches facts i).map (fun t => hourOf t.1)).dedup

def hourVolume (facts : List (PoolFact P)) (i : Island P) (h : Int) : ℚ :=
  (((tranches facts i).filter (fun t => hourOf t.1 = h)).map Prod.snd).sum

def runRows (facts : List (PoolFact P)) (through : Int) (drawn : List (Island P)) :
    List ((P ×ₗ Int) × RotationRun) :=
  drawn.map (fun i => (i.key, run facts through i))

def hourRows (facts : List (PoolFact P)) (drawn : List (Island P)) :
    List ((P ×ₗ Int ×ₗ Int) × ℚ) :=
  drawn.flatMap (fun i => (hourBuckets facts i).map (fun h => (i.hourKey h, hourVolume facts i h)))

end RotationRuns

namespace RunTables

def empty : RunTables P := ⟨∅, ∅⟩

/-- Deletes the runs not settled; their hours go with them. -/
def deleteUnsettled (t : RunTables P) : RunTables P where
  runs := t.runs.filter (fun e => e.2.settled)
  hours := t.hours.filter fun e =>
    ((t.runs.get? (toLex ((ofLex e.1).1, (ofLex (ofLex e.1).2).1))).all RotationRun.settled)

/-- The runs as of the facts written through `through`, `start` the first tranche of the cycle. -/
def writeRotationRuns (t : RunTables P) (facts : List (PoolFact P)) (start through : Int) :
    RunTables P :=
  let kept := t.deleteUnsettled
  let islands := RotationRuns.islands kept.runs facts start through
  { runs := kept.runs.insertAllNew (RotationRuns.runRows facts through islands)
    hours := kept.hours.insertAllNew (RotationRuns.hourRows facts islands) }

end RunTables

end YogSothoth.Analytic
