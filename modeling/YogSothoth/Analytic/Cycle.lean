import YogSothoth.Core.Types
import YogSothoth.Framework.OrdMap
import Mathlib.Logic.Function.Basic

namespace YogSothoth.Analytic

/-- A `TimeDelta::minutes`. Instants and spans are whole nanoseconds here. -/
def minutes (n : Int) : Int := n * 60000000000

def hour : Int := minutes 60

def freezeMargin : Int := minutes 10

def maxHoursPerCycle : Int := 6

def trancheMinutes : Int := 5

def tranche : Int := minutes trancheMinutes

def maxTranchesPerCycle : Int := maxHoursPerCycle * 60 / trancheMinutes

/-- `duration_trunc`: the multiple of `span` at or before `at`. -/
def durationTrunc (instant : Int) (span : Int) : Int := instant - instant % span

def hourOf (instant : Int) : Int := durationTrunc instant hour

def trancheOf (instant : Int) : Int := durationTrunc instant tranche

/-- How far the analytic tables go. -/
structure AnalyticProgress where
  firstHour : Option Int
  lastFrozen : Option Int
  lastTranche : Option Int
  deriving DecidableEq

/-- The tranches one cycle values, the hours it rewrites, and the ones it freezes. -/
structure CycleWrite where
  tranchesFrom : Int
  tranchesThrough : Int
  from_ : Int
  through : Int
  freezeThrough : Option Int
  tvlHour : Option Int
  at_ : Int
  deriving DecidableEq

namespace CycleWrite

/-- The hours the cycle keeps once those frozen are out. -/
def fromAfter (c : CycleWrite) (written : AnalyticProgress) : Int :=
  match written.lastFrozen with
  | some frozen => max c.from_ (frozen + hour)
  | none => c.from_

def tranchesFromAfter (c : CycleWrite) (written : AnalyticProgress) : Int :=
  ([written.lastTranche.map (· + tranche), some (c.fromAfter written)].filterMap id).foldl max
    c.tranchesFrom

/-- `Option::max`: `None` is below every instant. -/
def optionMax : Option Int → Option Int → Option Int
  | some a, some b => some (max a b)
  | some a, none => some a
  | none, b => b

/-- The last tranche there is once the cycle has written its own. -/
def tranchesWritten (c : CycleWrite) (written : AnalyticProgress) : Option Int :=
  optionMax ((some c.tranchesThrough).filter (fun through => c.tranchesFromAfter written ≤ through))
    written.lastTranche

/-- The cycle without what `written` already holds, nor a freeze past what it writes. -/
def withoutWritten (c : CycleWrite) (written : AnalyticProgress) : CycleWrite :=
  let from_ := c.fromAfter written
  let complete := (c.tranchesWritten written).map (fun last => hourOf (last + tranche) - hour)
  { c with
    tranchesFrom := c.tranchesFromAfter written
    from_ := from_
    freezeThrough := ((c.freezeThrough.bind (fun h => complete.map (fun complete => (h, complete)))).map
      (fun e => min (min e.1 c.through) e.2)).filter (fun h => from_ ≤ h)
    tvlHour := c.tvlHour.filter (fun h => written.lastFrozen.all (fun frozen => frozen < h)) }

def planFrom (current : Int) (progress : AnalyticProgress) : Int :=
  match progress.lastFrozen, progress.firstHour with
  | some frozen, _ => frozen + hour
  | none, some first => first
  | none, none => current

/-- The cycle to run at `now`, given how far the tables go. -/
def plan (now : Int) (progress : AnalyticProgress) : CycleWrite :=
  let current := hourOf now
  let from_ := planFrom current progress
  let tranchesFrom := progress.lastTranche.elim from_ (· + tranche)
  withoutWritten
    { tranchesFrom := tranchesFrom
      tranchesThrough := min (trancheOf (now - tranche - freezeMargin))
        (tranchesFrom + tranche * (maxTranchesPerCycle - 1))
      from_ := from_
      through := min current (from_ + hour * (maxHoursPerCycle - 1))
      freezeThrough := some (hourOf (now - hour - freezeMargin))
      tvlHour := some current
      at_ := now }
    progress

end CycleWrite

/-- `generate_series`: from `start` to `stop`, both included, by `step`. -/
def series (start stop step : Int) : List Int :=
  if stop < start then []
  else (List.range ((stop - start) / step + 1).toNat).map (fun k : Nat => start + (k : Int) * step)

/-- The tables a cycle goes by: the hours with their `frozen_at`, the tranches with their
`written_at`. -/
structure Tables where
  hours : OrdMap Int (Option Int)
  tranches : OrdMap Int Int
  deriving DecidableEq

namespace Tables

def empty : Tables := ⟨∅, ∅⟩

def frozen (db : Tables) : OrdMap Int (Option Int) := db.hours.filter (fun e => e.2.isSome)

def progress (db : Tables) : AnalyticProgress :=
  ⟨db.hours.first?.map Prod.fst, db.frozen.last?.map Prod.fst, db.tranches.last?.map Prod.fst⟩

/-- A plain insert: a tranche written twice fails the cycle. -/
def insertTranche (written : Int) (tranches : OrdMap Int Int) (bucket : Int) :
    Except RepositoryError (OrdMap Int Int) :=
  if (tranches.get? bucket).isSome then
    .error (.conflict ("error returned from database: duplicate key value violates unique " ++
      "constraint \"analytic_tranches_pkey\""))
  else .ok (tranches.insert bucket written)

def recordTranches (db : Tables) (start through written : Int) : Except RepositoryError Tables :=
  ((series start through tranche).foldlM (insertTranche written) db.tranches).map
    (fun tranches => { db with tranches := tranches })

/-- `ON CONFLICT DO NOTHING`: an hour already there keeps its row. -/
def recordHour (hours : OrdMap Int (Option Int)) (bucket : Int) :
    OrdMap Int (Option Int) :=
  if (hours.get? bucket).isSome then hours else hours.insert bucket none

def recordHours (db : Tables) (start through : Int) : Tables :=
  { db with hours := (series start through hour).foldl recordHour db.hours }

def freezeHour (start through written : Int) (e : Int × Option Int) :
    Int × Option Int :=
  (e.1, if start ≤ e.1 ∧ e.1 ≤ through then e.2.or (some written) else e.2)

theorem freezeHour_sorted (m : OrdMap Int (Option Int)) (start through written : Int) :
    (m.entries.map (freezeHour start through written)).Pairwise (fun a b => a.1 < b.1) :=
  List.pairwise_map.mpr m.sorted

def freeze (db : Tables) (start through written : Int) : Tables :=
  { db with hours := ⟨_, freezeHour_sorted db.hours start through written⟩ }

/-- One transaction, under the lock that keeps other cycles out: the progress is read again and the
cycle loses what was written since it was planned. -/
def writeCycle (db : Tables) (cycle : CycleWrite) : Except RepositoryError (Tables × CycleWrite) := do
  let cycle := cycle.withoutWritten db.progress
  let db ← db.recordTranches cycle.tranchesFrom cycle.tranchesThrough cycle.at_
  let db := db.recordHours cycle.from_ cycle.through
  match cycle.freezeThrough with
  | some through => return (db.freeze cycle.from_ through cycle.at_, cycle)
  | none => return (db, cycle)

end Tables

end YogSothoth.Analytic
