import YogSothoth.Analytic.RunStarts
import YogSothoth.Persistence.RotationRunList

namespace YogSothoth.RotationRunService

open Analytic (Analytics AnalyticState AnalyticStep TranchePeriod hour runGap)
open RotationRunList (Names RotationRun)

/-- How far behind the end of the latest period a cursor's end stays accepted. -/
def cursorEndMargin : Int := hour

/-- What a read found over its period, none before the first tranche written. -/
structure Measured (T P : Type) where
  period : Option P
  items : T

inductive RotationRunsError where
  | repository (e : RepositoryError)
  | cursorRefused
  deriving DecidableEq

structure RotationRunLookup where
  findWrittenThrough : Except RepositoryError (Option Instant)
  findMeasuredSince : Protocol → Except RepositoryError (Option Instant)
  listRuns : TranchePeriod → Window → RotationRunScope → RotationRunOrder →
    Option RotationRunCursor → Int → Except RepositoryError (Page RotationRun)

/-- `window` through `asOf`, else through the last tranche written; covered a gap after the first
tranche measured. -/
def buildTranchePeriod (runs : RotationRunLookup) (window : Window) (protocol : Protocol)
    (asOf : Option Instant) : Except RepositoryError (Option TranchePeriod) := do
  let through ← match asOf with
    | some asOf => .ok (some asOf)
    | none => runs.findWrittenThrough
  match through with
  | none => return none
  | some asOf =>
    let since ← runs.findMeasuredSince protocol
    return some (.of asOf window (since.map (· + runGap)))

/-- A later page keeps the end its cursor carries. -/
def listRuns (runs : RotationRunLookup) (window : Window) (scope : RotationRunScope)
    (protocol : Protocol) (order : RotationRunOrder) (cursor : Option RotationRunCursor)
    (limit : Int) : Except RotationRunsError (Measured (Page RotationRun) TranchePeriod) := do
  let asOf ← match cursor with
    | some c => do
      let through ← runs.findWrittenThrough.mapError .repository
      match through with
      | some through =>
        if c.asOf ≤ through ∧ through - cursorEndMargin ≤ c.asOf then .ok (some c.asOf)
        else .error .cursorRefused
      | none => .error .cursorRefused
    | none => .ok none
  let period ← (buildTranchePeriod runs window protocol asOf).mapError .repository
  let items ← match period with
    | some period =>
      if period.isCovered then
        (runs.listRuns period window scope order cursor limit).mapError .repository
      else .ok .empty
    | none => .ok .empty
  return ⟨period, items⟩

variable [LinearOrder Pubkey]

/-- The three queries of a read, each on the tables as they are when it runs. -/
def lookup (decimal : ℚ → String → Except RepositoryError Decimal) (names : Names)
    (written measured listed : Analytics Pubkey) : RotationRunLookup where
  findWrittenThrough := .ok (RotationRunList.findWrittenThrough written)
  findMeasuredSince protocol := .ok (RotationRunList.findMeasuredSince measured protocol)
  listRuns := RotationRunList.listRuns decimal listed names

/-- What a reader asks of every page. -/
structure RunsRequest where
  window : Window
  scope : RotationRunScope
  protocol : Protocol
  order : RotationRunOrder
  limit : Int

/-- A page read: the state at each of its queries, and what it found. -/
structure PageRead (W : Type*) where
  written : AnalyticState W Pubkey
  measured : AnalyticState W Pubkey
  listed : AnalyticState W Pubkey
  names : Names
  found : Measured (Page RotationRun) TranchePeriod

variable {W : Type*} [DecidableEq W]

/-- A page asked from `s` on; cycles are written before and during its queries. -/
structure IsRead (decimal : ℚ → String → Except RepositoryError Decimal) (q : RunsRequest)
    (cursor : Option RotationRunCursor) (s : AnalyticState W Pubkey) (r : PageRead W) : Prop where
  written : Relation.ReflTransGen AnalyticStep s r.written
  measured : Relation.ReflTransGen AnalyticStep r.written r.measured
  listed : Relation.ReflTransGen AnalyticStep r.measured r.listed
  found : listRuns (lookup decimal r.names r.written.db r.measured.db r.listed.db) q.window q.scope
    q.protocol q.order cursor q.limit = .ok r.found

/-- The pages read by following the next cursor to the end, while cycles are written. -/
inductive Reads (decimal : ℚ → String → Except RepositoryError Decimal) (q : RunsRequest) :
    Option RotationRunCursor → AnalyticState W Pubkey → List (PageRead W) → Prop
  | last {cursor : Option RotationRunCursor} {s : AnalyticState W Pubkey} {r : PageRead W}
    (read : IsRead decimal q cursor s r) (hnext : r.found.items.nextCursor = none) :
    Reads decimal q cursor s [r]
  | next {cursor : Option RotationRunCursor} {c : RotationRunCursor}
    {s : AnalyticState W Pubkey} {r : PageRead W} {reads : List (PageRead W)}
    (read : IsRead decimal q cursor s r)
    (hnext : r.found.items.nextCursor = some (.rotationRun c))
    (rest : Reads decimal q (some c) r.listed reads) : Reads decimal q cursor s (r :: reads)

end YogSothoth.RotationRunService
