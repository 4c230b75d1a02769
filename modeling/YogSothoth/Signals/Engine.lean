import YogSothoth.Context.PriceWorker
import YogSothoth.Persistence.Signals

namespace YogSothoth.Signals

open Context (seconds)

/-- The declaration order, which is the escalation order. -/
def Severity.rank : Severity → Nat
  | .info => 0
  | .warning => 1
  | .critical => 2

theorem Severity.rank_injective : Function.Injective Severity.rank := by
  intro a b h
  cases a <;> cases b <;> first | rfl | cases h

instance : LinearOrder Severity := LinearOrder.lift' Severity.rank Severity.rank_injective

inductive DetectorError where
  | repository (e : RepositoryError)
  | evaluation (message : String)
  deriving DecidableEq

/-- What the engine reads of a detector: its tag, and the seconds of its cooldown. -/
structure Detector where
  name : String
  cooldownSecs : Nat

/-- The least `DateTime<Utc>`: a subtraction below it panics. -/
def MIN_UTC : Instant := seconds (-8334601228800)

/-- A cooldown as a chrono duration; past `i64::MAX` milliseconds, zero. -/
def Detector.cooldown (d : Detector) : Int :=
  if d.cooldownSecs * 1000 < 2 ^ 63 then seconds d.cooldownSecs else 0

def Detector.since (d : Detector) (evaluatedAt : Instant) : Option Instant :=
  if MIN_UTC ≤ evaluatedAt - d.cooldown then some (evaluatedAt - d.cooldown) else none

/-- The signal as `insert_batch` stores it: its instant in a `TIMESTAMPTZ`. -/
def Signal.stored (s : Signal) : Signal := { s with triggeredAt := columnInstant s.triggeredAt }

/-- `DISTINCT ON (pool_address) … ORDER BY pool_address, triggered_at DESC`: of rows at one instant,
the first one met. -/
def latestSeverityByPool (rows : List Signal) (detector : String) (since : Instant)
    (pool : Pubkey) : Option Severity :=
  (orderBy (fun r => OrderDual.toDual r.triggeredAt) (rows.filter (fun r =>
    r.poolAddress = pool ∧ r.detector = detector ∧ columnInstant since < r.triggeredAt))).head?.map
      Signal.severity

/-- Only candidates that are new or escalate. -/
def emittable (candidates : List Signal) (recent : Pubkey → Option Severity) : List Signal :=
  candidates.filter (fun c => match recent c.poolAddress with
    | none => true
    | some last => last < c.severity)

/-- What one tick meets: its clock, the evaluation, the lookup's failure or the rows in the order it
finds them, and the insert's failure. -/
structure Tick where
  evaluatedAt : Instant
  evaluated : Except DetectorError (List Signal)
  lookupFailure : Option RepositoryError
  found : List Signal
  insertFailure : Option RepositoryError

inductive TickOutcome where
  | ok
  | evalFailed
  | dedupFailed
  | suppressed
  | persistFailed
  | panicked
  deriving DecidableEq

/-- What a tick that reaches the filter emits. -/
def Tick.toEmit (d : Detector) (t : Tick) (candidates : List Signal) (since : Instant) :
    List Signal :=
  emittable candidates (latestSeverityByPool t.found d.name since)

/-- A single tick: evaluate, then persist, absorbing every recoverable error. -/
def runTick (d : Detector) (rows : List Signal) (t : Tick) : List Signal × TickOutcome :=
  match t.evaluated with
  | .error _ => (rows, .evalFailed)
  | .ok candidates =>
    if candidates.isEmpty then (rows, .ok)
    else
      match d.since t.evaluatedAt with
      | none => (rows, .panicked)
      | some since =>
        match t.lookupFailure with
        | some _ => (rows, .dedupFailed)
        | none =>
          if (t.toEmit d candidates since).isEmpty then (rows, .suppressed)
          else
            match t.insertFailure with
            | some _ => (rows, .persistFailed)
            | none => (rows ++ (t.toEmit d candidates since).map Signal.stored, .ok)

/-- A tick of the detector on the rows there are: its candidates are one a pool, at its clock. -/
structure Tick.Meets (t : Tick) (d : Detector) (rows : List Signal) : Prop where
  found : t.found.Perm rows
  candidates : ∀ candidates, t.evaluated = .ok candidates →
    (candidates.map Signal.poolAddress).Nodup ∧
      ∀ c ∈ candidates, c.detector = d.name ∧ c.triggeredAt = t.evaluatedAt

/-- The rows after ticks of one detector, among signals of others. -/
inductive Reaches (d : Detector) : List Tick → List Signal → Prop
  | start (rows : List Signal) (hrows : ∀ r ∈ rows, r.detector ≠ d.name) : Reaches d [] rows
  | tick {ticks : List Tick} {rows : List Signal} (h : Reaches d ticks rows) (t : Tick)
    (meets : t.Meets d rows) : Reaches d (ticks ++ [t]) (runTick d rows t).1
  | other {ticks : List Tick} {rows : List Signal} (h : Reaches d ticks rows)
    (signals : List Signal) (hother : ∀ s ∈ signals, s.detector ≠ d.name) :
    Reaches d ticks (rows ++ signals)

end YogSothoth.Signals
