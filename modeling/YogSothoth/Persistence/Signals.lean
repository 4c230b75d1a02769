import YogSothoth.Framework.Keyset
import YogSothoth.Persistence.Pagination

namespace YogSothoth.Signals

inductive Severity where
  | info
  | warning
  | critical
  deriving DecidableEq

def Severity.asStr : Severity → String
  | .info => "info"
  | .warning => "warning"
  | .critical => "critical"

def Severity.fromStr (s : String) : Option Severity :=
  if s = "info" then some .info
  else if s = "warning" then some .warning
  else if s = "critical" then some .critical
  else none

structure Signal where
  detector : String
  protocol : Protocol
  poolAddress : Pubkey
  severity : Severity
  value : Decimal
  threshold : Option Decimal
  message : Option String
  triggeredAt : Instant
  deriving DecidableEq

/-- A persisted signal and its storage id, the tie-breaker of the feed ordering. -/
structure SignalRecord where
  id : Int64
  signal : Signal
  deriving DecidableEq

structure SignalFilter where
  severity : Option Severity
  protocol : Option Protocol
  pool : Option Pubkey
  deriving DecidableEq

/-- One `signals` row, its columns as the table holds them. -/
structure SignalRow where
  id : Int64
  detector : String
  protocol : String
  poolAddress : String
  severity : String
  value : String
  threshold : Option String
  message : Option String
  triggeredAt : Instant
  deriving DecidableEq

def maxPageSize : Int := 200

section Texts

variable (texts : Texts)

/-- The columns `insert_batch` binds for a signal, under the id the table gives it. -/
def SignalRow.of (r : SignalRecord) : SignalRow where
  id := r.id
  detector := r.signal.detector
  protocol := r.signal.protocol.asStr
  poolAddress := texts.pubkey.print r.signal.poolAddress
  severity := r.signal.severity.asStr
  value := texts.decimal.print r.signal.value
  threshold := r.signal.threshold.map texts.decimal.print
  message := r.signal.message
  triggeredAt := r.signal.triggeredAt

def SignalRecord.tryFrom (row : SignalRow) : Except RepositoryError SignalRecord := do
  let protocol ← parseProtocol row.protocol
  let poolAddress ← convertStringToPubkey texts row.poolAddress "pool_address"
  let severity ← match Severity.fromStr row.severity with
    | some s => pure s
    | none => throw (.integrity ("invalid severity: " ++ row.severity))
  let value ← convertBigdecimalToDecimal texts row.value "value"
  let threshold ← convertOptional row.threshold "threshold" (convertBigdecimalToDecimal texts)
  pure ⟨row.id, ⟨row.detector, protocol, poolAddress, severity, value, threshold, row.message,
    row.triggeredAt⟩⟩

/-- The filters of the `WHERE`, each unset one letting every row through. -/
def SignalRow.kept (row : SignalRow) (filter : SignalFilter) : Bool :=
  (filter.severity.all (fun s => row.severity = s.asStr)) &&
  (filter.pool.all (fun p => row.poolAddress = texts.pubkey.print p)) &&
  (filter.protocol.all (fun p => row.protocol = p.asStr))

/-- `(triggered_at, id)`, what the feed is ordered on. -/
def SignalRow.key (row : SignalRow) : Int ×ₗ Int := toLex (row.triggeredAt, row.id.toInt)

def SignalRow.beforeCursor (row : SignalRow) (c : SignalCursor) : Bool :=
  row.triggeredAt < c.triggeredAt || (row.triggeredAt = c.triggeredAt && row.id.toInt < c.id.toInt)

def SignalRow.afterCursor (row : SignalRow) (c : SignalCursor) : Bool :=
  c.triggeredAt < row.triggeredAt || (row.triggeredAt = c.triggeredAt && c.id.toInt < row.id.toInt)

/-- The two static queries: newest first past the cursor, or oldest first before it. -/
def selectRows (rows : List SignalRow) (mode : QueryMode) (filter : SignalFilter)
    (cursor : Option SignalCursor) (fetchLimit : Int) : List SignalRow :=
  match mode with
  | .forward =>
    (orderBy (fun r => OrderDual.toDual r.key)
      (rows.filter (fun r => r.kept texts filter && cursor.all r.beforeCursor))).take fetchLimit.toNat
  | .backward =>
    (orderBy SignalRow.key
      (rows.filter (fun r => r.kept texts filter && cursor.all r.afterCursor))).take fetchLimit.toNat

def cursorOf (r : SignalRecord) : SignalCursor := ⟨r.signal.triggeredAt, r.id⟩

/-- One page of the feed, newest first. -/
def list (rows : List SignalRow) (filter : SignalFilter) (cursor : Option SignalCursor)
    (direction : PageDirection) (position : Option PagePosition) (limit : Int) :
    Except RepositoryError (Page SignalRecord) := do
  let effectiveLimit := max 1 (min limit maxPageSize)
  let fetchLimit := effectiveLimit + 1
  let mode := resolveQueryMode position cursor direction
  let activeCursor := if position.isSome then none else cursor
  let selected := selectRows texts rows mode filter activeCursor fetchLimit
  let records ← selected.mapM (SignalRecord.tryFrom texts)
  pure ((PageBuilder.mk records effectiveLimit mode activeCursor.isSome).finalize
    (fun r => .signal (cursorOf r)))

end Texts

end YogSothoth.Signals
