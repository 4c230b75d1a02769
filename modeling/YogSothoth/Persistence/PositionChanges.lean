import YogSothoth.Framework.Keyset
import YogSothoth.Persistence.Pagination

namespace YogSothoth.PositionChanges

/-- The five DAMM v2 position event tables. -/
inductive PositionKind where
  | open_
  | close
  | vestingLock
  | permanentLock
  | split
  deriving DecidableEq

def PositionKind.tag : PositionKind → String
  | .open_ => "open"
  | .close => "close"
  | .vestingLock => "vesting_lock"
  | .permanentLock => "permanent_lock"
  | .split => "split"

def PositionKind.all : List PositionKind := [.open_, .close, .vestingLock, .permanentLock, .split]

/-- One row of a position event table: the columns all five share, and its table's own. -/
structure PositionRow (Columns : Type) where
  id : Int
  poolAddress : String
  signature : String
  timestamp : Instant
  slot : Int
  transactionIndex : Option Int
  eventIndex : Int
  own : Columns

/-- A position opened, closed, locked or split. -/
structure PositionChange (Fields : Type) where
  kind : PositionKind
  poolAddress : Pubkey
  signature : Signature
  timestamp : Instant
  slot : UInt64
  transactionIndex : Option UInt32
  eventIndex : UInt16
  own : Fields

def convertI64ToU64 (v : Int) (field : String) : Except RepositoryError UInt64 :=
  if 0 ≤ v ∧ v < 2 ^ 63 then .ok (.ofNat v.toNat)
  else .error (.integrity ("invalid " ++ field ++ ": out of range integral type conversion attempted"))

def convertI64ToU32 (v : Int) (field : String) : Except RepositoryError UInt32 :=
  if 0 ≤ v ∧ v < 2 ^ 32 then .ok (.ofNat v.toNat)
  else .error (.integrity ("invalid " ++ field ++ ": " ++ toString v))

def convertI32ToU16 (v : Int) (field : String) : Except RepositoryError UInt16 :=
  if 0 ≤ v ∧ v < 2 ^ 16 then .ok (.ofNat v.toNat)
  else .error (.integrity ("invalid " ++ field ++ ": " ++ toString v))

/-- The key of an event in a list merged from several tables, and the row it is read from. -/
structure MergedEventKey where
  kind : PositionKind
  id : Int
  timestamp : Instant
  deriving DecidableEq

/-- The key a page reads after, `none` throughout on a first page. -/
structure EventKey where
  at_ : Option Instant
  signature : Option String
  eventIndex : Option Int

/-- The first and last instants of `keys`, which bound the read of their rows. -/
def instantsOf (keys : List MergedEventKey) : Option (Int × Int) := do
  let first ← (keys.map MergedEventKey.timestamp).min?
  let last ← (keys.map MergedEventKey.timestamp).max?
  pure (first, last)

def idsOf (keys : List MergedEventKey) (kind : PositionKind) : List Int :=
  (keys.filter (fun k => k.kind = kind)).map MergedEventKey.id

/-- The rows read so far, keyed by table and id. -/
abbrev Changes (T : Type) := PositionKind × Int → Option T

def Changes.insert {T : Type} (m : Changes T) (k : PositionKind × Int) (t : T) : Changes T :=
  fun k' => if k' = k then some t else m k'

def Changes.remove {T : Type} (m : Changes T) (k : PositionKind × Int) : Changes T :=
  fun k' => if k' = k then none else m k'

/-- Rows put back in the order of their keys; a key without its row is an integrity error, never
a gap in the page. -/
def inKeyOrder {T : Type} : List MergedEventKey → Changes T → Except RepositoryError (List T)
  | [], _ => .ok []
  | k :: keys, rows =>
    match rows (k.kind, k.id) with
    | none => .error (.integrity
        ("event " ++ k.kind.tag ++ " " ++ toString k.id ++ " without its row"))
    | some t => do
      let rest ← inKeyOrder keys (rows.remove (k.kind, k.id))
      pure (t :: rest)

/-- `events`, read with one row past `limit`, cut to it; forward only. -/
def finishEventPage {T : Type} (events : List T) (limit : Int) (hadCursor : Bool)
    (cursor : T → Cursor) : Page T :=
  { (PageBuilder.mk events limit .forward hadCursor).finalize cursor with prevCursor := none }

/-- What a subquery of the merge selects of a row. -/
structure KeyRow where
  kind : PositionKind
  id : Int
  timestamp : Instant
  signature : String
  eventIndex : Int

section Lists

variable {S : Type} [LinearOrder S] {Columns Fields : Type}

/-- `(timestamp, signature, event_index)`, signatures under the database's collation. -/
def KeyRow.key (collate : String → S) (r : KeyRow) : Int ×ₗ (S ×ₗ Int) :=
  toLex (r.timestamp, toLex (collate r.signature, r.eventIndex))

def PositionRow.keyRow (kind : PositionKind) (r : PositionRow Columns) : KeyRow :=
  ⟨kind, r.id, r.timestamp, r.signature, r.eventIndex⟩

/-- The filter of each subquery; without a key the bound is `infinity`, which every row precedes. An
instant is bound as a `TIMESTAMPTZ`. -/
def afterKey (collate : String → S) (key : EventKey) (r : PositionRow Columns) : Bool :=
  match key.at_ with
  | none => true
  | some at_ => r.timestamp ≤ columnInstant at_ && (r.timestamp < columnInstant at_ ||
      match key.signature, key.eventIndex with
      | some signature, some eventIndex =>
        collate r.signature < collate signature ||
          (collate r.signature = collate signature && r.eventIndex < eventIndex)
      | _, _ => false)

/-- One table read by its index on the instant and cut to `limit` before the merge. -/
def subquery (collate : String → S) (kind : PositionKind) (rows : List (PositionRow Columns))
    (wanted : PositionRow Columns → Bool) (from_ : Instant) (key : EventKey) (limit : Nat) :
    List KeyRow :=
  (orderBy (fun r => OrderDual.toDual (r.key collate))
    ((rows.filter (fun r => wanted r &&
      (columnInstant from_ ≤ r.timestamp && afterKey collate key r))).map
        (PositionRow.keyRow kind))).take limit

/-- The tables merged by `UNION ALL`, ordered and cut again. -/
def merged (collate : String → S) (tables : PositionKind → List (PositionRow Columns))
    (wanted : PositionRow Columns → Bool) (from_ : Instant) (key : EventKey) (limit : Nat) :
    List MergedEventKey :=
  ((orderBy (fun r => OrderDual.toDual (r.key collate))
    (PositionKind.all.flatMap
      (fun k => subquery collate k (tables k) wanted from_ key limit))).take limit).map
    (fun r => ⟨r.kind, r.id, r.timestamp⟩)

/-- `LIMIT`, which the database refuses below zero. -/
def rowLimit (limit : Int64) : Except RepositoryError Nat :=
  if limit.toInt < 0 then
    .error (.backend "error returned from database: LIMIT must not be negative")
  else .ok limit.toInt.toNat

def listMeteoraDammV2 (collate : String → S) (tables : PositionKind → List (PositionRow Columns))
    (from_ : Instant) (key : EventKey) (limit : Int64) : Except RepositoryError (List MergedEventKey) :=
  (rowLimit limit).map (merged collate tables (fun _ => true) from_ key)

def listMeteoraDammV2Pool (collate : String → S)
    (tables : PositionKind → List (PositionRow Columns)) (pool : String) (from_ : Instant)
    (key : EventKey) (limit : Int64) : Except RepositoryError (List MergedEventKey) :=
  (rowLimit limit).map (merged collate tables (fun r => r.poolAddress = pool) from_ key)

variable (texts : Texts) (convert : PositionKind → Columns → Except RepositoryError Fields)

def EventKey.of (cursor : Option EventCursor) : EventKey where
  at_ := cursor.map EventCursor.at_
  signature := cursor.map (fun c => texts.signature.print c.signature)
  eventIndex := cursor.map (fun c => (c.eventIndex.toNat : Int))

/-- The event of a row; `convert` is what its table's own columns become. -/
def PositionChange.tryFrom (kind : PositionKind) (row : PositionRow Columns) :
    Except RepositoryError (PositionChange Fields) := do
  let poolAddress ← convertStringToPubkey texts row.poolAddress "pool_address"
  let signature ← convertStringToSignature texts row.signature "signature"
  let slot ← convertI64ToU64 row.slot "slot"
  let transactionIndex ← convertOptional row.transactionIndex "transaction_index" convertI64ToU32
  let eventIndex ← convertI32ToU16 row.eventIndex "event_index"
  let own ← convert kind row.own
  pure ⟨kind, poolAddress, signature, row.timestamp, slot, transactionIndex, eventIndex, own⟩

/-- One table's rows by id, within the instants of the page; no id reads nothing. -/
def fetchKind (rows : List (PositionRow Columns)) (ids : List Int) (span : Int × Int) :
    List (PositionRow Columns) :=
  if ids.isEmpty then []
  else rows.filter (fun r => decide (r.id ∈ ids) &&
    (columnInstant span.1 ≤ r.timestamp && r.timestamp ≤ columnInstant span.2))

def insertRows (kind : PositionKind) (rows : List (PositionRow Columns))
    (changes : Changes (PositionChange Fields)) :
    Except RepositoryError (Changes (PositionChange Fields)) :=
  rows.foldlM (fun m row => do
    let change ← PositionChange.tryFrom texts convert kind row
    pure (m.insert (kind, row.id) change)) changes

/-- The changes of `keys`, read table by table and put back in their order. -/
def fetchMeteoraDammV2 (tables : PositionKind → List (PositionRow Columns))
    (keys : List MergedEventKey) : Except RepositoryError (List (PositionChange Fields)) :=
  match instantsOf keys with
  | none => .ok []
  | some span => do
    let changes ← PositionKind.all.foldlM
      (fun m k => insertRows texts convert k (fetchKind (tables k) (idsOf keys k) span) m)
      (fun _ => none)
    inKeyOrder keys changes

def cursorOf (scope : EventScope) (from_ : Instant) (change : PositionChange Fields) : Cursor :=
  .positionChangeEvent ⟨scope, from_, change.timestamp, change.signature, change.eventIndex⟩

/-- One page of the position changes of a scope; DAMM v2's tables are the only ones yet. The row past
the limit is asked for in an `i64`, where the greatest limit wraps. -/
def listEvents (collate : String → S) (tables : PositionKind → List (PositionRow Columns))
    (scope : EventScope) (from_ : Instant) (cursor : Option EventCursor) (limit : Int64) :
    Except RepositoryError (Page (PositionChange Fields)) :=
  let key := EventKey.of texts cursor
  let page (keys : Except RepositoryError (List MergedEventKey)) := do
    let keys ← keys
    let events ← fetchMeteoraDammV2 texts convert tables keys
    pure (finishEventPage events limit.toInt cursor.isSome (cursorOf scope from_))
  match scope with
  | .all => page (listMeteoraDammV2 collate tables from_ key (limit + 1))
  | .protocol .meteoraDammV2 => page (listMeteoraDammV2 collate tables from_ key (limit + 1))
  | .protocol .meteoraDlmm => .ok Page.empty
  | .pool pool =>
    page (listMeteoraDammV2Pool collate tables (texts.pubkey.print pool) from_ key (limit + 1))

end Lists

end YogSothoth.PositionChanges
