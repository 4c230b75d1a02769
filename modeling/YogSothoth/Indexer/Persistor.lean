import YogSothoth.Extraction.Numbering
import YogSothoth.Persistence.EventTables
import YogSothoth.Projection.Order
import YogSothoth.Resolver.PoolRow

namespace YogSothoth.Indexer

open Extraction (DomainEvent ExtractionOutcome MeteoraDammV2Event OnChainTransaction)
open Persistence (EventTables Fault InsertOutcome)
open Projection (PoolCurrentStates PoolCurrentStateUpsert)

/-- A transaction a source delivered, with the protocol it belongs to. -/
structure IngestedTransaction where
  protocol : Protocol
  transaction : OnChainTransaction

/-- `ExtractionDispatcher::extract`; the DLMM handler is a stub. -/
def extract (protocol : Protocol) (tx : OnChainTransaction) : ExtractionOutcome :=
  match protocol with
  | .meteoraDammV2 => Extraction.MeteoraDammV2.new.extractEvents tx
  | .meteoraDlmm => {}

/-- `EventPersistor::persist` routes each domain event to its protocol's persistor. -/
def route : DomainEvent → MeteoraDammV2Event
  | .meteoraDammV2 e => e

namespace IngestedTransaction

def signature (self : IngestedTransaction) : Signature := self.transaction.position.signature

/-- The events the processor hands to the persistor, in order. -/
def events (self : IngestedTransaction) : List MeteoraDammV2Event :=
  (extract self.protocol self.transaction).events.map route

end IngestedTransaction

/-- A row of `pools`, less the two instants it was seen at. -/
structure RegistryRow where
  protocol : Protocol
  pool : Resolver.PoolRow

structure Database where
  tables : EventTables
  pools : Pubkey → Option RegistryRow
  currentStates : PoolCurrentStates

namespace Database

def empty : Database := ⟨.empty, fun _ => none, fun _ => none⟩

/-- `PoolRepository::upsert` of a pool with no mints: a known one is only seen again. -/
def upsertPool (db : Database) (protocol : Protocol) (poolAddress : Pubkey) : Database :=
  match db.pools poolAddress with
  | some _ => db
  | none =>
    let row : RegistryRow := ⟨protocol, Resolver.PoolRow.inserted none none⟩
    { db with pools := Function.update db.pools poolAddress (some row) }

def markNeedsRefresh (db : Database) (poolAddress : Pubkey) : Database :=
  let marked := (db.pools poolAddress).map (fun row =>
    { row with pool := row.pool.markNeedsRefresh })
  { db with pools := Function.update db.pools poolAddress marked }

/-- Whether the foreign key of `pool_current_state` finds its pool. -/
def registered (db : Database) (protocol : Protocol) (poolAddress : Pubkey) : Bool :=
  (db.pools poolAddress).any (fun row => row.protocol = protocol)

/-- The projection's upsert, refused by the foreign key of a pool that is not registered. -/
def projectState (db : Database) (u : PoolCurrentStateUpsert) :
    Except RepositoryError Unit × Database :=
  if db.registered u.protocol u.poolAddress then
    let (outcome, currentStates) := Projection.upsert db.currentStates u
    (outcome.map (fun _ => ()), { db with currentStates })
  else (.error (.conflict "pool_current_state_pool_fkey"), db)

/-- A statement under a fault: it fails, and may have been committed all the same. -/
def under (db : Database) (statement : Database → Except RepositoryError Unit × Database) :
    Option Fault → Except RepositoryError Unit × Database
  | none => statement db
  | some ⟨error, true⟩ => (.error error, (statement db).2)
  | some ⟨error, false⟩ => (.error error, db)

end Database

/-- The calls of the pool maintenance, whose failures are logged and stepped over. -/
inductive Call where
  | discoverPool
  | touchPool
  | markNeedsRefresh
  | updatePoolCurrentState
  deriving DecidableEq

/-- The database with what the persistor logs and counts: how each event's insert ended, and the
calls around it that failed. -/
structure Store where
  db : Database
  persisted : List (MeteoraDammV2Event × Except RepositoryError InsertOutcome)
  warned : List (Call × MeteoraDammV2Event)

namespace Store

def empty : Store := ⟨.empty, [], []⟩

def call (self : Store) (name : Call) (event : MeteoraDammV2Event)
    (statement : Database → Except RepositoryError Unit × Database) (fault : Option Fault) : Store :=
  let (result, db) := self.db.under statement fault
  { self with
    db := db
    warned := match result with
      | .ok _ => self.warned
      | .error _ => self.warned ++ [(name, event)] }

/-- What a kind does about its pool first: register it, or only touch it. -/
def registers : MeteoraDammV2Event → Bool
  | .swap _ => true
  | .liquidity _ => true
  | .initializePool _ => true
  | _ => false

def discoverPool (self : Store) (event : MeteoraDammV2Event) : Option Fault → Store :=
  self.call .discoverPool event
    (fun db => (.ok (), db.upsertPool .meteoraDammV2 event.poolAddress))

/-- It writes `last_seen_at` and nothing else. -/
def touchPool (self : Store) (event : MeteoraDammV2Event) : Option Fault → Store :=
  self.call .touchPool event (fun db => (.ok (), db))

def markNeedsRefresh (self : Store) (event : MeteoraDammV2Event) : Option Fault → Store :=
  self.call .markNeedsRefresh event (fun db => (.ok (), db.markNeedsRefresh event.poolAddress))

def insert (self : Store) (event : MeteoraDammV2Event) (fault : Option Fault) : Store :=
  let (result, tables) := self.db.tables.insert event fault
  { self with
    db := { self.db with tables }
    persisted := self.persisted ++ [(event, result)] }

def updatePoolCurrentState (self : Store) (event : MeteoraDammV2Event)
    (u : PoolCurrentStateUpsert) : Option Fault → Store :=
  self.call .updatePoolCurrentState event (fun db => db.projectState u)

end Store

/-- What a persisted event projects into `pool_current_state`, if its kind moves a reserve. -/
def stateUpsert : MeteoraDammV2Event → Option PoolCurrentStateUpsert
  | .swap e => some (.fromSwap e.poolAddress .meteoraDammV2 e.toEventPosition e.reserveAAfter
      e.reserveBAfter e.nextSqrtPrice)
  | .liquidity e => some (.fromLiquidity e.poolAddress .meteoraDammV2 e.toEventPosition
      e.liquidityEventKind e.reserveAAfter e.reserveBAfter)
  | _ => none

/-- Where the processing of a transaction is in the recipe of an event. -/
inductive Stage where
  | next
  | flag (event : MeteoraDammV2Event)
  | insert (event : MeteoraDammV2Event)
  | project (event : MeteoraDammV2Event) (upsert : PoolCurrentStateUpsert)

/-- A detached `process_transaction`, with the events it has not come to. -/
structure Task where
  ingested : IngestedTransaction
  stage : Stage
  remaining : List MeteoraDammV2Event

namespace Task

def start (ingested : IngestedTransaction) : Task := ⟨ingested, .next, ingested.events⟩

/-- The stage that follows the registry call: a fee update flags its pool before it is stored. -/
def afterRegistry : MeteoraDammV2Event → Stage
  | .updatePoolFees e => .flag (.updatePoolFees e)
  | e => .insert e

/-- The stage that follows an insert: the projection, when the event is persisted and moves one. -/
def afterInsert (store : Store) (event : MeteoraDammV2Event) (fault : Option Fault) : Stage :=
  match (store.db.tables.insert event fault).1, stateUpsert event with
  | .ok _, some u => .project event u
  | _, _ => .next

/-- The next statement of a task, and what the database makes of it; `none` when there is none. -/
def step (task : Task) (store : Store) (fault : Option Fault) : Option (Store × Task) :=
  match task.stage with
  | .next =>
    match task.remaining with
    | [] => none
    | event :: remaining =>
      some (if Store.registers event then store.discoverPool event fault
          else store.touchPool event fault,
        { task with stage := afterRegistry event, remaining })
  | .flag event =>
    some (store.markNeedsRefresh event fault, { task with stage := .insert event })
  | .insert event =>
    some (store.insert event fault, { task with stage := afterInsert store event fault })
  | .project event u =>
    some (store.updatePoolCurrentState event u fault, { task with stage := .next })

/-- Nothing is left to do. -/
def isDone (task : Task) : Bool :=
  match task.stage, task.remaining with
  | .next, [] => true
  | _, _ => false

end Task

end YogSothoth.Indexer
