import YogSothoth.Core.Types
import Mathlib.Data.Prod.Lex
import Mathlib.Data.Finset.Max
import Mathlib.Tactic.Common

namespace YogSothoth.Projection

/-- Where an event sits in the chain. -/
structure EventPosition where
  signature : Signature
  timestamp : Instant
  slot : UInt64
  transactionIndex : Option UInt32
  eventIndex : UInt16
  deriving DecidableEq

inductive LiquidityEventKind where
  | add
  | remove
  deriving DecidableEq

inductive LastEventKind where
  | swap
  | liquidityAdd
  | liquidityRemove
  deriving DecidableEq

def LastEventKind.asStr : LastEventKind → String
  | .swap => "swap"
  | .liquidityAdd => "liquidity_add"
  | .liquidityRemove => "liquidity_remove"

def LastEventKind.ofLiquidity : LiquidityEventKind → LastEventKind
  | .add => .liquidityAdd
  | .remove => .liquidityRemove

/-- A state change as an event provides it. Its two constructors set a price for a swap and
for nothing else; the last field keeps that. -/
structure PoolCurrentStateUpsert where
  poolAddress : Pubkey
  protocol : Protocol
  eventPosition : EventPosition
  eventKind : LastEventKind
  reserveA : UInt64
  reserveB : UInt64
  sqrtPrice : Option (BitVec 128)
  priced : sqrtPrice.isSome = decide (eventKind = .swap)
  deriving DecidableEq

namespace PoolCurrentStateUpsert

def fromSwap (poolAddress : Pubkey) (protocol : Protocol) (eventPosition : EventPosition)
    (reserveA reserveB : UInt64) (sqrtPrice : BitVec 128) : PoolCurrentStateUpsert :=
  ⟨poolAddress, protocol, eventPosition, .swap, reserveA, reserveB, some sqrtPrice, rfl⟩

def fromLiquidity (poolAddress : Pubkey) (protocol : Protocol) (eventPosition : EventPosition)
    (kind : LiquidityEventKind) (reserveA reserveB : UInt64) : PoolCurrentStateUpsert :=
  ⟨poolAddress, protocol, eventPosition, .ofLiquidity kind, reserveA, reserveB, none,
    by cases kind <;> rfl⟩

def isSwap (u : PoolCurrentStateUpsert) : Bool := u.eventKind = .swap

end PoolCurrentStateUpsert

/-- A row of `pool_current_state`, less `updated_at`, which is the clock of the write. -/
structure PoolCurrentStateRow where
  protocol : Protocol
  lastEventAt : Instant
  lastEventKind : LastEventKind
  lastSignature : Signature
  reserveA : Int
  reserveB : Int
  lastSqrtPrice : Option Nat
  lastSwapAt : Option Instant
  lastSlot : Int
  lastEventIndex : Int
  lastTransactionIndex : Option Int
  deriving DecidableEq

/-- The tuple the guard compares, in Postgres' row order. -/
abbrev Position := Int ×ₗ Int ×ₗ Int

def PoolCurrentStateRow.position (r : PoolCurrentStateRow) : Position :=
  toLex (r.lastSlot, toLex (r.lastTransactionIndex.getD 0, r.lastEventIndex))

def PoolCurrentStateUpsert.position (u : PoolCurrentStateUpsert) : Position :=
  toLex ((u.eventPosition.slot.toNat : Int),
    toLex (((u.eventPosition.transactionIndex.map (fun i => (i.toNat : Int))).getD 0),
      (u.eventPosition.eventIndex.toNat : Int)))

structure PoolCurrentStateUpsertOutcome where
  applied : Bool
  sameSlotAmbiguity : Bool
  deriving DecidableEq

/-- The table, by pool. Its foreign key is left out: the indexer registers a pool first. -/
abbrev PoolCurrentStates := Pubkey → Option PoolCurrentStateRow

/-- The values the statement binds, once the three `BIGINT` conversions passed. -/
def excluded (u : PoolCurrentStateUpsert) : Except RepositoryError PoolCurrentStateRow := do
  let reserveA ← convertU64ToI64 u.reserveA "reserve_a"
  let reserveB ← convertU64ToI64 u.reserveB "reserve_b"
  let slot ← convertU64ToI64 u.eventPosition.slot "slot"
  return {
    protocol := u.protocol
    lastEventAt := u.eventPosition.timestamp
    lastEventKind := u.eventKind
    lastSignature := u.eventPosition.signature
    reserveA := reserveA
    reserveB := reserveB
    lastSqrtPrice := u.sqrtPrice.map BitVec.toNat
    lastSwapAt := match u.eventKind with
      | .swap => some u.eventPosition.timestamp
      | _ => none
    lastSlot := slot
    lastEventIndex := u.eventPosition.eventIndex.toNat
    lastTransactionIndex := u.eventPosition.transactionIndex.map (fun i => (i.toNat : Int)) }

/-- `INSERT … ON CONFLICT DO UPDATE … WHERE`: the row left, and whether the write applied. -/
def upserted (stored : Option PoolCurrentStateRow) (new : PoolCurrentStateRow) :
    PoolCurrentStateRow × Bool :=
  match stored with
  | none => (new, true)
  | some old =>
    if old.position < new.position then
      ({ new with
          lastSqrtPrice := new.lastSqrtPrice.or old.lastSqrtPrice
          lastSwapAt := new.lastSwapAt.or old.lastSwapAt }, true)
    else (old, false)

def upsert (table : PoolCurrentStates) (u : PoolCurrentStateUpsert) :
    Except RepositoryError PoolCurrentStateUpsertOutcome × PoolCurrentStates :=
  match excluded u with
  | .error e => (.error e, table)
  | .ok new =>
    let previous := table u.poolAddress
    let (row, applied) := upserted previous new
    let ambiguity := match previous with
      | none => false
      | some old => old.lastSlot = new.lastSlot && old.lastSignature ≠ new.lastSignature
    (.ok ⟨applied, ambiguity⟩, Function.update table u.poolAddress (some row))

/-- The table after `us` went through `upsert` one after the other; a failed one is stepped over. -/
def project (us : List PoolCurrentStateUpsert) : PoolCurrentStates :=
  us.foldl (fun table u => (upsert table u).2) (fun _ => none)

end YogSothoth.Projection
