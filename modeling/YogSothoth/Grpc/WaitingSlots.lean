import YogSothoth.Framework.OrdMap
import Mathlib.Logic.Function.Basic

namespace YogSothoth.Grpc

/-- Which bound forced an eviction. -/
inductive EvictionReason where
  | slotBound
  | payloadBound
  | unresolvable
  deriving DecidableEq

/-- The buffer's counters and peaks. The last two fields are not kept by the metrics: they
are the payloads behind the counts, for what is proved about each of them. -/
structure Metrics (T : Type*) where
  evicted : EvictionReason → Nat
  losingBank : Nat
  payloadsPeak : Nat
  slotLagPeak : Nat
  evictions : List (EvictionReason × T)
  losses : List T

namespace Metrics

variable {T : Type*}

def zero : Metrics T := ⟨fun _ => 0, 0, 0, 0, [], []⟩

def recordEvicted (m : Metrics T) (count : Nat) (reason : EvictionReason) (gone : List T) :
    Metrics T :=
  { m with
    evicted := Function.update m.evicted reason (m.evicted reason + count)
    evictions := m.evictions ++ gone.map (fun t => (reason, t)) }

def recordLosingBank (m : Metrics T) (count : Nat) (gone : List T) : Metrics T :=
  { m with losingBank := m.losingBank + count, losses := m.losses ++ gone }

def recordPeaks (m : Metrics T) (payloads slotLag : Nat) : Metrics T :=
  { m with
    payloadsPeak := max m.payloadsPeak payloads
    slotLagPeak := max m.slotLagPeak slotLag }

end Metrics

/-- One of the two bounds on what waits. -/
inductive Bound where
  | slots
  | payloads
  deriving DecidableEq

def Bound.reason : Bound → EvictionReason
  | .slots => .slotBound
  | .payloads => .payloadBound

/-- Payloads waiting for their slot's time, in arrival order within a slot. -/
structure WaitingSlots (T : Type*) where
  pending : OrdMap Nat (List T)
  count : Nat
  headSlot : Option Nat
  maxPendingSlots : Nat
  maxPendingPayloads : Nat
  metrics : Metrics T

namespace WaitingSlots

variable {T : Type*}

def new (maxPendingSlots maxPendingPayloads : Nat) : WaitingSlots T :=
  ⟨∅, 0, none, maxPendingSlots, maxPendingPayloads, .zero⟩

def oldest (w : WaitingSlots T) : Option Nat := w.pending.first?.map Prod.fst

/-- How far the oldest pending slot trails the head; 0 with nothing waiting. -/
def oldestLag (w : WaitingSlots T) : Nat :=
  match w.oldest, w.headSlot with
  | some oldest, some head => head - oldest
  | _, _ => 0

def oldestIsOutOfWindow (w : WaitingSlots T) : Bool := w.maxPendingSlots < w.oldestLag

def exceededBound (w : WaitingSlots T) : Option Bound :=
  if w.oldestIsOutOfWindow then some .slots
  else if w.maxPendingPayloads < w.count then some .payloads
  else none

/-- The oldest under the slot bound, the newest under the payload bound. -/
def victim (w : WaitingSlots T) : Bound → Option Nat
  | .slots => w.pending.first?.map Prod.fst
  | .payloads => w.pending.last?.map Prod.fst

/-- Record how far the stream has got. -/
def see (w : WaitingSlots T) (slot : Nat) : WaitingSlots T :=
  { w with headSlot := some (w.headSlot.elim slot (fun head => max head slot)) }

/-- Remove and return what waits for `slot`. -/
def take (w : WaitingSlots T) (slot : Nat) : List T × WaitingSlots T :=
  let released := w.pending.getD slot []
  (released, { w with pending := w.pending.erase slot, count := w.count - released.length })

def evict (w : WaitingSlots T) (slot : Nat) (reason : EvictionReason) : WaitingSlots T :=
  let (dropped, w) := w.take slot
  if dropped.isEmpty then w
  else { w with metrics := w.metrics.recordEvicted dropped.length reason dropped }

/-- The `while` of `enforce_bounds`. Each turn takes a pending slot out, so as many turns as there
are pending slots are enough: with none left there is no victim. -/
def enforceLoop : Nat → WaitingSlots T → WaitingSlots T
  | 0, w => w
  | n + 1, w =>
    match w.exceededBound with
    | none => w
    | some bound =>
      match w.victim bound with
      | none => w
      | some slot => enforceLoop n (w.evict slot bound.reason)

/-- Evict until both bounds hold; the peaks are taken before. -/
def enforceBounds (w : WaitingSlots T) : WaitingSlots T :=
  enforceLoop w.pending.size { w with metrics := w.metrics.recordPeaks w.count w.oldestLag }

def push (w : WaitingSlots T) (slot : Nat) (payload : T) : WaitingSlots T :=
  let w := w.see slot
  { w with
    pending := w.pending.insert slot (w.pending.getD slot [] ++ [payload])
    count := w.count + 1 }.enforceBounds

def release (w : WaitingSlots T) (slot : Nat) : List T × WaitingSlots T :=
  let (released, w) := (w.see slot).take slot
  (released, w.enforceBounds)

def observe (w : WaitingSlots T) (slot : Nat) : WaitingSlots T := (w.see slot).enforceBounds

def dropLosing (w : WaitingSlots T) (slot : Nat) (isLosing : T → Bool) : WaitingSlots T :=
  match w.pending.get? slot with
  | none => w
  | some waiting =>
    let retained := waiting.filter (fun payload => !isLosing payload)
    let dropped := waiting.length - retained.length
    let pending :=
      if retained.isEmpty then w.pending.erase slot else w.pending.insert slot retained
    if dropped = 0 then { w with pending := pending }
    else { w with
      pending := pending
      count := w.count - dropped
      metrics := w.metrics.recordLosingBank dropped (waiting.filter isLosing) }

def giveUp (w : WaitingSlots T) (slot : Nat) : WaitingSlots T :=
  ((w.see slot).evict slot .unresolvable).enforceBounds

end WaitingSlots

end YogSothoth.Grpc
