import YogSothoth.Core.Types
import YogSothoth.Framework.OrdMap

namespace YogSothoth.Grpc

/-- How many slots below the oldest unfinished one are not settled yet. -/
def heldBackSlots : Nat := 2

/-- First and last slot received for good, with their block times. -/
structure ReceivedSpan where
  first : Nat
  firstAt : Instant
  last : Nat
  lastAt : Instant
  deriving DecidableEq

namespace ReceivedSpan

def starting (slot : Nat) (instant : Instant) : ReceivedSpan := ⟨slot, instant, slot, instant⟩

/-- Widen to `slot`; one already in the span changes nothing. -/
def includeSlot (span : ReceivedSpan) (slot : Nat) (instant : Instant) : ReceivedSpan :=
  if span.first ≤ slot ∧ slot ≤ span.last then span
  else if slot < span.first then { span with first := slot, firstAt := instant }
  else { span with last := slot, lastAt := instant }

end ReceivedSpan

/-- One session's span, as the recorder reads it. -/
structure RangeToRecord where
  protocols : List Protocol
  span : ReceivedSpan
  ended : Bool
  deriving DecidableEq

/-- A row for the repository. -/
structure ObservedSlots where
  protocol : Protocol
  sessionStartedAt : Instant
  firstSlot : Nat
  firstSlotAt : Instant
  lastSlot : Nat
  lastSlotAt : Instant
  deriving DecidableEq

/-- One row per protocol watched whole. -/
def RangeToRecord.rows (range : RangeToRecord) (sessionStartedAt : Instant) : List ObservedSlots :=
  range.protocols.map (fun protocol => ⟨protocol, sessionStartedAt, range.span.first,
    range.span.firstAt, range.span.last, range.span.lastAt⟩)

/-- Every session's latest span, under its start, until the recorder has written its last. -/
abbrev RangesToRecord := OrdMap Instant RangeToRecord

namespace RangesToRecord

def publish (ranges : RangesToRecord) (session : Instant) (range : RangeToRecord) : RangesToRecord :=
  ranges.insert session range

def endSession (ranges : RangesToRecord) (session : Instant) : RangesToRecord :=
  match ranges.get? session with
  | some range => ranges.insert session { range with ended := true }
  | none => ranges

def forget (ranges : RangesToRecord) (session : Instant) : RangesToRecord := ranges.erase session

end RangesToRecord

/-- What one session has received for good. -/
structure ReceivedSlots where
  startedAt : Instant
  protocols : List Protocol
  span : Option ReceivedSpan
  countedFrom : Option Nat
  notYet : OrdMap Nat Instant
  deriving DecidableEq

namespace ReceivedSlots

def new (startedAt : Instant) (protocols : List Protocol) : ReceivedSlots :=
  ⟨startedAt, protocols, none, none, ∅⟩

/-- `u64::saturating_add`. -/
def saturatingAdd (a b : Nat) : Nat := min (a + b) (2 ^ 64 - 1)

/-- The span once a settled slot is in it. -/
def count (span : Option ReceivedSpan) (e : Nat × Instant) : Option ReceivedSpan :=
  some (span.elim (.starting e.1 e.2) (fun span => span.includeSlot e.1 e.2))

/-- The lowest slot counted, set by the first timed block-meta. -/
def countsFrom (r : ReceivedSlots) (slot : Nat) : Nat :=
  r.countedFrom.getD (saturatingAdd slot heldBackSlots)

/-- The timed block-metas not settled yet, this one included when it counts. -/
def withMeta (r : ReceivedSlots) (slot : Nat) (instant : Instant) : OrdMap Nat Instant :=
  if r.countsFrom slot ≤ slot then r.notYet.insert slot instant else r.notYet

/-- A block-meta closed `slot` at `instant`, and the slots below `settledBelow` are settled now:
what is published, and the state after. -/
def onBlockMeta (r : ReceivedSlots) (slot : Nat) (instant : Instant) (settledBelow : Option Nat) :
    Option RangeToRecord × ReceivedSlots :=
  if r.protocols = [] then (none, r)
  else
    let notYet := r.withMeta slot instant
    let r := { r with countedFrom := some (r.countsFrom slot), notYet := notYet }
    match settledBelow with
    | none => (none, r)
    | some settledBelow =>
      let received := notYet.filter (fun e => e.1 < settledBelow)
      let r := { r with notYet := notYet.filter (fun e => settledBelow ≤ e.1) }
      if received.entries = [] then (none, r)
      else
        let r := { r with span := received.entries.foldl count r.span }
        (r.span.map (fun span => ⟨r.protocols, span, false⟩), r)

end ReceivedSlots

end YogSothoth.Grpc
