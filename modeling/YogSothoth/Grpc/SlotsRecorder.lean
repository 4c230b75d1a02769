import YogSothoth.Grpc.ReceivedSlots

namespace YogSothoth.Grpc

/-- `observed_slot_ranges`: each protocol's rows, under the start of their session as the column holds
it. -/
abbrev ObservedSlotRanges := Protocol → OrdMap Instant ReceivedSpan

/-- What becomes of one call of the repository: the row is written, it is not, or it is and the answer
is lost. -/
inductive Reply where
  | accepted
  | refused (error : RepositoryError)
  | lost (error : RepositoryError)
  deriving DecidableEq

/-- The row on conflict: each end moves only outwards, and its instant with it. -/
def ReceivedSpan.outward (row new : ReceivedSpan) : ReceivedSpan :=
  ⟨min row.first new.first, if new.first < row.first then new.firstAt else row.firstAt,
    max row.last new.last, if row.last < new.last then new.lastAt else row.lastAt⟩

/-- The span as a row holds it: its instants are two `TIMESTAMPTZ`. -/
def ReceivedSpan.stored (span : ReceivedSpan) : ReceivedSpan :=
  { span with firstAt := columnInstant span.firstAt, lastAt := columnInstant span.lastAt }

def ObservedSlots.span (observed : ObservedSlots) : ReceivedSpan :=
  ⟨observed.firstSlot, observed.firstSlotAt, observed.lastSlot, observed.lastSlotAt⟩

/-- The key of the row beside its protocol: two starts of one microsecond are one. -/
def ObservedSlots.key (observed : ObservedSlots) : Instant := columnInstant observed.sessionStartedAt

namespace ObservedSlotRanges

/-- `INSERT … ON CONFLICT (protocol, session_started_at) DO UPDATE`. -/
def upsert (table : ObservedSlotRanges) (observed : ObservedSlots) : ObservedSlotRanges :=
  fun protocol =>
    if protocol = observed.protocol then
      let row := match (table protocol).get? observed.key with
        | none => observed.span.stored
        | some row => row.outward observed.span.stored
      (table protocol).insert observed.key row
    else table protocol

/-- `ObservedSlotsRepository::record`: a slot no `BIGINT` holds is refused before the query. -/
def record (table : ObservedSlotRanges) (observed : ObservedSlots) (reply : Reply) :
    Except RepositoryError Unit × ObservedSlotRanges :=
  match convertU64ToI64 (.ofNat observed.firstSlot) "first_slot" with
  | .error e => (.error e, table)
  | .ok _ =>
    match convertU64ToI64 (.ofNat observed.lastSlot) "last_slot" with
    | .error e => (.error e, table)
    | .ok _ =>
      match reply with
      | .accepted => (.ok (), table.upsert observed)
      | .refused e => (.error e, table)
      | .lost e => (.error e, table.upsert observed)

end ObservedSlotRanges

/-- Where the recorder stands. A write holds whether it is the last one, what it works on and what is
left of it; while it records, the rows of one session, and whether all of them went through so far. -/
inductive Phase where
  | waiting
  | recording (stopping : Bool) (session : Instant) (range : RangeToRecord) (rows : List ObservedSlots)
      (recorded : Bool) (changed : List (Instant × RangeToRecord))
  | forgetting (stopping : Bool) (finished : List Instant)
  | stopped
  deriving DecidableEq

/-- `SlotsRecorder::run`, between two points where another task may run. -/
structure SlotsRecorder where
  ranges : RangesToRecord
  due : RangesToRecord
  written : OrdMap Instant ReceivedSpan
  phase : Phase
  table : ObservedSlotRanges

namespace SlotsRecorder

def new : SlotsRecorder := ⟨∅, ∅, ∅, .waiting, fun _ => ∅⟩

/-- The spans due that are not the ones last written. -/
def changed (r : SlotsRecorder) : List (Instant × RangeToRecord) :=
  (r.due.filter (fun e => r.written.get? e.1 ≠ some e.2.span)).entries

/-- The ended sessions whose span due is written. -/
def finished (r : SlotsRecorder) : List Instant :=
  (r.due.filter (fun e => e.2.ended ∧ r.written.get? e.1 = some e.2.span)).keys

/-- Go on to the next changed span, or to what is finished. -/
def next (r : SlotsRecorder) (stopping : Bool) : List (Instant × RangeToRecord) → SlotsRecorder
  | [] => { r with phase := .forgetting stopping r.finished }
  | (session, range) :: changed =>
    { r with phase := .recording stopping session range (range.rows session) true changed }

/-- The `select!` returns, at a tick or at the stop, and a write begins. -/
def wake (r : SlotsRecorder) (stopping : Bool) : SlotsRecorder := r.next stopping r.changed

/-- One step of a write, `reply` being what becomes of the call if it makes one. A write over reads
what is due at the next tick, or ends the recorder. -/
def advance (r : SlotsRecorder) (reply : Reply) : SlotsRecorder :=
  match r.phase with
  | .waiting => r
  | .recording stopping session range (row :: rows) recorded changed =>
    let (result, table) := r.table.record row reply
    { r with
      table := table
      phase := .recording stopping session range rows (recorded && result.isOk) changed }
  | .recording stopping session range [] recorded changed =>
    let written := if recorded then r.written.insert session range.span else r.written
    { r with written := written }.next stopping changed
  | .forgetting stopping (session :: finished) =>
    { r with
      ranges := r.ranges.forget session
      written := r.written.erase session
      phase := .forgetting stopping finished }
  | .forgetting true [] => { r with phase := .stopped }
  | .forgetting false [] => { r with due := r.ranges, phase := .waiting }
  | .stopped => r

end SlotsRecorder

end YogSothoth.Grpc
