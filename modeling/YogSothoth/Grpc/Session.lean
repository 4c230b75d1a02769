import YogSothoth.Grpc.ReceivedSlots
import YogSothoth.Grpc.SlotTimestampBuffer

namespace YogSothoth.Grpc

variable {T : Type*}

inductive SlotStatus where
  | processed
  | confirmed
  | finalized
  | firstShredReceived
  | completed
  | createdBank
  | dead
  deriving DecidableEq

/-- An update off the stream, with what a session reads of it. -/
inductive Update (T : Type*) where
  | transaction (filters : List String) (slot bankId : UInt64) (body : T)
  | blockMeta (slot bankId : UInt64) (blockTime : Option Int)
  | slotStatus (slot : UInt64) (status : SlotStatus) (bankId : Option UInt64)
  | ping
  | pong
  | other

/-- `Protocol::from_str`. -/
def parseProtocol : String → Option Protocol
  | "meteora_damm_v2" => some .meteoraDammV2
  | "meteora_dlmm" => some .meteoraDlmm
  | _ => none

/-- The protocol an update belongs to: the first of its filters that names one. -/
def protocolOf (filters : List String) : Option Protocol := filters.findSome? parseProtocol

/-- A transaction waiting for its slot's block time. -/
structure PendingTransaction (T : Type*) where
  protocol : Protocol
  slot : UInt64
  bankId : UInt64
  body : T
  deriving DecidableEq

/-- `DateTime::from_timestamp` of whole seconds: `none` outside the years chrono represents. -/
def fromTimestamp (seconds : Int) : Option Instant :=
  if -8334601228800 ≤ seconds ∧ seconds ≤ 8210266876799 then some (seconds * 1000000000) else none

/-- A block-meta's block time; `none` when it carries none, or one out of range. -/
def blockTime (seconds : Option Int) : Option Instant := seconds.bind fromTimestamp

/-- Whether the server names banks, as the session last reported it. -/
inductive BankIds where
  | named
  | missing
  deriving DecidableEq

/-- The slots one session has seen, closed, or is still waiting on. -/
structure SlotProgress (T : Type*) where
  buffer : SlotTimestampBuffer (PendingTransaction T)
  highestMetaSlot : Option Nat
  bankIds : Option BankIds

namespace SlotProgress

def new : SlotProgress T := ⟨.new, none, none⟩

/-- `missing` is sticky. -/
def reportBankNaming (p : SlotProgress T) (bank : Bank) : SlotProgress T :=
  let seen := if bank = .unknown then BankIds.missing else .named
  { p with bankIds := some (if p.bankIds = some .missing then .missing else seen) }

def onTransaction (p : SlotProgress T) (pending : PendingTransaction T) :
    Option (Resolved (PendingTransaction T)) × SlotProgress T :=
  let bank := Bank.fromWire pending.bankId
  let p := p.reportBankNaming bank
  let (resolved, buffer) := p.buffer.onPayload pending.slot.toNat bank pending
  (resolved, { p with buffer := buffer })

def onBlockMeta (p : SlotProgress T) (slot bankId : UInt64) (seconds : Option Int) :
    List (Resolved (PendingTransaction T)) × SlotProgress T :=
  let bank := Bank.fromWire bankId
  let p := p.reportBankNaming bank
  let highest := p.highestMetaSlot.elim slot.toNat (fun seen => max seen slot.toNat)
  let (released, buffer) :=
    match blockTime seconds with
    | none => p.buffer.onSlotUnresolvable slot.toNat bank
    | some instant => p.buffer.onBlockTime slot.toNat bank instant
  (released, { p with buffer := buffer, highestMetaSlot := some highest })

/-- Any level but `Finalized` is stepped over. -/
def onSlotStatus (p : SlotProgress T) (slot : UInt64) (status : SlotStatus) (bankId : Option UInt64) :
    List (Resolved (PendingTransaction T)) × SlotProgress T :=
  if status = .finalized then
    let bank := Bank.fromStatus bankId
    let p := p.reportBankNaming bank
    let (released, buffer) := p.buffer.onFinalized slot.toNat bank
    (released, { p with buffer := buffer })
  else ([], p)

/-- The slots below this one are settled: the oldest pending, else the last closed, less
`heldBackSlots`. -/
def settledBelow (p : SlotProgress T) : Option Nat :=
  (p.buffer.oldestPendingSlot.or p.highestMetaSlot).map (fun unfinished => unfinished - heldBackSlots)

end SlotProgress

/-- Why a session ended, or that it has not. -/
inductive SessionState where
  | open
  | downstreamClosed
  | shutdownRequested
  deriving DecidableEq

/-- The state one subscription accumulates. -/
structure StreamSession (T : Type*) where
  slots : SlotProgress T
  receivedSlots : ReceivedSlots
  receivedData : Bool
  blockMetas : Nat

/-- What handling one update does: the state it answers, what it hands to the delivery, what it
publishes, and the session after. -/
structure Handled (T : Type*) where
  state : SessionState
  delivered : List (Resolved (PendingTransaction T))
  published : Option RangeToRecord
  session : StreamSession T

namespace StreamSession

def new (receivedSlots : ReceivedSlots) : StreamSession T := ⟨.new, receivedSlots, false, 0⟩

/-- Deliver in order, `deliver k` being what the `k`th delivery answers: the first that is not
`open` ends the batch. -/
def deliverAll (deliver : Nat → SessionState) :
    Nat → List (Resolved (PendingTransaction T)) → SessionState × List (Resolved (PendingTransaction T))
  | _, [] => (.open, [])
  | k, resolved :: rest =>
    if deliver k = .open then
      let (state, delivered) := deliverAll deliver (k + 1) rest
      (state, resolved :: delivered)
    else (deliver k, [resolved])

/-- Take one update off the stream. -/
def handle (s : StreamSession T) (deliver : Nat → SessionState) : Update T → Handled T
  | .transaction filters slot bankId body =>
    let s := { s with receivedData := true }
    match protocolOf filters with
    | none => ⟨.open, [], none, s⟩
    | some protocol =>
      let (resolved, slots) := s.slots.onTransaction ⟨protocol, slot, bankId, body⟩
      let (state, delivered) := deliverAll deliver 0 resolved.toList
      ⟨state, delivered, none, { s with slots := slots }⟩
  | .blockMeta slot bankId seconds =>
    let (released, slots) := s.slots.onBlockMeta slot bankId seconds
    let (published, receivedSlots) :=
      match blockTime seconds with
      | some instant => s.receivedSlots.onBlockMeta slot.toNat instant slots.settledBelow
      | none => (none, s.receivedSlots)
    let (state, delivered) := deliverAll deliver 0 released
    ⟨state, delivered, published, ⟨slots, receivedSlots, true, s.blockMetas + 1⟩⟩
  | .slotStatus slot status bankId =>
    let (released, slots) := s.slots.onSlotStatus slot status bankId
    let (state, delivered) := deliverAll deliver 0 released
    ⟨state, delivered, none, { s with slots := slots, receivedData := true }⟩
  | .ping | .pong | .other => ⟨.open, [], none, s⟩

end StreamSession

/-- An update, and what the deliveries it makes answer. -/
structure Arrival (T : Type*) where
  update : Update T
  deliver : Nat → SessionState

/-- A session with the spans it has published. -/
structure SessionRun (T : Type*) where
  session : StreamSession T
  published : List RangeToRecord

namespace SessionRun

def step (r : SessionRun T) (a : Arrival T) : SessionRun T :=
  let handled := r.session.handle a.deliver a.update
  ⟨handled.session, r.published ++ handled.published.toList⟩

def exec (startedAt : Instant) (protocols : List Protocol) (arrivals : List (Arrival T)) :
    SessionRun T :=
  arrivals.foldl step ⟨.new (.new startedAt protocols), []⟩

end SessionRun

end YogSothoth.Grpc
