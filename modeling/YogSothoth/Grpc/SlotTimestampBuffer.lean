import YogSothoth.Grpc.KnownSlots
import YogSothoth.Grpc.WaitingSlots

namespace YogSothoth.Grpc

def maxPendingSlots : Nat := 256

def maxPendingPayloads : Nat := 8192

/-- The whole window, head included. -/
def maxKnownSlots : Nat := maxPendingSlots + 1

/-- A payload and the block time found for it. -/
structure Resolved (T : Type*) where
  payload : T
  instant : Instant
  deriving DecidableEq

/-- A payload waiting, with the bank it was produced in. -/
structure Held (T : Type*) where
  bank : Bank
  payload : T
  deriving DecidableEq

/-- Holds each payload until its slot's kept bank and that bank's instant are both known. -/
structure SlotTimestampBuffer (T : Type*) where
  waiting : WaitingSlots (Held T)
  known : KnownSlots

namespace SlotTimestampBuffer

variable {T : Type*}

def withBounds (maxPendingSlots maxPendingPayloads maxKnownSlots : Nat) : SlotTimestampBuffer T :=
  ⟨.new maxPendingSlots maxPendingPayloads, .new maxKnownSlots⟩

def new : SlotTimestampBuffer T := withBounds maxPendingSlots maxPendingPayloads maxKnownSlots

def onPayload (b : SlotTimestampBuffer T) (slot : Nat) (bank : Bank) (payload : T) :
    Option (Resolved T) × SlotTimestampBuffer T :=
  match b.known.settlement slot bank with
  | .settled (.at instant) => (some ⟨payload, instant⟩, b)
  | .settled .givenUp =>
    (none, { b with waiting := { b.waiting with
      metrics := b.waiting.metrics.recordEvicted 1 .unresolvable [⟨bank, payload⟩] } })
  | .losing =>
    (none, { b with waiting := { b.waiting with
      metrics := b.waiting.metrics.recordLosingBank 1 [⟨bank, payload⟩] } })
  | .pending => (none, { b with waiting := b.waiting.push slot ⟨bank, payload⟩ })

/-- Apply what is known about `slot` to what waits for it. -/
def settle (b : SlotTimestampBuffer T) (slot : Nat) : List (Resolved T) × SlotTimestampBuffer T :=
  match b.known.kept slot with
  | none => ([], { b with waiting := b.waiting.observe slot })
  | some kept =>
    let waiting := b.waiting.dropLosing slot (fun held => !kept.admits held.bank)
    match b.known.time slot with
    | some (.at instant) =>
      let (released, waiting) := waiting.release slot
      (released.map (fun held => ⟨held.payload, instant⟩), { b with waiting := waiting })
    | some .givenUp => ([], { b with waiting := waiting.giveUp slot })
    | none => ([], { b with waiting := waiting.observe slot })

def onBlockTime (b : SlotTimestampBuffer T) (slot : Nat) (bank : Bank) (instant : Instant) :
    List (Resolved T) × SlotTimestampBuffer T :=
  { b with known := b.known.resolve slot bank instant }.settle slot

def onSlotUnresolvable (b : SlotTimestampBuffer T) (slot : Nat) (bank : Bank) :
    List (Resolved T) × SlotTimestampBuffer T :=
  { b with known := b.known.giveUp slot bank }.settle slot

def onFinalized (b : SlotTimestampBuffer T) (slot : Nat) (bank : Bank) :
    List (Resolved T) × SlotTimestampBuffer T :=
  { b with known := b.known.keep slot bank }.settle slot

def oldestPendingSlot (b : SlotTimestampBuffer T) : Option Nat := b.waiting.oldest

end SlotTimestampBuffer

/-- A call on the buffer. -/
inductive Call (T : Type*) where
  | payload (slot : Nat) (bank : Bank) (value : T)
  | blockTime (slot : Nat) (bank : Bank) (instant : Instant)
  | slotUnresolvable (slot : Nat) (bank : Bank)
  | finalized (slot : Nat) (bank : Bank)

namespace Call

variable {T : Type*}

def slot : Call T → Nat
  | .payload slot _ _ | .blockTime slot _ _ | .slotUnresolvable slot _ | .finalized slot _ => slot

/-- What the call returns, and the buffer after it. -/
def apply (b : SlotTimestampBuffer T) : Call T → List (Resolved T) × SlotTimestampBuffer T
  | .payload slot bank value =>
    let (resolved, b) := b.onPayload slot bank value
    (resolved.toList, b)
  | .blockTime slot bank instant => b.onBlockTime slot bank instant
  | .slotUnresolvable slot bank => b.onSlotUnresolvable slot bank
  | .finalized slot bank => b.onFinalized slot bank

end Call

/-- A buffer with all it has returned, each payload under the slot of the call that returned it. -/
structure BufferRun (T : Type*) where
  buffer : SlotTimestampBuffer T
  returned : List (Nat × Resolved T)

namespace BufferRun

variable {T : Type*}

def step (r : BufferRun T) (c : Call T) : BufferRun T :=
  let (resolved, buffer) := c.apply r.buffer
  ⟨buffer, r.returned ++ resolved.map (fun x => (c.slot, x))⟩

def exec (b : SlotTimestampBuffer T) (calls : List (Call T)) : BufferRun T :=
  calls.foldl step ⟨b, []⟩

end BufferRun

end YogSothoth.Grpc
