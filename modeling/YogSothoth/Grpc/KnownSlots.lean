import YogSothoth.Core.Types
import YogSothoth.Framework.OrdMap

namespace YogSothoth.Grpc

/-- The bank a message names, or that it names none. -/
inductive Bank where
  | id (n : Nat)
  | unknown
  deriving DecidableEq

namespace Bank

/-- A transaction's or a block-meta's `bank_id`: 0 is "not sent". -/
def fromWire (id : UInt64) : Bank := if id = 0 then .unknown else .id id.toNat

/-- A slot status's `bank_id`, the one field the proto makes optional. -/
def fromStatus (id : Option UInt64) : Bank := id.elim .unknown fromWire

/-- Whether a message of `bank` belongs to the slot whose kept bank is `kept`. -/
def admits (kept bank : Bank) : Bool :=
  match kept, bank with
  | .id kept, .id bank => kept = bank
  | _, _ => true

@[simp] theorem admits_id (k b : Nat) : (Bank.id k).admits (.id b) = decide (k = b) := rfl

end Bank

/-- What a block-meta settled about its bank. -/
inductive SlotOutcome where
  | at (instant : Instant)
  | givenUp
  deriving DecidableEq

def SlotOutcome.isAt : SlotOutcome → Bool
  | .at _ => true
  | .givenUp => false

/-- What a payload of a given bank meets in the table. -/
inductive Settlement where
  | pending
  | losing
  | settled (outcome : SlotOutcome)
  deriving DecidableEq

/-- One slot's facts: an outcome per bank a block-meta named, and the bank kept. -/
structure Facts where
  times : List (Bank × SlotOutcome)
  kept : Option Bank
  deriving DecidableEq

namespace Facts

def default : Facts := ⟨[], none⟩

def admitted (f : Facts) (kept : Bank) : List SlotOutcome :=
  (f.times.filter (fun e => kept.admits e.1)).map Prod.snd

/-- The kept bank's instant: a found one before a given-up one. -/
def time (f : Facts) (kept : Bank) : Option SlotOutcome :=
  ((f.admitted kept).find? SlotOutcome.isAt).or (f.admitted kept).head?

end Facts

/-- The first entry of `bank` takes the instant; without one, an entry is pushed. -/
def resolveTimes (bank : Bank) (instant : Instant) :
    List (Bank × SlotOutcome) → List (Bank × SlotOutcome)
  | [] => [(bank, .at instant)]
  | (known, outcome) :: times =>
    if known = bank then (known, .at instant) :: times
    else (known, outcome) :: resolveTimes bank instant times

/-- A given-up bank is pushed only when nothing is known of it. -/
def giveUpTimes (bank : Bank) (times : List (Bank × SlotOutcome)) : List (Bank × SlotOutcome) :=
  if times.any (fun e => e.1 = bank) then times else times ++ [(bank, .givenUp)]

/-- The slots' facts, in one bounded table. -/
structure KnownSlots where
  facts : OrdMap Nat Facts
  maxKnownSlots : Nat
  deriving DecidableEq

namespace KnownSlots

def new (maxKnownSlots : Nat) : KnownSlots := ⟨∅, maxKnownSlots⟩

def settlement (k : KnownSlots) (slot : Nat) (bank : Bank) : Settlement :=
  match k.facts.get? slot with
  | none => .pending
  | some facts =>
    match facts.kept with
    | none => .pending
    | some kept =>
      if kept.admits bank then (facts.time kept).elim .pending .settled else .losing

def kept (k : KnownSlots) (slot : Nat) : Option Bank :=
  (k.facts.get? slot).bind Facts.kept

def time (k : KnownSlots) (slot : Nat) : Option SlotOutcome :=
  (k.facts.get? slot).bind (fun facts => facts.kept.bind facts.time)

/-- `pop_first` while more than `maxKnownSlots` are remembered. -/
def trim (k : KnownSlots) : KnownSlots :=
  { k with facts := k.facts.dropFirst (k.facts.size - k.maxKnownSlots) }

/-- `entry(slot).or_default()`, changed by `f`, before the trim. -/
def edit (k : KnownSlots) (slot : Nat) (f : Facts → Facts) : KnownSlots :=
  { k with facts := k.facts.insert slot (f (k.facts.getD slot Facts.default)) }

def resolveFacts (bank : Bank) (instant : Instant) (f : Facts) : Facts :=
  { f with times := resolveTimes bank instant f.times }

def giveUpFacts (bank : Bank) (f : Facts) : Facts :=
  { f with times := giveUpTimes bank f.times }

/-- A second status for the slot changes nothing. -/
def keepFacts (bank : Bank) (f : Facts) : Facts :=
  { f with kept := f.kept.or (some bank) }

def resolve (k : KnownSlots) (slot : Nat) (bank : Bank) (instant : Instant) : KnownSlots :=
  (k.edit slot (resolveFacts bank instant)).trim

def giveUp (k : KnownSlots) (slot : Nat) (bank : Bank) : KnownSlots :=
  (k.edit slot (giveUpFacts bank)).trim

def keep (k : KnownSlots) (slot : Nat) (bank : Bank) : KnownSlots :=
  (k.edit slot (keepFacts bank)).trim

end KnownSlots

end YogSothoth.Grpc
