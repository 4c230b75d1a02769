import YogSothoth.Extraction.Translator

namespace YogSothoth.Extraction

open Borsh
open Projection (EventPosition)

/-- What every event of one transaction shares. -/
structure TransactionPosition where
  signature : Signature
  timestamp : Instant
  slot : UInt64
  transactionIndex : Option UInt32
  deriving DecidableEq

def TransactionPosition.at_ (self : TransactionPosition) (eventIndex : UInt16) : EventPosition :=
  { signature := self.signature, timestamp := self.timestamp, slot := self.slot,
    transactionIndex := self.transactionIndex, eventIndex }

structure InnerInstructionPayload where
  programId : Pubkey
  data : List UInt8
  deriving DecidableEq

/-- A transaction as the extractors see it, whatever source delivered it. -/
structure OnChainTransaction where
  position : TransactionPosition
  innerInstructions : List InnerInstructionPayload
  deriving DecidableEq

inductive AnchorDecodeError where
  | payloadTooShort (min got : Nat)
  | notAnAnchorEvent
  deriving DecidableEq

def AnchorDecodeError.toString : AnchorDecodeError → String
  | .payloadTooShort min got =>
      "payload too short: expected at least " ++ ToString.toString min ++ " bytes, got " ++
        ToString.toString got
  | .notAnAnchorEvent => "not an Anchor event_cpi instruction: tag mismatch"

def EVENT_IX_TAG_LEN : Nat := 8

def EVENT_IX_TAG : List UInt8 := [0xe4, 0x45, 0xa5, 0x2e, 0x51, 0xcb, 0x9a, 0x1d]

/-- The discriminator and the borsh body of an `event_cpi` payload. The tag is tested before the
second length, so that an instruction without arguments is not a failure. -/
def decodeAnchorEventCpi (data : List UInt8) :
    Except AnchorDecodeError (List UInt8 × List UInt8) :=
  if data.length < DISCRIMINATOR_LEN then
    .error (.payloadTooShort DISCRIMINATOR_LEN data.length)
  else if !EVENT_IX_TAG.isPrefixOf data then .error .notAnAnchorEvent
  else if data.length < EVENT_IX_TAG_LEN + DISCRIMINATOR_LEN then
    .error (.payloadTooShort (EVENT_IX_TAG_LEN + DISCRIMINATOR_LEN) data.length)
  else
    .ok ((data.drop EVENT_IX_TAG_LEN).take DISCRIMINATOR_LEN,
      data.drop (EVENT_IX_TAG_LEN + DISCRIMINATOR_LEN))

/-- Every inner-instruction payload addressed to the program. -/
def extractAnchorEventCpis (tx : OnChainTransaction) (targetProgramId : Pubkey) :
    List (List UInt8) :=
  (tx.innerInstructions.filter (fun ix => ix.programId == targetProgramId)).map (·.data)

structure IndexedWireEvent where
  eventIndex : UInt16
  event : DammV2WireEvent

structure UnknownEvent where
  discriminator : List UInt8

inductive ExtractFailure where
  | anchorDecode (source : AnchorDecodeError)
  | borsh (eventName : String) (discriminator : List UInt8) (reason : String)
  | eventIndexOverflow (index : Nat)

structure ExtractedEvents where
  events : List IndexedWireEvent := []
  unknown : List UnknownEvent := []
  failures : List ExtractFailure := []

inductive Dispatch where
  | recognized (event : DammV2WireEvent)
  | ignored
  | unknown
  | borshFailed (eventName reason : String)

/-- One arm of the dispatch: the body deserialized as the event's type, all of it. -/
def recognize {α : Type} [BorshDeserialize α] (eventName : String) (wrap : α → DammV2WireEvent)
    (body : List UInt8) : Dispatch :=
  match tryFromSlice α body with
  | .ok e => .recognized (wrap e)
  | .error reason => .borshFailed eventName reason

def dispatch (disc body : List UInt8) (known : KnownDiscriminators) : Dispatch :=
  if disc = known.swap2 then recognize "EvtSwap2" .swap2 body
  else if disc = known.liquidity then recognize "EvtLiquidityChange" .liquidityChange body
  else if disc = known.claimPosFee then recognize "EvtClaimPositionFee" .claimPositionFee body
  else if disc = known.claimReward then recognize "EvtClaimReward" .claimReward body
  else if disc = known.claimProtocolFee then
    recognize "EvtClaimProtocolFee" .claimProtocolFee body
  else if disc = known.initializeReward then
    recognize "EvtInitializeReward" .initializeReward body
  else if disc = known.fundReward then recognize "EvtFundReward" .fundReward body
  else if disc = known.withdrawIneligibleReward then
    recognize "EvtWithdrawIneligibleReward" .withdrawIneligibleReward body
  else if disc = known.updateRewardDuration then
    recognize "EvtUpdateRewardDuration" .updateRewardDuration body
  else if disc = known.updateRewardFunder then
    recognize "EvtUpdateRewardFunder" .updateRewardFunder body
  else if disc = known.withdrawDeadLiquidityReward then
    recognize "EvtWithdrawDeadLiquidityReward" .withdrawDeadLiquidityReward body
  else if disc = known.splitPosition3 then recognize "EvtSplitPosition3" .splitPosition3 body
  else if disc = known.splitPosition2Deprecated then .ignored
  else if disc = known.createPosition then recognize "EvtCreatePosition" .createPosition body
  else if disc = known.closePosition then recognize "EvtClosePosition" .closePosition body
  else if disc = known.lockPosition then recognize "EvtLockPosition" .lockPosition body
  else if disc = known.permanentLockPosition then
    recognize "EvtPermanentLockPosition" .permanentLockPosition body
  else if disc = known.initializePool then recognize "EvtInitializePool" .initializePool body
  else if disc = known.setPoolStatus then recognize "EvtSetPoolStatus" .setPoolStatus body
  else if disc = known.updatePoolFees then recognize "EvtUpdatePoolFees" .updatePoolFees body
  else .unknown

/-- `u16::try_from`. -/
def u16TryFrom (index : Nat) : Option UInt16 :=
  if index < 2 ^ 16 then some (UInt16.ofNat index) else none

/-- One turn of the loop: the payload is numbered before it is decoded. -/
def ExtractedEvents.step (out : ExtractedEvents) (payload : List UInt8 × Nat) :
    ExtractedEvents :=
  match u16TryFrom payload.2 with
  | none => { out with failures := out.failures ++ [.eventIndexOverflow payload.2] }
  | some eventIndex =>
    match decodeAnchorEventCpi payload.1 with
    | .ok (disc, body) =>
      match dispatch disc body known with
      | .recognized event => { out with events := out.events ++ [⟨eventIndex, event⟩] }
      | .ignored => out
      | .unknown => { out with unknown := out.unknown ++ [⟨disc⟩] }
      | .borshFailed eventName reason =>
        { out with failures := out.failures ++ [.borsh eventName disc reason] }
    | .error .notAnAnchorEvent => out
    | .error e => { out with failures := out.failures ++ [.anchorDecode e] }

/-- Every DAMM v2 wire event the transaction emitted to the program. -/
def extractWireEvents (tx : OnChainTransaction) (programId : Pubkey) : ExtractedEvents :=
  (extractAnchorEventCpis tx programId).zipIdx.foldl ExtractedEvents.step {}

structure UnknownEventInfo where
  protocol : Protocol
  discriminator : List UInt8

inductive ExtractionFailure where
  | anchorDecode (message : String)
  | borsh (eventName reason : String)
  | translation (eventName reason : String)
  | eventIndexOverflow (index : Nat)

structure ExtractionOutcome where
  events : List DomainEvent := []
  unknown : List UnknownEventInfo := []
  failures : List ExtractionFailure := []

def mapExtractorFailure : ExtractFailure → ExtractionFailure
  | .anchorDecode source => .anchorDecode source.toString
  | .borsh eventName _ reason => .borsh eventName reason
  | .eventIndexOverflow index => .eventIndexOverflow index

/-- One turn of the translation: a failure is kept and the loop goes on. -/
def ExtractionOutcome.translate (transactionPosition : TransactionPosition)
    (outcome : ExtractionOutcome) (indexed : IndexedWireEvent) : ExtractionOutcome :=
  match translateWireEvent indexed.event (transactionPosition.at_ indexed.eventIndex) with
  | .ok domain => { outcome with events := outcome.events ++ [domain] }
  | .error e =>
    { outcome with failures := outcome.failures ++
        [.translation (wireEventName indexed.event) e.toString] }

/-- One domain event per translated wire event, after what the decoding could not process. -/
def translateExtractedEvents (wireOutcome : ExtractedEvents) (protocol : Protocol)
    (transactionPosition : TransactionPosition) : ExtractionOutcome :=
  wireOutcome.events.foldl (ExtractionOutcome.translate transactionPosition)
    { unknown := wireOutcome.unknown.map (fun u => ⟨protocol, u.discriminator⟩)
      failures := wireOutcome.failures.map mapExtractorFailure }

/-- The DAMM v2 protocol handler. -/
structure MeteoraDammV2 where
  protocol : Protocol
  programId : Pubkey

/-- The bytes of `cpamdpZCGKUy5JxQXB4dcpGPiikHawvSWAd6mEn1sGG`. -/
def METEORA_DAMM_V2_PROGRAM_ID : Pubkey where
  bytes := [9, 45, 33, 53, 101, 122, 21, 156, 43, 135, 212, 182, 106, 112, 219, 142,
    151, 82, 56, 159, 247, 106, 175, 32, 108, 237, 6, 58, 56, 249, 90, 237]
  size := rfl

def MeteoraDammV2.new : MeteoraDammV2 := ⟨.meteoraDammV2, METEORA_DAMM_V2_PROGRAM_ID⟩

def MeteoraDammV2.extractEvents (self : MeteoraDammV2) (tx : OnChainTransaction) :
    ExtractionOutcome :=
  translateExtractedEvents (extractWireEvents tx self.programId) self.protocol tx.position

end YogSothoth.Extraction
