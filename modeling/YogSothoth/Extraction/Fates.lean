import YogSothoth.Extraction.Extractor
import Mathlib.Data.List.Basic
import Mathlib.Data.List.Pairwise
import Mathlib.Data.List.Range

namespace YogSothoth.Extraction

/-- What one payload addressed to the program ends as. -/
inductive Fate (E U F : Type) where
  | event (e : E)
  | unknown (u : U)
  | failure (f : F)
  | dropped

namespace Fate

variable {E U F : Type}

def event? : Fate E U F → Option E
  | .event e => some e
  | _ => none

def unknown? : Fate E U F → Option U
  | .unknown u => some u
  | _ => none

def failure? : Fate E U F → Option F
  | .failure f => some f
  | _ => none

def isDropped : Fate E U F → Bool
  | .dropped => true
  | _ => false

theorem event?_eq_some {fate : Fate E U F} {e : E} (h : fate.event? = some e) :
    fate = .event e := by
  cases fate with
  | event e' => cases h; rfl
  | _ => cases h

theorem failure?_eq_some {fate : Fate E U F} {f : F} (h : fate.failure? = some f) :
    fate = .failure f := by
  cases fate with
  | failure f' => cases h; rfl
  | _ => cases h

/-- Each payload is counted once. -/
theorem length_eq (fates : List (Fate E U F)) :
    (fates.filterMap event?).length + (fates.filterMap unknown?).length +
      (fates.filterMap failure?).length + fates.countP isDropped = fates.length := by
  induction fates with
  | nil => rfl
  | cons fate fates ih =>
    cases fate <;> simp only [List.filterMap_cons, List.countP_cons, List.length_cons, event?,
      unknown?, failure?, isDropped] <;> simp <;> omega

end Fate

/-- The fate of a payload in the wire extraction. -/
def wireFate (payload : List UInt8 × Nat) : Fate IndexedWireEvent UnknownEvent ExtractFailure :=
  match u16TryFrom payload.2 with
  | none => .failure (.eventIndexOverflow payload.2)
  | some eventIndex =>
    match decodeAnchorEventCpi payload.1 with
    | .ok (disc, body) =>
      match dispatch disc body known with
      | .recognized event => .event ⟨eventIndex, event⟩
      | .ignored => .dropped
      | .unknown => .unknown ⟨disc⟩
      | .borshFailed eventName reason => .failure (.borsh eventName disc reason)
    | .error .notAnAnchorEvent => .dropped
    | .error e => .failure (.anchorDecode e)

/-- The fate of a wire event in the translation. -/
def translationFate (at_ : TransactionPosition) (indexed : IndexedWireEvent) :
    Fate DomainEvent UnknownEventInfo ExtractionFailure :=
  match translateWireEvent indexed.event (at_.at_ indexed.eventIndex) with
  | .ok domain => .event domain
  | .error e => .failure (.translation (wireEventName indexed.event) e.toString)

/-- The fate of a payload in the whole extraction. -/
def MeteoraDammV2.fate (self : MeteoraDammV2) (at_ : TransactionPosition)
    (payload : List UInt8 × Nat) : Fate DomainEvent UnknownEventInfo ExtractionFailure :=
  match wireFate payload with
  | .event indexed => translationFate at_ indexed
  | .unknown u => .unknown ⟨self.protocol, u.discriminator⟩
  | .failure f => .failure (mapExtractorFailure f)
  | .dropped => .dropped

theorem ExtractedEvents.step_eq (out : ExtractedEvents) (payload : List UInt8 × Nat) :
    out.step payload =
      { events := out.events ++ (wireFate payload).event?.toList
        unknown := out.unknown ++ (wireFate payload).unknown?.toList
        failures := out.failures ++ (wireFate payload).failure?.toList } := by
  unfold ExtractedEvents.step wireFate
  cases hindex : u16TryFrom payload.2 with
  | none => simp [Fate.event?, Fate.unknown?, Fate.failure?]
  | some eventIndex =>
    cases hdecode : decodeAnchorEventCpi payload.1 with
    | error e => cases e <;> simp [Fate.event?, Fate.unknown?, Fate.failure?]
    | ok decoded =>
      obtain ⟨disc, body⟩ := decoded
      cases hdispatch : dispatch disc body known <;>
        simp [hdispatch, Fate.event?, Fate.unknown?, Fate.failure?]

theorem ExtractedEvents.foldl_step (payloads : List (List UInt8 × Nat)) (out : ExtractedEvents) :
    payloads.foldl ExtractedEvents.step out =
      { events := out.events ++ (payloads.map wireFate).filterMap Fate.event?
        unknown := out.unknown ++ (payloads.map wireFate).filterMap Fate.unknown?
        failures := out.failures ++ (payloads.map wireFate).filterMap Fate.failure? } := by
  induction payloads generalizing out with
  | nil => simp
  | cons payload payloads ih =>
    rw [List.foldl_cons, ih, ExtractedEvents.step_eq]
    simp only [List.map_cons, List.filterMap_cons, List.append_assoc]
    congr 1 <;> congr 1 <;>
      cases wireFate payload <;> rfl

theorem ExtractionOutcome.translate_eq (at_ : TransactionPosition) (outcome : ExtractionOutcome)
    (indexed : IndexedWireEvent) :
    outcome.translate at_ indexed =
      { outcome with
        events := outcome.events ++ (translationFate at_ indexed).event?.toList
        failures := outcome.failures ++ (translationFate at_ indexed).failure?.toList } := by
  unfold ExtractionOutcome.translate translationFate
  cases translateWireEvent indexed.event (at_.at_ indexed.eventIndex) <;>
    simp [Fate.event?, Fate.failure?]

theorem ExtractionOutcome.foldl_translate (at_ : TransactionPosition)
    (indexed : List IndexedWireEvent) (outcome : ExtractionOutcome) :
    indexed.foldl (ExtractionOutcome.translate at_) outcome =
      { outcome with
        events := outcome.events ++ (indexed.map (translationFate at_)).filterMap Fate.event?
        failures :=
          outcome.failures ++ (indexed.map (translationFate at_)).filterMap Fate.failure? } := by
  induction indexed generalizing outcome with
  | nil => simp
  | cons i indexed ih =>
    rw [List.foldl_cons, ih, ExtractionOutcome.translate_eq]
    simp only [List.map_cons, List.filterMap_cons, List.append_assoc]
    congr 1 <;> congr 1 <;>
      cases translationFate at_ i <;> rfl

theorem translationFate_unknown? (at_ : TransactionPosition) (indexed : IndexedWireEvent) :
    (translationFate at_ indexed).unknown? = none := by
  unfold translationFate
  cases translateWireEvent indexed.event (at_.at_ indexed.eventIndex) <;> rfl

section Outcome

variable (self : MeteoraDammV2) (at_ : TransactionPosition) (payloads : List (List UInt8 × Nat))

theorem filterMap_event?_fate :
    (((payloads.map wireFate).filterMap Fate.event?).map (translationFate at_)).filterMap
      Fate.event? = (payloads.map (self.fate at_)).filterMap Fate.event? := by
  induction payloads with
  | nil => rfl
  | cons payload payloads ih =>
    simp only [List.map_cons, List.filterMap_cons, MeteoraDammV2.fate]
    cases wireFate payload <;> simp only [Fate.event?, List.map_cons, List.filterMap_cons, ih]

theorem filterMap_unknown?_fate :
    ((payloads.map wireFate).filterMap Fate.unknown?).map
      (fun u => (⟨self.protocol, u.discriminator⟩ : UnknownEventInfo)) =
      (payloads.map (self.fate at_)).filterMap Fate.unknown? := by
  induction payloads with
  | nil => rfl
  | cons payload payloads ih =>
    simp only [List.map_cons, List.filterMap_cons, MeteoraDammV2.fate]
    cases wireFate payload with
    | event indexed =>
      rw [translationFate_unknown?]
      exact ih
    | unknown u => simp only [Fate.unknown?, List.map_cons, ih]
    | failure f => exact ih
    | dropped => exact ih

/-- The failures of the decoding come first, those of the translation after them. -/
theorem filterMap_failure?_fate :
    (((payloads.map wireFate).filterMap Fate.failure?).map mapExtractorFailure ++
      (((payloads.map wireFate).filterMap Fate.event?).map (translationFate at_)).filterMap
        Fate.failure?).Perm ((payloads.map (self.fate at_)).filterMap Fate.failure?) := by
  induction payloads with
  | nil => exact List.Perm.nil
  | cons payload payloads ih =>
    simp only [List.map_cons, List.filterMap_cons, MeteoraDammV2.fate]
    cases wireFate payload with
    | event indexed =>
      simp only [Fate.event?, Fate.failure?, List.map_cons, List.filterMap_cons]
      cases translationFate at_ indexed with
      | failure f => exact List.perm_middle.trans (ih.cons f)
      | _ => exact ih
    | failure f => exact ih.cons _
    | unknown u => exact ih
    | dropped => exact ih

end Outcome

namespace MeteoraDammV2

variable (self : MeteoraDammV2) (tx : OnChainTransaction)

/-- The fates of the payloads addressed to the program, in their order. -/
def fates : List (Fate DomainEvent UnknownEventInfo ExtractionFailure) :=
  (extractAnchorEventCpis tx self.programId).zipIdx.map (self.fate tx.position)

theorem extractEvents_events :
    (self.extractEvents tx).events = (self.fates tx).filterMap Fate.event? := by
  unfold extractEvents translateExtractedEvents extractWireEvents
  rw [ExtractionOutcome.foldl_translate, ExtractedEvents.foldl_step]
  exact filterMap_event?_fate self tx.position _

theorem extractEvents_unknown :
    (self.extractEvents tx).unknown = (self.fates tx).filterMap Fate.unknown? := by
  unfold extractEvents translateExtractedEvents extractWireEvents
  rw [ExtractionOutcome.foldl_translate, ExtractedEvents.foldl_step]
  exact filterMap_unknown?_fate self tx.position _

theorem extractEvents_failures :
    (self.extractEvents tx).failures.Perm ((self.fates tx).filterMap Fate.failure?) := by
  unfold extractEvents translateExtractedEvents extractWireEvents
  rw [ExtractionOutcome.foldl_translate, ExtractedEvents.foldl_step]
  exact filterMap_failure?_fate self tx.position _

end MeteoraDammV2

theorem u16TryFrom_eq_some {index : Nat} {eventIndex : UInt16}
    (h : u16TryFrom index = some eventIndex) : eventIndex.toNat = index := by
  unfold u16TryFrom at h
  split at h
  · cases h
    rw [UInt16.toNat_ofNat']
    exact Nat.mod_eq_of_lt (by assumption)
  · cases h

theorem wireFate_event {payload : List UInt8 × Nat} {indexed : IndexedWireEvent}
    (h : wireFate payload = .event indexed) : indexed.eventIndex.toNat = payload.2 := by
  unfold wireFate at h
  split at h
  · cases h
  · rename_i eventIndex hindex
    have hnat := u16TryFrom_eq_some hindex
    split at h
    · split at h
      all_goals cases h
      exact hnat
    · cases h
    · cases h

theorem translationFate_event {at_ : TransactionPosition} {indexed : IndexedWireEvent}
    {e : DomainEvent} (h : translationFate at_ indexed = .event e) :
    e.eventPosition = at_.at_ indexed.eventIndex := by
  unfold translationFate at h
  split at h
  · rename_i domain hdomain
    cases h
    exact translateWireEvent_position hdomain
  · cases h

/-- An event carries the transaction's position and the index of its payload. -/
theorem MeteoraDammV2.fate_event {self : MeteoraDammV2} {at_ : TransactionPosition}
    {payload : List UInt8 × Nat} {e : DomainEvent} (h : self.fate at_ payload = .event e) :
    e.eventPosition = at_.at_ e.eventPosition.eventIndex ∧
      e.eventPosition.eventIndex.toNat = payload.2 := by
  unfold MeteoraDammV2.fate at h
  split at h
  · rename_i indexed hwire
    have hposition := translationFate_event h
    have hindex : e.eventPosition.eventIndex = indexed.eventIndex := by rw [hposition]; rfl
    refine ⟨?_, ?_⟩
    · rw [hindex, hposition]
    · rw [hindex]
      exact wireFate_event hwire
  all_goals cases h

end YogSothoth.Extraction
