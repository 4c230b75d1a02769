import YogSothoth.Framework.Runs
import YogSothoth.Rpc.Stages

namespace YogSothoth.Rpc

open Indexer (Codecs IngestedTransaction)
open Indexer.Rpc (EncodedConfirmedTransactionWithStatusMeta)

/-- What the pipeline is built with: the codecs, the scrubbing of the endpoint's secret, and how
much its consumer queues. -/
structure Settings where
  codecs : Codecs
  scrub : String → String
  downstreamCapacity : Nat

def STAGE_CHANNEL_CAPACITY : Nat := 10000

def MAX_CONCURRENT_FETCHES : Nat := 15

/-- The three stages, the two channels between them, the detached fetches, the consumer's channel,
and what became of the events that left. -/
structure Pipeline where
  cancelled : Bool
  consumerGone : Bool
  listenerDone : Bool
  dispatching : Bool
  fetching : Bool
  raw : List RawLogEvent
  signatures : List Tracked
  /-- What `dispatch_one` holds while it waits for a permit. -/
  hand : Option Tracked
  fetches : List Fetch
  downstream : List IngestedTransaction
  consumed : List IngestedTransaction
  fates : List (RawLogEvent × Fate)

inductive Action where
  | log (event : RawLogEvent)
  | listenerDone
  | cancel
  | consumerGone
  | consume
  | handle
  | dispatcherStop
  | recv
  | permit
  | dropHand
  | fetchStop
  | answer (fetch : Nat) (answer : Except String EncodedConfirmedTransactionWithStatusMeta)
  | handOver (fetch : Nat)

namespace Pipeline

def start : Pipeline := ⟨false, false, false, true, true, [], [], none, [], [], [], []⟩

variable (settings : Settings)

/-- `SubscriptionWorker`'s `try_send`. -/
def log (s : Pipeline) (event : RawLogEvent) : Pipeline :=
  if s.dispatching then
    if s.raw.length < STAGE_CHANNEL_CAPACITY then { s with raw := s.raw ++ [event] }
    else { s with fates := s.fates ++ [(event, .channelFull)] }
  else { s with fates := s.fates ++ [(event, .unread)] }

/-- `SignatureDispatcher::handle` of the event at the head of its channel. -/
def handle (s : Pipeline) (event : RawLogEvent) (raw : List RawLogEvent) : Pipeline :=
  match (SignatureDispatcher.newDefault settings.codecs.texts).qualify settings.codecs.texts
      event with
  | .rejected filter reason => { s with raw, fates := s.fates ++ [(event, .rejected filter reason)] }
  | .malformed => { s with raw, fates := s.fates ++ [(event, .malformed)] }
  | .qualified q =>
    if s.fetching then
      if s.signatures.length < STAGE_CHANNEL_CAPACITY then
        { s with raw, signatures := s.signatures ++ [⟨q, event⟩] }
      else { s with raw, fates := s.fates ++ [(event, .saturated)] }
    else { s with raw, fates := s.fates ++ [(event, .unread)] }

/-- The end of a fetch: its permit is free again. -/
def settle (s : Pipeline) (i : Nat) (fetch : Fetch) (fate : Fate) : Pipeline :=
  { s with fetches := s.fetches.eraseIdx i, fates := s.fates ++ [(fetch.tracked.event, fate)] }

/-- One step of a subscription, of a stage, of a detached fetch, or of the consumer. -/
def step (s : Pipeline) : Action → Option Pipeline
  | .log event => if s.listenerDone then none else some (s.log event)
  | .listenerDone => some { s with listenerDone := true }
  | .cancel => some { s with cancelled := true }
  | .consumerGone => some { s with consumerGone := true }
  | .consume =>
    match s.downstream with
    | ingested :: downstream =>
      if s.consumerGone then none
      else some { s with downstream, consumed := s.consumed ++ [ingested] }
    | [] => none
  | .handle =>
    match s.raw with
    | event :: raw => if s.dispatching then some (s.handle settings event raw) else none
    | [] => none
  | .dispatcherStop =>
    if s.dispatching ∧ (s.cancelled ∨ s.listenerDone ∧ s.raw.isEmpty) then
      some { s with
        dispatching := false, raw := [], fates := s.fates ++ s.raw.map (·, .unread) }
    else none
  | .recv =>
    match s.signatures with
    | tracked :: signatures =>
      if s.fetching ∧ s.hand.isNone ∧ !s.cancelled ∧ !s.consumerGone then
        some { s with signatures, hand := some tracked }
      else none
    | [] => none
  | .permit =>
    match s.hand with
    | some tracked =>
      if !s.cancelled ∧ s.fetches.length < MAX_CONCURRENT_FETCHES then
        some { s with hand := none, fetches := s.fetches ++ [Fetch.start tracked] }
      else none
    | none => none
  | .dropHand =>
    match s.hand with
    | some tracked =>
      if s.cancelled then
        some { s with
          hand := none, fates := s.fates ++ [(tracked.event, .dropped "shutdown_before_fetch")] }
      else none
    | none => none
  | .fetchStop =>
    if s.fetching ∧ s.hand.isNone ∧
        (s.cancelled ∨ s.consumerGone ∨ !s.dispatching ∧ s.signatures.isEmpty) then
      some { s with
        fetching := false, signatures := []
        fates := s.fates ++ s.signatures.map (fun tracked => (tracked.event, .unread)) }
    else none
  | .answer i answer => do
    let fetch ← s.fetches[i]?
    match fetch.stage with
    | .asking retries =>
      match fetchAnswer settings.codecs settings.scrub fetch.tracked retries answer with
      | .inl stage => some { s with fetches := s.fetches.set i { fetch with stage } }
      | .inr fate => some (s.settle i fetch fate)
    | .handing _ => none
  | .handOver i => do
    let fetch ← s.fetches[i]?
    match fetch.stage with
    | .handing ingested =>
      if s.cancelled then some (s.settle i fetch (.dropped "shutdown"))
      else if s.consumerGone then some (s.settle i fetch (.dropped "downstream_closed"))
      else if s.downstream.length < settings.downstreamCapacity then
        some { s.settle i fetch (.sent ingested) with downstream := s.downstream ++ [ingested] }
      else none
    | .asking _ => none

def run (s : Pipeline) (actions : List Action) : Option Pipeline :=
  runFrom (step settings) s actions

end Pipeline

/-- The events the subscriptions received, in order. -/
def logged (actions : List Action) : List RawLogEvent :=
  actions.filterMap (fun
    | .log event => some event
    | _ => none)

/-- An event that passes the filters and names a signature. -/
def passes (texts : Texts) (event : RawLogEvent) : Bool :=
  match (SignatureDispatcher.newDefault texts).qualify texts event with
  | .qualified _ => true
  | _ => false

namespace Pipeline

/-- An action is an answer to the fetch of an event. -/
def asks (s : Pipeline) (event : RawLogEvent) : Action → Bool
  | .answer i _ => (s.fetches[i]?).any (fun fetch => fetch.tracked.event = event)
  | _ => false

/-- How often `getTransaction` was called for an event, along a run. -/
def calls (settings : Settings) (event : RawLogEvent) (s : Pipeline) : List Action → Nat
  | [] => 0
  | a :: actions => (s.asks event a).toNat + match step settings s a with
    | some s' => calls settings event s' actions
    | none => 0

theorem calls_concat {settings : Settings} (event : RawLogEvent) {s t : Pipeline}
    {before : List Action} (h : run settings s before = some t) (a : Action) :
    calls settings event s (before ++ [a]) =
      calls settings event s before + (t.asks event a).toNat := by
  induction before generalizing s with
  | nil =>
    cases h
    rw [List.nil_append, calls, calls, Nat.zero_add]
    cases step settings t a with
    | none => rfl
    | some s' => rfl
  | cons b before ih =>
    obtain ⟨u, hu, h⟩ := runFrom_cons.mp h
    rw [List.cons_append, calls, calls, hu]
    dsimp only
    rw [ih h, Nat.add_assoc]

end Pipeline

theorem logged_concat (actions : List Action) (a : Action) :
    logged (actions ++ [a]) = logged actions ++ logged [a] := List.filterMap_append ..

namespace Pipeline

variable {settings : Settings}

/-- What one step does, with its guard. -/
inductive Stepped (settings : Settings) (s : Pipeline) : Action → Pipeline → Prop where
  | queued {event : RawLogEvent} (hlistener : s.listenerDone = false)
      (hroom : s.raw.length < STAGE_CHANNEL_CAPACITY) :
      Stepped settings s (.log event) { s with raw := s.raw ++ [event] }
  | full {event : RawLogEvent} (hlistener : s.listenerDone = false) :
      Stepped settings s (.log event) { s with fates := s.fates ++ [(event, .channelFull)] }
  | unheard {event : RawLogEvent} (hlistener : s.listenerDone = false)
      (hdispatching : s.dispatching = false) :
      Stepped settings s (.log event) { s with fates := s.fates ++ [(event, .unread)] }
  | listenerDone : Stepped settings s .listenerDone { s with listenerDone := true }
  | cancel : Stepped settings s .cancel { s with cancelled := true }
  | consumerGone : Stepped settings s .consumerGone { s with consumerGone := true }
  | consume {ingested : IngestedTransaction} {downstream : List IngestedTransaction}
      (hdownstream : s.downstream = ingested :: downstream) :
      Stepped settings s .consume { s with downstream, consumed := s.consumed ++ [ingested] }
  | refused {event : RawLogEvent} {raw : List RawLogEvent} {fate : Fate}
      (hraw : s.raw = event :: raw) (hpasses : passes settings.codecs.texts event = false)
      (hfate : fate = .malformed ∨ ∃ filter reason, fate = .rejected filter reason) :
      Stepped settings s .handle { s with raw, fates := s.fates ++ [(event, fate)] }
  | qualified {event : RawLogEvent} {raw : List RawLogEvent} {q : QualifiedSignature}
      (hraw : s.raw = event :: raw)
      (hq : (SignatureDispatcher.newDefault settings.codecs.texts).qualify settings.codecs.texts
        event = .qualified q)
      (hroom : s.signatures.length < STAGE_CHANNEL_CAPACITY) :
      Stepped settings s .handle { s with raw, signatures := s.signatures ++ [⟨q, event⟩] }
  | saturated {event : RawLogEvent} {raw : List RawLogEvent} (hraw : s.raw = event :: raw) :
      Stepped settings s .handle { s with raw, fates := s.fates ++ [(event, .saturated)] }
  | unnamed {event : RawLogEvent} {raw : List RawLogEvent} (hraw : s.raw = event :: raw)
      (hdispatching : s.dispatching = true) (hfetching : s.fetching = false) :
      Stepped settings s .handle { s with raw, fates := s.fates ++ [(event, .unread)] }
  | dispatcherStop (hstop : s.cancelled = true ∨ s.listenerDone = true ∧ s.raw = []) :
      Stepped settings s .dispatcherStop { s with
        dispatching := false, raw := [], fates := s.fates ++ s.raw.map (·, .unread) }
  | recv {tracked : Tracked} {signatures : List Tracked}
      (hsignatures : s.signatures = tracked :: signatures) (hhand : s.hand = none) :
      Stepped settings s .recv { s with signatures, hand := some tracked }
  | permit {tracked : Tracked} (hhand : s.hand = some tracked)
      (hroom : s.fetches.length < MAX_CONCURRENT_FETCHES) :
      Stepped settings s .permit
        { s with hand := none, fetches := s.fetches ++ [Fetch.start tracked] }
  | dropHand {tracked : Tracked} (hhand : s.hand = some tracked) :
      Stepped settings s .dropHand { s with
        hand := none, fates := s.fates ++ [(tracked.event, .dropped "shutdown_before_fetch")] }
  | fetchStop (hhand : s.hand = none)
      (hstop : s.cancelled = true ∨ s.consumerGone = true ∨
        s.dispatching = false ∧ s.signatures = []) :
      Stepped settings s .fetchStop { s with
        fetching := false, signatures := []
        fates := s.fates ++ s.signatures.map (fun tracked => (tracked.event, .unread)) }
  | goOn {i : Nat} {fetch : Fetch} {retries : Nat} {stage : FetchStage}
      {answer : Except String EncodedConfirmedTransactionWithStatusMeta}
      (hfetch : s.fetches[i]? = some fetch) (hstage : fetch.stage = .asking retries)
      (hanswer : fetchAnswer settings.codecs settings.scrub fetch.tracked retries answer =
        .inl stage) :
      Stepped settings s (.answer i answer)
        { s with fetches := s.fetches.set i { fetch with stage } }
  | giveUp {i : Nat} {fetch : Fetch} {retries : Nat} {fate : Fate}
      {answer : Except String EncodedConfirmedTransactionWithStatusMeta}
      (hfetch : s.fetches[i]? = some fetch) (hstage : fetch.stage = .asking retries)
      (hanswer : fetchAnswer settings.codecs settings.scrub fetch.tracked retries answer =
        .inr fate) :
      Stepped settings s (.answer i answer) (s.settle i fetch fate)
  | dropFetched {i : Nat} {fetch : Fetch} {ingested : IngestedTransaction} {reason : String}
      (hfetch : s.fetches[i]? = some fetch) (hstage : fetch.stage = .handing ingested) :
      Stepped settings s (.handOver i) (s.settle i fetch (.dropped reason))
  | send {i : Nat} {fetch : Fetch} {ingested : IngestedTransaction}
      (hfetch : s.fetches[i]? = some fetch) (hstage : fetch.stage = .handing ingested)
      (hcancelled : s.cancelled = false)
      (hroom : s.downstream.length < settings.downstreamCapacity) :
      Stepped settings s (.handOver i)
        { s.settle i fetch (.sent ingested) with downstream := s.downstream ++ [ingested] }

theorem log_stepped {s : Pipeline} {event : RawLogEvent} (hlistener : s.listenerDone = false) :
    Stepped settings s (.log event) (s.log event) := by
  unfold log
  split_ifs with hdispatching hroom
  · exact .queued hlistener hroom
  · exact .full hlistener
  · exact .unheard hlistener (Bool.not_eq_true _ ▸ hdispatching)

theorem handle_stepped {s : Pipeline} {event : RawLogEvent} {raw : List RawLogEvent}
    (hraw : s.raw = event :: raw) (hdispatching : s.dispatching = true) :
    Stepped settings s .handle (s.handle settings event raw) := by
  unfold handle
  cases hq : (SignatureDispatcher.newDefault settings.codecs.texts).qualify settings.codecs.texts
      event with
  | rejected filter reason =>
    exact .refused hraw (by rw [passes, hq]) (Or.inr ⟨filter, reason, rfl⟩)
  | malformed => exact .refused hraw (by rw [passes, hq]) (Or.inl rfl)
  | qualified q =>
    dsimp only
    split_ifs with hfetching hroom
    · exact .qualified hraw hq hroom
    · exact .saturated hraw
    · exact .unnamed hraw hdispatching (Bool.not_eq_true _ ▸ hfetching)

theorem step_stepped {s s' : Pipeline} {a : Action} (h : step settings s a = some s') :
    Stepped settings s a s' := by
  cases a with
  | log event =>
    simp only [step] at h
    split_ifs at h with hlistener
    cases h
    exact log_stepped (Bool.not_eq_true _ ▸ hlistener)
  | listenerDone => cases h; exact .listenerDone
  | cancel => cases h; exact .cancel
  | consumerGone => cases h; exact .consumerGone
  | consume =>
    cases hdownstream : s.downstream with
    | nil => simp only [step, hdownstream] at h; cases h
    | cons ingested downstream =>
      simp only [step, hdownstream] at h
      split_ifs at h
      cases h
      exact .consume hdownstream
  | handle =>
    cases hraw : s.raw with
    | nil => simp only [step, hraw] at h; cases h
    | cons event raw =>
      simp only [step, hraw] at h
      split_ifs at h with hdispatching
      cases h
      exact handle_stepped hraw hdispatching
  | dispatcherStop =>
    simp only [step] at h
    split_ifs at h with hguard
    cases h
    exact .dispatcherStop (hguard.2.imp_right (fun h => ⟨h.1, List.isEmpty_iff.mp h.2⟩))
  | recv =>
    cases hsignatures : s.signatures with
    | nil => simp only [step, hsignatures] at h; cases h
    | cons tracked signatures =>
      simp only [step, hsignatures] at h
      split_ifs at h with hguard
      cases h
      exact .recv hsignatures (Option.isNone_iff_eq_none.mp hguard.2.1)
  | permit =>
    cases hhand : s.hand with
    | none => simp only [step, hhand] at h; cases h
    | some tracked =>
      simp only [step, hhand] at h
      split_ifs at h with hguard
      cases h
      exact .permit hhand hguard.2
  | dropHand =>
    cases hhand : s.hand with
    | none => simp only [step, hhand] at h; cases h
    | some tracked =>
      simp only [step, hhand] at h
      split_ifs at h
      cases h
      exact .dropHand hhand
  | fetchStop =>
    simp only [step] at h
    split_ifs at h with hguard
    cases h
    refine .fetchStop (Option.isNone_iff_eq_none.mp hguard.2.1)
      (hguard.2.2.imp_right (Or.imp_right ?_))
    intro hup
    exact ⟨by simpa using hup.1, List.isEmpty_iff.mp hup.2⟩
  | answer i answer =>
    obtain ⟨fetch, hfetch, h⟩ := Option.bind_eq_some_iff.mp h
    cases hstage : fetch.stage with
    | handing ingested => simp only [hstage] at h; cases h
    | asking retries =>
      simp only [hstage] at h
      cases hanswer : fetchAnswer settings.codecs settings.scrub fetch.tracked retries answer with
      | inl stage =>
        simp only [hanswer] at h
        cases h
        exact .goOn hfetch hstage hanswer
      | inr fate =>
        simp only [hanswer] at h
        cases h
        exact .giveUp hfetch hstage hanswer
  | handOver i =>
    obtain ⟨fetch, hfetch, h⟩ := Option.bind_eq_some_iff.mp h
    cases hstage : fetch.stage with
    | asking retries => simp only [hstage] at h; cases h
    | handing ingested =>
      simp only [hstage] at h
      split_ifs at h with hcancelled hgone hroom
      · cases h
        exact .dropFetched hfetch hstage
      · cases h
        exact .dropFetched hfetch hstage
      · cases h
        exact .send hfetch hstage (Bool.not_eq_true _ ▸ hcancelled) hroom

end Pipeline

end YogSothoth.Rpc
