import Mathlib.Algebra.BigOperators.Group.List.Basic
import Mathlib.Tactic.Abel
import YogSothoth.Indexer.AdapterAgreement
import YogSothoth.Rpc.Pipeline

namespace YogSothoth.Rpc

open Indexer (Codecs IngestedTransaction)
open Indexer.Rpc (EncodedConfirmedTransactionWithStatusMeta fromRpc)

/-- What an answer that goes on leaves of a fetch. -/
theorem fetchAnswer_inl {codecs : Codecs} {scrub : String → String} {tracked : Tracked}
    {retries : Nat} {answer : Except String EncodedConfirmedTransactionWithStatusMeta}
    {stage : FetchStage} (h : fetchAnswer codecs scrub tracked retries answer = .inl stage) :
    (∃ left, stage = .asking left ∧ retries = left + 1) ∨
      ∃ fetched transaction, answer = .ok fetched ∧ fromRpc codecs fetched = .ok transaction ∧
        stage = .handing ⟨tracked.qualified.protocol, transaction⟩ := by
  unfold fetchAnswer at h
  cases answer with
  | ok fetched =>
    dsimp only at h
    cases htransaction : fromRpc codecs fetched with
    | ok transaction =>
      rw [htransaction] at h
      cases h
      exact Or.inr ⟨fetched, transaction, rfl, htransaction, rfl⟩
    | error e =>
      rw [htransaction] at h
      cases h
  | error msg =>
    dsimp only at h
    split_ifs at h with hretry
    cases h
    rw [Bool.and_eq_true, decide_eq_true_eq] at hretry
    exact Or.inl ⟨retries - 1, rfl, (Nat.sub_add_cancel hretry.2).symm⟩

/-- A fetch that ends on an answer failed. -/
theorem fetchAnswer_inr {codecs : Codecs} {scrub : String → String} {tracked : Tracked}
    {retries : Nat} {answer : Except String EncodedConfirmedTransactionWithStatusMeta}
    {fate : Fate} (h : fetchAnswer codecs scrub tracked retries answer = .inr fate) :
    fate = .notFound ∨ ∃ reason, fate = .failure reason := by
  unfold fetchAnswer at h
  cases answer with
  | ok fetched =>
    dsimp only at h
    cases htransaction : fromRpc codecs fetched with
    | ok transaction =>
      rw [htransaction] at h
      cases h
    | error e =>
      rw [htransaction] at h
      cases h
      exact Or.inr ⟨_, rfl⟩
  | error msg =>
    dsimp only at h
    split_ifs at h
    · cases h
      exact Or.inl rfl
    · cases h
      exact Or.inr ⟨_, rfl⟩

/-- What a qualified event went through. -/
theorem qualify_default {texts : Texts} {event : RawLogEvent} {q : QualifiedSignature}
    (h : (SignatureDispatcher.newDefault texts).qualify texts event = .qualified q) :
    event.err = none ∧
      (∃ log ∈ event.logs, (invocationMarker texts event.protocol).toList <+: log.toList) ∧
      q.protocol = event.protocol ∧ texts.signature.parse event.signature = .ok q.signature := by
  unfold SignatureDispatcher.qualify SignatureDispatcher.newDefault at h
  simp only [List.findSome?_cons, List.findSome?_nil, invocationFilter,
    failedTransactionFilter] at h
  by_cases hinvoked : event.logs.any
      (fun log => (invocationMarker texts event.protocol).toList.isPrefixOf log.toList) = true
  · rw [if_pos hinvoked] at h
    cases herr : event.err with
    | some e => simp [herr] at h
    | none =>
      simp only [herr, Option.isSome_none, Bool.false_eq_true, if_false] at h
      obtain ⟨log, hlog, hprefix⟩ := List.any_eq_true.mp hinvoked
      refine ⟨rfl, ⟨log, hlog, List.isPrefixOf_iff_prefix.mp hprefix⟩, ?_⟩
      cases hparse : texts.signature.parse event.signature with
      | error e =>
        rw [hparse] at h
        cases h
      | ok signature =>
        rw [hparse] at h
        cases h
        exact ⟨rfl, rfl⟩
  · rw [if_neg hinvoked] at h
    cases h

namespace Pipeline

variable {settings : Settings}

/-- Where every event a subscription received is. -/
def holdings (s : Pipeline) : Multiset RawLogEvent :=
  ↑s.raw + ↑(s.signatures.map Tracked.event) + ↑(s.hand.toList.map Tracked.event) +
    ↑(s.fetches.map (·.tracked.event)) + ↑(s.fates.map Prod.fst)

/-- An event that is given its fate is still in sight. -/
theorem fated_holdings (s : Pipeline) (event : RawLogEvent) (fate : Fate) :
    holdings { s with fates := s.fates ++ [(event, fate)] } = s.holdings + {event} := by
  unfold holdings
  rw [List.map_append, List.map_singleton, coe_concat]
  abel

/-- An event that leaves the dispatcher's queue leaves the rest. -/
theorem taken_holdings {s : Pipeline} {event : RawLogEvent} {raw : List RawLogEvent}
    (h : s.raw = event :: raw) : holdings { s with raw } + {event} = s.holdings := by
  unfold holdings
  rw [h, coe_cons]
  abel

/-- A transaction's event leaves the hand for its fate or its fetch. -/
theorem released_holdings {s : Pipeline} {tracked : Tracked} (h : s.hand = some tracked) :
    holdings { s with hand := none } + {tracked.event} = s.holdings := by
  unfold holdings
  rw [h, Option.toList_some, Option.toList_none, List.map_singleton, List.map_nil,
    Multiset.coe_singleton, Multiset.coe_nil]
  abel

theorem settle_holdings {s : Pipeline} {i : Nat} {fetch : Fetch} (h : s.fetches[i]? = some fetch)
    (fate : Fate) : (s.settle i fetch fate).holdings = s.holdings := by
  have hperm := Multiset.coe_eq_coe.mpr ((perm_cons_eraseIdx h).map (·.tracked.event))
  unfold holdings settle
  rw [hperm, List.map_cons, List.map_append, List.map_singleton, coe_concat, coe_cons]
  abel

/-- A step moves an event from one place to another; only a subscription brings one. -/
theorem stepped_holdings {s s' : Pipeline} {a : Action} (h : Stepped settings s a s') :
    s'.holdings = s.holdings + ↑(logged [a]) := by
  cases h with
  | @queued event =>
    rw [show logged [.log event] = [event] from rfl, Multiset.coe_singleton]
    unfold holdings
    rw [coe_concat]
    abel
  | @full event => exact fated_holdings s event .channelFull
  | @unheard event => exact fated_holdings s event .unread
  | @refused event raw fate hraw =>
    exact ((fated_holdings _ event fate).trans (taken_holdings hraw)).trans (add_zero _).symm
  | qualified hraw =>
    unfold holdings
    rw [hraw, List.map_append, List.map_singleton, coe_concat, coe_cons, logged,
      List.filterMap_cons_none rfl, List.filterMap_nil, Multiset.coe_nil]
    abel
  | @saturated event raw hraw =>
    exact ((fated_holdings _ event .saturated).trans (taken_holdings hraw)).trans (add_zero _).symm
  | @unnamed event raw hraw =>
    exact ((fated_holdings _ event .unread).trans (taken_holdings hraw)).trans (add_zero _).symm
  | dispatcherStop =>
    have hlost : (s.raw.map (fun event => (event, Fate.unread))).map Prod.fst = s.raw := by
      rw [List.map_map]
      exact List.map_id'' (fun _ => rfl) _
    unfold holdings
    rw [List.map_append, hlost, ← Multiset.coe_add, logged, List.filterMap_cons_none rfl,
      List.filterMap_nil, Multiset.coe_nil]
    abel
  | recv hsignatures hhand =>
    unfold holdings
    simp only [hsignatures, hhand, Option.toList_some, Option.toList_none, List.map_cons,
      List.map_nil, coe_cons, logged, List.filterMap_cons_none, List.filterMap_nil,
      Multiset.coe_nil]
    abel
  | permit hhand =>
    unfold holdings
    rw [hhand, Option.toList_some, Option.toList_none, List.map_append, List.map_singleton,
      List.map_singleton, List.map_nil, coe_concat, Multiset.coe_singleton, logged,
      List.filterMap_cons_none rfl, List.filterMap_nil, Multiset.coe_nil]
    rw [Fetch.start]
    abel
  | @dropHand tracked hhand =>
    exact ((fated_holdings _ tracked.event _).trans (released_holdings hhand)).trans
      (add_zero _).symm
  | fetchStop =>
    have hlost : (s.signatures.map (fun tracked => (tracked.event, Fate.unread))).map Prod.fst =
        s.signatures.map Tracked.event := by
      rw [List.map_map]
      rfl
    unfold holdings
    rw [List.map_append, hlost, ← Multiset.coe_add, List.map_nil, logged,
      List.filterMap_cons_none rfl, List.filterMap_nil, Multiset.coe_nil]
    abel
  | @goOn i fetch retries stage answer hfetch =>
    unfold holdings
    dsimp only
    rw [map_set_eq (b := { fetch with stage }) hfetch rfl]
    exact (add_zero _).symm
  | giveUp hfetch => exact (settle_holdings hfetch _).trans (add_zero _).symm
  | dropFetched hfetch => exact (settle_holdings hfetch _).trans (add_zero _).symm
  | send hfetch => exact (settle_holdings hfetch _).trans (add_zero _).symm
  | _ => exact (add_zero _).symm

/-- No queue and no stage holds more than its bound. -/
structure Bounded (s : Pipeline) : Prop where
  raw : s.raw.length ≤ STAGE_CHANNEL_CAPACITY
  signatures : s.signatures.length ≤ STAGE_CHANNEL_CAPACITY
  fetches : s.fetches.length ≤ MAX_CONCURRENT_FETCHES

theorem Bounded.settle {s : Pipeline} (hs : Bounded s) (i : Nat) (fetch : Fetch) (fate : Fate) :
    Bounded (s.settle i fetch fate) :=
  ⟨hs.raw, hs.signatures, (List.length_eraseIdx_le _ _).trans hs.fetches⟩

theorem Bounded.stepped {s s' : Pipeline} {a : Action} (hs : Bounded s)
    (h : Stepped settings s a s') : Bounded s' := by
  obtain ⟨hraw, hsignatures, hfetches⟩ := hs
  cases h with
  | queued _ hroom =>
    refine ⟨?_, hsignatures, hfetches⟩
    rw [List.length_append]
    exact hroom
  | refused hhead =>
    rw [hhead, List.length_cons] at hraw
    exact ⟨Nat.le_of_succ_le hraw, hsignatures, hfetches⟩
  | saturated hhead =>
    rw [hhead, List.length_cons] at hraw
    exact ⟨Nat.le_of_succ_le hraw, hsignatures, hfetches⟩
  | unnamed hhead =>
    rw [hhead, List.length_cons] at hraw
    exact ⟨Nat.le_of_succ_le hraw, hsignatures, hfetches⟩
  | qualified hhead _ hroom =>
    rw [hhead, List.length_cons] at hraw
    refine ⟨Nat.le_of_succ_le hraw, ?_, hfetches⟩
    rw [List.length_append]
    exact hroom
  | dispatcherStop => exact ⟨Nat.zero_le _, hsignatures, hfetches⟩
  | recv hhead =>
    rw [hhead, List.length_cons] at hsignatures
    exact ⟨hraw, Nat.le_of_succ_le hsignatures, hfetches⟩
  | permit _ hroom =>
    refine ⟨hraw, hsignatures, ?_⟩
    rw [List.length_append]
    exact hroom
  | fetchStop => exact ⟨hraw, Nat.zero_le _, hfetches⟩
  | goOn => exact ⟨hraw, hsignatures, by rwa [List.length_set]⟩
  | giveUp => exact Bounded.settle ⟨hraw, hsignatures, hfetches⟩ ..
  | dropFetched => exact Bounded.settle ⟨hraw, hsignatures, hfetches⟩ ..
  | @send i fetch ingested =>
    have hsettled := Bounded.settle ⟨hraw, hsignatures, hfetches⟩ i fetch (.sent ingested)
    exact ⟨hsettled.raw, hsettled.signatures, hsettled.fetches⟩
  | _ => exact ⟨hraw, hsignatures, hfetches⟩

section Allowance

variable (texts : Texts) (event : RawLogEvent)

/-- An event is this one, and passes the filters. -/
def due (other : RawLogEvent) : Bool := other = event ∧ passes texts other

/-- The calls a fetch may still make for the event. -/
def fetchAllowance (fetch : Fetch) : Nat :=
  if fetch.tracked.event = event then
    match fetch.stage with
    | .asking retries => retries + 1
    | .handing _ => 0
  else 0

/-- The calls the event may still cost where it is held. -/
def allowance (s : Pipeline) : Nat :=
  6 * s.raw.countP (due texts event) + 6 * (s.signatures.map Tracked.event).count event +
    6 * (s.hand.toList.map Tracked.event).count event + (s.fetches.map (fetchAllowance event)).sum

theorem countP_due (events : List RawLogEvent) :
    events.countP (due texts event) =
      if passes texts event then events.count event else 0 := by
  rw [List.count]
  cases hpasses : passes texts event with
  | true =>
    rw [if_pos rfl]
    apply List.countP_congr
    intro other _
    rw [due, decide_eq_true_eq, beq_iff_eq]
    constructor
    · exact And.left
    · rintro rfl
      exact ⟨rfl, hpasses⟩
  | false =>
    rw [if_neg Bool.false_ne_true, List.countP_eq_zero]
    rintro other _ hdue
    obtain ⟨rfl, hother⟩ := of_decide_eq_true hdue
    rw [hpasses] at hother
    cases hother

variable {texts event}

theorem settle_allowance {s : Pipeline} {i : Nat} {fetch : Fetch} (h : s.fetches[i]? = some fetch)
    (fate : Fate) :
    (s.settle i fetch fate).allowance texts event + fetchAllowance event fetch =
      s.allowance texts event := by
  have hsum := ((perm_cons_eraseIdx h).map (fetchAllowance event)).sum_eq
  rw [List.map_cons, List.sum_cons] at hsum
  unfold allowance settle
  dsimp only
  omega

/-- What the dispatcher takes and does not pass on costs no call. -/
theorem taken_allowance {s : Pipeline} {taken : RawLogEvent} {raw : List RawLogEvent}
    (h : s.raw = taken :: raw) (fates : List (RawLogEvent × Fate)) :
    allowance texts event { s with raw, fates } ≤ s.allowance texts event := by
  unfold allowance
  rw [h, List.countP_cons]
  dsimp only
  omega

/-- An answer to a fetch that asks costs it one of its calls. -/
theorem asks_answer {s : Pipeline} {i : Nat} {fetch : Fetch}
    {answer : Except String EncodedConfirmedTransactionWithStatusMeta}
    (h : s.fetches[i]? = some fetch) :
    s.asks event (.answer i answer) = decide (fetch.tracked.event = event) := by
  rw [asks, h]
  rfl

theorem goOn_allowance {settings : Settings} {fetch : Fetch} {retries : Nat} {stage : FetchStage}
    {answer : Except String EncodedConfirmedTransactionWithStatusMeta}
    (hstage : fetch.stage = .asking retries)
    (hanswer : fetchAnswer settings.codecs settings.scrub fetch.tracked retries answer =
      .inl stage) :
    fetchAllowance event { fetch with stage } + (decide (fetch.tracked.event = event)).toNat ≤
      fetchAllowance event fetch := by
  unfold fetchAllowance
  dsimp only
  by_cases hevent : fetch.tracked.event = event
  · rw [if_pos hevent, if_pos hevent, hstage, decide_eq_true hevent]
    rcases fetchAnswer_inl hanswer with ⟨left, rfl, rfl⟩ | ⟨_, _, _, _, rfl⟩
    · exact Nat.le_refl _
    · exact Nat.succ_le_succ (Nat.zero_le _)
  · rw [if_neg hevent, if_neg hevent, decide_eq_false hevent]
    exact Nat.le_refl _

end Allowance

/-- A call is paid for by the event it is of. -/
theorem stepped_allowance (event : RawLogEvent) {s s' : Pipeline} {a : Action}
    (h : Stepped settings s a s') :
    s'.allowance settings.codecs.texts event + (s.asks event a).toNat ≤
      s.allowance settings.codecs.texts event +
        6 * (logged [a]).countP (due settings.codecs.texts event) := by
  cases h with
  | @queued received =>
    rw [show logged [.log received] = [received] from rfl]
    change _ + 0 ≤ _
    unfold allowance
    rw [List.countP_append]
    dsimp only
    omega
  | refused hraw => exact (taken_allowance hraw _).trans (Nat.le_add_right _ _)
  | saturated hraw => exact (taken_allowance hraw _).trans (Nat.le_add_right _ _)
  | unnamed hraw => exact (taken_allowance hraw _).trans (Nat.le_add_right _ _)
  | @qualified received raw q hraw hq =>
    have hpasses : passes settings.codecs.texts received = true := by rw [passes, hq]
    have hpaid : [received].count event ≤ [received].countP (due settings.codecs.texts event) := by
      rw [countP_due]
      by_cases hevent : received = event
      · rw [← hevent, if_pos hpasses]
      · rw [List.count_eq_zero.mpr (fun h => hevent (List.mem_singleton.mp h).symm)]
        exact Nat.zero_le _
    change _ + 0 ≤ _
    unfold allowance
    rw [hraw, List.countP_cons, List.map_append, List.count_append, List.map_singleton]
    rw [List.countP_singleton] at hpaid
    dsimp only at hpaid ⊢
    omega
  | dispatcherStop =>
    change _ + 0 ≤ _
    unfold allowance
    rw [List.countP_nil]
    dsimp only
    omega
  | recv hsignatures hhand =>
    change _ + 0 ≤ _
    unfold allowance
    simp only [hsignatures, hhand, Option.toList_some, Option.toList_none, List.map_cons,
      List.map_nil, List.count_cons, List.count_nil]
    omega
  | @permit tracked hhand =>
    have hstart : fetchAllowance event (Fetch.start tracked) =
        6 * [tracked.event].count event := by
      unfold fetchAllowance
      rw [List.count_singleton]
      by_cases hevent : tracked.event = event
      · simp [Fetch.start, FETCH_RETRIES, hevent]
      · simp [Fetch.start, hevent]
    change _ + 0 ≤ _
    unfold allowance
    rw [hhand, List.map_append, List.map_singleton, List.sum_append, List.sum_singleton, hstart]
    rw [Option.toList_some, Option.toList_none, List.map_singleton, List.map_nil, List.count_nil]
    dsimp only
    omega
  | dropHand hhand =>
    change _ + 0 ≤ _
    unfold allowance
    rw [hhand, Option.toList_none, List.map_nil, List.count_nil]
    dsimp only
    omega
  | fetchStop =>
    change _ + 0 ≤ _
    unfold allowance
    rw [List.map_nil, List.count_nil]
    dsimp only
    omega
  | @goOn i fetch retries stage answer hfetch hstage hanswer =>
    have hless : fetchAllowance event { fetch with stage } + _ ≤ fetchAllowance event fetch :=
      goOn_allowance hstage hanswer
    have hbefore := ((perm_cons_eraseIdx hfetch).map (fetchAllowance event)).sum_eq
    have hafter := ((set_perm hfetch { fetch with stage }).map (fetchAllowance event)).sum_eq
    rw [List.map_cons, List.sum_cons] at hbefore hafter
    rw [asks_answer hfetch]
    unfold allowance
    dsimp only
    omega
  | @giveUp i fetch retries fate answer hfetch hstage =>
    have hsettled := @settle_allowance settings.codecs.texts event _ _ _ hfetch fate
    have hone : (decide (fetch.tracked.event = event)).toNat ≤ fetchAllowance event fetch := by
      unfold fetchAllowance
      rw [hstage]
      by_cases hevent : fetch.tracked.event = event
      · rw [if_pos hevent, decide_eq_true hevent]
        exact Nat.succ_le_succ (Nat.zero_le _)
      · rw [decide_eq_false hevent]
        exact Nat.zero_le _
    rw [asks_answer hfetch]
    omega
  | @dropFetched i fetch ingested reason hfetch =>
    have hsettled := @settle_allowance settings.codecs.texts event _ _ _ hfetch (.dropped reason)
    change _ + 0 ≤ _
    omega
  | @send i fetch ingested hfetch =>
    have hsettled := @settle_allowance settings.codecs.texts event _ _ _ hfetch (.sent ingested)
    change _ + 0 ≤ _
    unfold allowance at hsettled ⊢
    dsimp only
    omega
  | _ => exact Nat.le_add_right _ _

/-- The transactions handed over, in order. -/
def handedOver (fates : List (RawLogEvent × Fate)) : List IngestedTransaction :=
  fates.filterMap (fun f => f.2.ingested)

theorem handedOver_append (fates more : List (RawLogEvent × Fate)) :
    handedOver (fates ++ more) = handedOver fates ++ handedOver more :=
  List.filterMap_append ..

theorem handedOver_unread {α : Type} (event : α → RawLogEvent) (l : List α) :
    handedOver (l.map (fun a => (event a, .unread))) = [] := by
  rw [handedOver, List.filterMap_map]
  exact List.filterMap_eq_nil_iff.mpr (fun _ _ => rfl)

theorem handedOver_concat {fates : List (RawLogEvent × Fate)} {event : RawLogEvent} {fate : Fate}
    (h : fate.ingested = none) : handedOver (fates ++ [(event, fate)]) = handedOver fates := by
  have hlast : handedOver [(event, fate)] = [] := List.filterMap_cons_none h
  rw [handedOver_append, hlast, List.append_nil]

theorem answer_not_ingested {fate : Fate}
    (h : fate = .notFound ∨ ∃ reason, fate = .failure reason) : fate.ingested = none := by
  rcases h with rfl | ⟨reason, rfl⟩ <;> rfl

/-- A step hands over what it puts in the consumer's channel, and nothing once the token fired. -/
theorem stepped_handedOver {s s' : Pipeline} {a : Action} (h : Stepped settings s a s') :
    (handedOver s'.fates = handedOver s.fates ∧
        s'.consumed ++ s'.downstream = s.consumed ++ s.downstream) ∨
      s.cancelled = false ∧ ∃ ingested, handedOver s'.fates = handedOver s.fates ++ [ingested] ∧
        s'.consumed ++ s'.downstream = s.consumed ++ s.downstream ++ [ingested] := by
  cases h with
  | full => exact Or.inl ⟨handedOver_concat rfl, rfl⟩
  | unheard => exact Or.inl ⟨handedOver_concat rfl, rfl⟩
  | consume hdownstream =>
    refine Or.inl ⟨rfl, ?_⟩
    rw [hdownstream]
    exact List.append_assoc ..
  | refused _ _ hfate =>
    rcases hfate with rfl | ⟨filter, reason, rfl⟩
    · exact Or.inl ⟨handedOver_concat rfl, rfl⟩
    · exact Or.inl ⟨handedOver_concat rfl, rfl⟩
  | saturated => exact Or.inl ⟨handedOver_concat rfl, rfl⟩
  | unnamed => exact Or.inl ⟨handedOver_concat rfl, rfl⟩
  | dispatcherStop =>
    refine Or.inl ⟨?_, rfl⟩
    rw [handedOver_append, handedOver_unread, List.append_nil]
  | dropHand => exact Or.inl ⟨handedOver_concat rfl, rfl⟩
  | fetchStop =>
    refine Or.inl ⟨?_, rfl⟩
    rw [handedOver_append, handedOver_unread, List.append_nil]
  | giveUp _ _ hanswer =>
    exact Or.inl ⟨handedOver_concat (answer_not_ingested (fetchAnswer_inr hanswer)), rfl⟩
  | dropFetched => exact Or.inl ⟨handedOver_concat rfl, rfl⟩
  | @send i fetch ingested _ _ hcancelled =>
    exact Or.inr ⟨hcancelled, ingested, handedOver_append .., (List.append_assoc ..).symm⟩
  | _ => exact Or.inl ⟨rfl, rfl⟩

theorem stepped_cancelled {s s' : Pipeline} {a : Action} (h : Stepped settings s a s')
    (hs : s.cancelled = true) : s'.cancelled = true := by
  cases h with
  | cancel => rfl
  | _ => exact hs

/-- Why a queue is not read any more, and that nothing is lost unseen before a stop. -/
structure Heard (s : Pipeline) : Prop where
  dispatching : s.dispatching = false → s.cancelled = true ∨ s.listenerDone = true
  fetching : s.fetching = false →
    s.cancelled = true ∨ s.consumerGone = true ∨ s.dispatching = false
  unread : ∀ event, (event, .unread) ∈ s.fates → s.cancelled = true ∨ s.consumerGone = true

theorem Heard.start : Heard start where
  dispatching h := by cases h
  fetching h := by cases h
  unread _ h := by cases h

theorem mem_concat_unread {fates : List (RawLogEvent × Fate)} {event other : RawLogEvent}
    {fate : Fate} (hfate : fate ≠ .unread) (h : (event, .unread) ∈ fates ++ [(other, fate)]) :
    (event, .unread) ∈ fates := by
  rcases List.mem_append.mp h with h | h
  · exact h
  · exact absurd (Prod.ext_iff.mp (List.mem_singleton.mp h)).2.symm hfate

theorem Heard.concat {s : Pipeline} (hs : Heard s) {event : RawLogEvent} {fate : Fate}
    (hfate : fate ≠ .unread) : ∀ e, (e, .unread) ∈ s.fates ++ [(event, fate)] →
      s.cancelled = true ∨ s.consumerGone = true :=
  fun e he => hs.unread e (mem_concat_unread hfate he)

theorem Heard.stepped {s s' : Pipeline} {a : Action} (hs : Heard s)
    (h : Stepped settings s a s') : Heard s' := by
  cases h with
  | full => exact ⟨hs.dispatching, hs.fetching, hs.concat nofun⟩
  | unheard hlistener hdispatching =>
    refine ⟨hs.dispatching, hs.fetching, fun _ _ => Or.inl ?_⟩
    rcases hs.dispatching hdispatching with hcancelled | hdone
    · exact hcancelled
    · rw [hlistener] at hdone
      cases hdone
  | listenerDone => exact ⟨fun _ => Or.inr rfl, hs.fetching, hs.unread⟩
  | cancel => exact ⟨fun _ => Or.inl rfl, fun _ => Or.inl rfl, fun _ _ => Or.inl rfl⟩
  | consumerGone =>
    exact ⟨hs.dispatching, fun _ => Or.inr (Or.inl rfl), fun _ _ => Or.inr rfl⟩
  | refused _ _ hfate =>
    refine ⟨hs.dispatching, hs.fetching, hs.concat ?_⟩
    rcases hfate with rfl | ⟨filter, reason, rfl⟩
    · exact nofun
    · exact nofun
  | saturated => exact ⟨hs.dispatching, hs.fetching, hs.concat nofun⟩
  | unnamed _ hdispatching hfetching =>
    refine ⟨hs.dispatching, hs.fetching, fun _ _ => ?_⟩
    rcases hs.fetching hfetching with hcancelled | hgone | hstopped
    · exact Or.inl hcancelled
    · exact Or.inr hgone
    · rw [hdispatching] at hstopped
      cases hstopped
  | dispatcherStop hstop =>
    refine ⟨fun _ => hstop.imp_right And.left, fun _ => Or.inr (Or.inr rfl), ?_⟩
    intro event hevent
    rcases hstop with hcancelled | ⟨_, hempty⟩
    · exact Or.inl hcancelled
    · rw [hempty, List.map_nil, List.append_nil] at hevent
      exact hs.unread event hevent
  | dropHand => exact ⟨hs.dispatching, hs.fetching, hs.concat nofun⟩
  | fetchStop _ hstop =>
    refine ⟨hs.dispatching, fun _ => hstop.imp_right (Or.imp_right And.left), ?_⟩
    intro event hevent
    rcases hstop with hcancelled | hgone | ⟨_, hempty⟩
    · exact Or.inl hcancelled
    · exact Or.inr hgone
    · rw [hempty, List.map_nil, List.append_nil] at hevent
      exact hs.unread event hevent
  | giveUp _ _ hanswer =>
    refine ⟨hs.dispatching, hs.fetching, hs.concat ?_⟩
    rcases fetchAnswer_inr hanswer with rfl | ⟨reason, rfl⟩
    · exact nofun
    · exact nofun
  | dropFetched => exact ⟨hs.dispatching, hs.fetching, hs.concat nofun⟩
  | send => exact ⟨hs.dispatching, hs.fetching, hs.concat nofun⟩
  | _ => exact ⟨hs.dispatching, hs.fetching, hs.unread⟩

/-- A signature in flight is the one its event names. -/
def Named (settings : Settings) (tracked : Tracked) : Prop :=
  (SignatureDispatcher.newDefault settings.codecs.texts).qualify settings.codecs.texts
    tracked.event = .qualified tracked.qualified

/-- A transaction is what an answer to the event's own fetch, by the signature it names, adapts
to. -/
def Fetched (settings : Settings) (actions : List Action) (event : RawLogEvent)
    (ingested : IngestedTransaction) : Prop :=
  ingested.protocol = event.protocol ∧ ∃ before i fetched after s fetch,
    actions = before ++ .answer i (.ok fetched) :: after ∧
      run settings start before = some s ∧ s.fetches[i]? = some fetch ∧
      fetch.tracked.event = event ∧ Named settings fetch.tracked ∧
      fromRpc settings.codecs fetched = .ok ingested.transaction

theorem Fetched.mono {actions : List Action} {event : RawLogEvent} {ingested : IngestedTransaction}
    (h : Fetched settings actions event ingested) (a : Action) :
    Fetched settings (actions ++ [a]) event ingested := by
  obtain ⟨hprotocol, before, i, fetched, after, s, fetch, rfl, hrest⟩ := h
  refine ⟨hprotocol, before, i, fetched, after ++ [a], s, fetch, ?_, hrest⟩
  rw [List.append_assoc, List.cons_append]

/-- What is in flight, and what was handed over, goes back to an event that passed the filters and
to an answer about it. -/
structure Justified (settings : Settings) (actions : List Action) (s : Pipeline) : Prop where
  signatures : ∀ tracked ∈ s.signatures, Named settings tracked
  hand : ∀ tracked, s.hand = some tracked → Named settings tracked
  fetches : ∀ fetch ∈ s.fetches, Named settings fetch.tracked ∧
    ∀ ingested, fetch.stage = .handing ingested →
      Fetched settings actions fetch.tracked.event ingested
  sent : ∀ event ingested, (event, .sent ingested) ∈ s.fates →
    passes settings.codecs.texts event = true ∧ Fetched settings actions event ingested

namespace Justified

variable {actions : List Action} {s : Pipeline}

theorem mono (h : Justified settings actions s) (a : Action) :
    Justified settings (actions ++ [a]) s := by
  refine ⟨h.signatures, h.hand, ?_, ?_⟩
  · intro fetch hfetch
    obtain ⟨hnamed, hhanding⟩ := h.fetches fetch hfetch
    exact ⟨hnamed, fun ingested hstage => (hhanding ingested hstage).mono a⟩
  · intro event ingested hsent
    obtain ⟨hpasses, hfetched⟩ := h.sent event ingested hsent
    exact ⟨hpasses, hfetched.mono a⟩

/-- One more fate that hands nothing over. -/
theorem concat (h : Justified settings actions s) {event : RawLogEvent} {fate : Fate}
    (hfate : fate.ingested = none) : ∀ e ingested, (e, .sent ingested) ∈ s.fates ++ [(event, fate)] →
      passes settings.codecs.texts e = true ∧ Fetched settings actions e ingested := by
  intro e ingested hsent
  rcases List.mem_append.mp hsent with hsent | hsent
  · exact h.sent e ingested hsent
  · have hsame : Fate.sent ingested = fate :=
      (Prod.ext_iff.mp (List.mem_singleton.mp hsent)).2
    rw [← hsame] at hfate
    cases hfate

theorem unread (h : Justified settings actions s) {α : Type} (event : α → RawLogEvent)
    (l : List α) : ∀ e ingested,
      (e, .sent ingested) ∈ s.fates ++ l.map (fun a => (event a, .unread)) →
      passes settings.codecs.texts e = true ∧ Fetched settings actions e ingested := by
  intro e ingested hsent
  rcases List.mem_append.mp hsent with hsent | hsent
  · exact h.sent e ingested hsent
  · obtain ⟨a, _, hsame⟩ := List.mem_map.mp hsent
    cases (Prod.ext_iff.mp hsame).2

theorem settle (h : Justified settings actions s) (i : Nat) {fetch : Fetch} {fate : Fate}
    (hfate : fate.ingested = none) : Justified settings actions (s.settle i fetch fate) :=
  ⟨h.signatures, h.hand, fun f hf => h.fetches f ((List.eraseIdx_sublist ..).subset hf),
    h.concat hfate⟩

theorem stepped {s' : Pipeline} {a : Action} (hrun : run settings start actions = some s)
    (hs : Justified settings actions s) (h : Stepped settings s a s') :
    Justified settings (actions ++ [a]) s' := by
  have hs := hs.mono a
  cases h with
  | full => exact ⟨hs.signatures, hs.hand, hs.fetches, hs.concat rfl⟩
  | unheard => exact ⟨hs.signatures, hs.hand, hs.fetches, hs.concat rfl⟩
  | refused _ _ hfate =>
    refine ⟨hs.signatures, hs.hand, hs.fetches, hs.concat ?_⟩
    rcases hfate with rfl | ⟨filter, reason, rfl⟩ <;> rfl
  | qualified _ hq =>
    refine ⟨?_, hs.hand, hs.fetches, hs.sent⟩
    intro tracked htracked
    rcases List.mem_append.mp htracked with htracked | htracked
    · exact hs.signatures tracked htracked
    · rw [List.mem_singleton.mp htracked]
      exact hq
  | saturated => exact ⟨hs.signatures, hs.hand, hs.fetches, hs.concat rfl⟩
  | unnamed => exact ⟨hs.signatures, hs.hand, hs.fetches, hs.concat rfl⟩
  | dispatcherStop =>
    exact ⟨hs.signatures, hs.hand, hs.fetches, hs.unread (fun event => event) s.raw⟩
  | recv hsignatures =>
    have hnamed := hs.signatures
    rw [hsignatures] at hnamed
    refine ⟨fun tracked h => hnamed tracked (List.mem_cons_of_mem _ h), ?_, hs.fetches, hs.sent⟩
    intro tracked htracked
    cases htracked
    exact hnamed _ List.mem_cons_self
  | permit hhand =>
    refine ⟨hs.signatures, nofun, ?_, hs.sent⟩
    intro fetch hfetch
    rcases List.mem_append.mp hfetch with hfetch | hfetch
    · exact hs.fetches fetch hfetch
    · rw [List.mem_singleton.mp hfetch]
      exact ⟨hs.hand _ hhand, fun ingested hstage => by cases hstage⟩
  | dropHand => exact ⟨hs.signatures, nofun, hs.fetches, hs.concat rfl⟩
  | fetchStop =>
    exact ⟨nofun, hs.hand, hs.fetches, hs.unread Tracked.event s.signatures⟩
  | @goOn i fetch retries stage answer hfetch hstage hanswer =>
    obtain ⟨hnamed, -⟩ := hs.fetches fetch (List.mem_of_getElem? hfetch)
    refine ⟨hs.signatures, hs.hand, ?_, hs.sent⟩
    intro other hother
    rcases List.mem_or_eq_of_mem_set hother with hother | rfl
    · exact hs.fetches other hother
    · refine ⟨hnamed, ?_⟩
      intro ingested hhanding
      rcases fetchAnswer_inl hanswer with ⟨left, rfl, -⟩ |
        ⟨fetched, transaction, rfl, htransaction, rfl⟩
      · cases hhanding
      · cases hhanding
        have hprotocol := (qualify_default hnamed).2.2.1
        exact ⟨hprotocol, actions, i, fetched, [], s, fetch, rfl, hrun, hfetch, rfl, hnamed,
          htransaction⟩
  | giveUp _ _ hanswer => exact hs.settle _ (answer_not_ingested (fetchAnswer_inr hanswer))
  | dropFetched => exact hs.settle _ rfl
  | @send i fetch ingested hfetch hstage =>
    obtain ⟨hnamed, hhanding⟩ := hs.fetches fetch (List.mem_of_getElem? hfetch)
    refine ⟨hs.signatures, hs.hand,
      fun f hf => hs.fetches f ((List.eraseIdx_sublist ..).subset hf), ?_⟩
    intro e other hsent
    rcases List.mem_append.mp hsent with hsent | hsent
    · exact hs.sent e other hsent
    · cases List.mem_singleton.mp hsent
      exact ⟨by rw [passes, hnamed], hhanding ingested hstage⟩
  | _ => exact ⟨hs.signatures, hs.hand, hs.fetches, hs.sent⟩

end Justified

/-- What a run of the pipeline owes: every event a subscription received is in one place, the
queues, the fetches and the calls for each event keep to their bounds, what is handed over is the
transaction an answer to its own fetch adapted to, for an event that invoked its program and did not
fail, once, and nothing is left unread before a stop. -/
structure Sound (settings : Settings) (actions : List Action) (s : Pipeline) : Prop where
  conserved : (logged actions : Multiset RawLogEvent) =
    ↑s.raw + ↑(s.signatures.map Tracked.event) + ↑(s.hand.toList.map Tracked.event) +
      ↑(s.fetches.map (·.tracked.event)) + ↑(s.fates.map Prod.fst)
  bounded : Bounded s
  paid : ∀ event, calls settings event start actions ≤
    if passes settings.codecs.texts event then 6 * (logged actions).count event else 0
  handed : handedOver s.fates = s.consumed ++ s.downstream
  justified : ∀ event ingested, (event, .sent ingested) ∈ s.fates →
    event.err = none ∧
      (∃ log ∈ event.logs,
        (invocationMarker settings.codecs.texts event.protocol).toList <+: log.toList) ∧
      (∃ signature, settings.codecs.texts.signature.parse event.signature = .ok signature) ∧
      Fetched settings actions event ingested
  unread : ∀ event, (event, .unread) ∈ s.fates → s.cancelled = true ∨ s.consumerGone = true
  stopped : s.cancelled = true → ∀ more s', run settings s more = some s' →
    handedOver s'.fates = handedOver s.fates

theorem passes_default {texts : Texts} {event : RawLogEvent} (h : passes texts event = true) :
    ∃ q, (SignatureDispatcher.newDefault texts).qualify texts event = .qualified q := by
  unfold passes at h
  cases hq : (SignatureDispatcher.newDefault texts).qualify texts event with
  | rejected filter reason => rw [hq] at h; cases h
  | malformed => rw [hq] at h; cases h
  | qualified q => exact ⟨q, rfl⟩

/-- The ledger of a run: where the events are, what the calls have cost, what was handed over. -/
theorem run_ledger {actions : List Action} {s : Pipeline}
    (h : run settings start actions = some s) :
    (logged actions : Multiset RawLogEvent) = s.holdings ∧
      (∀ event, calls settings event start actions + s.allowance settings.codecs.texts event ≤
        6 * (logged actions).countP (due settings.codecs.texts event)) ∧
      handedOver s.fates = s.consumed ++ s.downstream ∧
      Justified settings actions s := by
  have hstart : Justified settings [] start := ⟨nofun, nofun, nofun, nofun⟩
  refine (runFrom_trace (P := fun done t => run settings start done = some t ∧
    (logged done : Multiset RawLogEvent) = t.holdings ∧
      (∀ event, calls settings event start done + t.allowance settings.codecs.texts event ≤
        6 * (logged done).countP (due settings.codecs.texts event)) ∧
      handedOver t.fates = t.consumed ++ t.downstream ∧
      Justified settings done t) ⟨rfl, rfl, fun _ => Nat.le_refl _, rfl, hstart⟩ ?_ h).2
  intro before t a t' ⟨hrun, hheld, hpaid, hhanded, hjustified⟩ hstep
  have hstepped := step_stepped hstep
  refine ⟨runFrom_concat.mpr ⟨t, hrun, hstep⟩, ?_, ?_, ?_, hjustified.stepped hrun hstepped⟩
  · rw [logged_concat, ← Multiset.coe_add, hheld, stepped_holdings hstepped]
  · intro event
    have hcost := stepped_allowance event hstepped
    have hbefore := hpaid event
    rw [logged_concat, calls_concat event hrun, List.countP_append]
    omega
  · rcases stepped_handedOver hstepped with ⟨hsame, hkept⟩ | ⟨-, ingested, hsame, hkept⟩
    · rw [hsame, hkept, hhanded]
    · rw [hsame, hkept, hhanded]

theorem run_stopped {s s' : Pipeline} {more : List Action} (hs : s.cancelled = true)
    (h : run settings s more = some s') : handedOver s'.fates = handedOver s.fates := by
  refine (runFrom_inv (P := fun t => t.cancelled = true ∧ handedOver t.fates = handedOver s.fates)
    ?_ ⟨hs, rfl⟩ h).2
  intro t a t' ⟨hcancelled, hsame⟩ hstep
  have hstepped := step_stepped hstep
  refine ⟨stepped_cancelled hstepped hcancelled, ?_⟩
  rcases stepped_handedOver hstepped with ⟨hkept, -⟩ | ⟨hrunning, -⟩
  · exact hkept.trans hsame
  · rw [hcancelled] at hrunning
    cases hrunning

/-- Every run of the JSON-RPC pipeline, whatever the order of the steps of its subscriptions, its
stages, its fetches and its consumer, and whatever the RPC answers. -/
theorem run_accounted {actions : List Action} {s : Pipeline}
    (h : run settings start actions = some s) : Sound settings actions s where
  conserved := (run_ledger h).1
  bounded := runFrom_inv (fun _ _ _ ht hstep => ht.stepped (step_stepped hstep))
    ⟨Nat.zero_le _, Nat.zero_le _, Nat.zero_le _⟩ h
  paid event := by
    have hpaid := (Nat.le_add_right _ _).trans ((run_ledger h).2.1 event)
    rw [countP_due] at hpaid
    split_ifs at hpaid ⊢ <;> exact hpaid
  handed := (run_ledger h).2.2.1
  justified event ingested hsent := by
    obtain ⟨hpasses, hfetched⟩ := (run_ledger h).2.2.2.sent event ingested hsent
    obtain ⟨q, hq⟩ := passes_default hpasses
    obtain ⟨herr, hinvoked, -, hparse⟩ := qualify_default hq
    exact ⟨herr, hinvoked, ⟨q.signature, hparse⟩, hfetched⟩
  unread := (runFrom_inv (P := Heard) (fun _ _ _ ht hstep => ht.stepped (step_stepped hstep))
    Heard.start h).unread
  stopped hcancelled more s' hmore := run_stopped hcancelled hmore

/-- An event that invokes its program. -/
def invoked : RawLogEvent where
  protocol := .meteoraDammV2
  signature := Texts.plain.signature.print zeroSignature
  logs := [invocationMarker .plain .meteoraDammV2 ++ " [1]"]
  err := none

/-- The transaction it names, as the RPC answers. -/
def answered : EncodedConfirmedTransactionWithStatusMeta where
  slot := 7
  transaction := .json [Texts.plain.signature.print zeroSignature]
  meta_ := some ⟨.some []⟩
  blockTime := some 1700000000
  transactionIndex := none

/-- The node has not indexed it at first; a second event meets the stop. -/
def asked : List Action :=
  [.log invoked, .handle, .recv, .permit, .answer 0 (.error "null"), .answer 0 (.ok answered),
    .handOver 0, .consume, .log invoked, .cancel, .dispatcherStop, .fetchStop]

def plainSettings : Settings := ⟨Indexer.plainCodecs, fun text => text, 1⟩

theorem asked_handed : (run plainSettings start asked).map
    (fun s => (s.consumed.length, s.fates.length)) = some (1, 2) := by
  decide +kernel

theorem run_accounted_asked : ∃ s, run plainSettings start asked = some s ∧
    s.consumed.length = 1 ∧ Sound plainSettings asked s := by
  obtain ⟨s, hrun, hhanded⟩ := Option.map_eq_some_iff.mp asked_handed
  exact ⟨s, hrun, congrArg Prod.fst hhanded, run_accounted hrun⟩

end Pipeline

end YogSothoth.Rpc
