import Mathlib.Data.List.Forall2
import YogSothoth.Core.Text
import YogSothoth.Rpc.Endpoint
import YogSothoth.Rpc.SubscriptionWorker

namespace YogSothoth.Rpc

/-- What joining a task says: its own result, a panic, or that the runtime destroyed it. -/
inductive TaskResult (E : Type) where
  | done (result : Except E Unit)
  | panicked (reason : String)
  | cancelled

/-- Why a worker is not there any more. -/
structure WorkerFailure where
  target : SubscriptionTarget
  reason : String

def WorkerFailure.toString (texts : Texts) (self : WorkerFailure) : String :=
  self.target.protocol.asStr ++ "/" ++ texts.pubkey.print self.target.mention ++ ": " ++ self.reason

inductive RpcListenerError where
  | credential (e : CredentialError)
  | noSubscriptionTargets
  | invalidEndpoint (reason : String)
  | allWorkersGaveUp (failures : String)
  deriving DecidableEq

structure WorkerHandle where
  target : SubscriptionTarget
  handle : TaskResult RetriesExhausted

/-- The failure a worker adds: a cancelled one did not give up. -/
def WorkerHandle.failure (h : WorkerHandle) : Option WorkerFailure :=
  match h.handle with
  | .done (.ok ()) => none
  | .done (.error e) => some ⟨e.target,
      "retries_exhausted after " ++ ToString.toString e.attempts ++ ": " ++ e.lastError⟩
  | .panicked reason => some ⟨h.target, "panic: " ++ reason⟩
  | .cancelled => none

def joinFleet (handles : List WorkerHandle) : List WorkerFailure :=
  handles.foldl (fun gaveUp h => gaveUp ++ h.failure.toList) []

def fleetOutcome (texts : Texts) (gaveUp : List WorkerFailure) (total : Nat) :
    Except RpcListenerError Unit :=
  if gaveUp.length = total ∧ total > 0 then
    .error (.allWorkersGaveUp ("; ".intercalate (gaveUp.map (·.toString texts))))
  else .ok ()

/-- What cut a worker's task short. -/
inductive Cut where
  | panicked (reason : String)
  | cancelled

/-- A worker of the fleet: what its connections came to, and what cut its task short, if anything
did. -/
structure FleetWorker where
  target : SubscriptionTarget
  turns : List (Option ConnectOutcome)
  cut : Option Cut

/-- The handle of a worker whose task is over. -/
def FleetWorker.handle (maxAttempts : Nat) (w : FleetWorker) : Option WorkerHandle :=
  match w.cut with
  | some (.panicked reason) => some ⟨w.target, .panicked reason⟩
  | some .cancelled => some ⟨w.target, .cancelled⟩
  | none => (SubscriptionWorker.run w.target maxAttempts w.turns).result.map
      (fun result => ⟨w.target, .done result⟩)

/-- `RpcListener::run`, with a worker for each of its targets: what it returns, once the workers it
waits for are over. `cancelled` is what it reads of the token then. -/
def listen (texts : Texts) (http : Http) (endpoint : Endpoint) (maxAttempts : Nat)
    (cancelled : Bool) (workers : List FleetWorker) : Option (Except RpcListenerError Unit) :=
  match http.credential endpoint.assembledHeader with
  | .error e => some (.error (.credential e))
  | .ok _ =>
    match WEBSOCKET.check endpoint.url with
    | .error reason => some (.error (.invalidEndpoint reason))
    | .ok _ =>
      if workers.isEmpty then some (.error .noSubscriptionTargets)
      else (workers.mapM (FleetWorker.handle maxAttempts)).map (fun handles =>
        if cancelled then .ok () else fleetOutcome texts (joinFleet handles) handles.length)

/-- A worker is gone for this reason: its task panicked, or as many connections in a row failed as
its budget allows, and no more. -/
def GaveUp (maxAttempts : Nat) (w : FleetWorker) (reason : String) : Prop :=
  (∃ panic, w.cut = some (.panicked panic) ∧ reason = "panic: " ++ panic) ∨
    w.cut = none ∧ ∃ before error rest,
      w.turns.map SubscriptionWorker.turnOf = before ++ .charge error :: rest ∧
      Turn.Goes (max 1 maxAttempts) before ∧ Turn.streak before + 1 = max 1 maxAttempts ∧
      reason = "retries_exhausted after " ++ ToString.toString (max 1 maxAttempts) ++ ": " ++ error

/-- Every worker gave up, for these reasons in turn. -/
def AllGaveUp (maxAttempts : Nat) (workers : List FleetWorker) (failures : List WorkerFailure) :
    Prop :=
  List.Forall₂ (fun w failure => failure.target = w.target ∧ GaveUp maxAttempts w failure.reason)
    workers failures

theorem joinFleet_eq (handles : List WorkerHandle) :
    joinFleet handles = handles.filterMap WorkerHandle.failure := by
  have hfold : ∀ acc : List WorkerFailure,
      handles.foldl (fun gaveUp h => gaveUp ++ h.failure.toList) acc =
        acc ++ handles.filterMap WorkerHandle.failure := by
    induction handles with
    | nil => exact fun acc => (List.append_nil acc).symm
    | cons h handles ih =>
      intro acc
      rw [List.foldl_cons, ih, List.append_assoc]
      cases hfailure : h.failure with
      | none => rw [List.filterMap_cons_none hfailure, Option.toList_none, List.nil_append]
      | some failure =>
        rw [List.filterMap_cons_some hfailure, Option.toList_some, List.singleton_append]
  exact (hfold []).trans (List.nil_append _)

/-- The failure of a handle tells how its worker ended. -/
theorem handle_failure {maxAttempts : Nat} {w : FleetWorker} {h : WorkerHandle}
    (hhandle : w.handle maxAttempts = some h) (failure : WorkerFailure) :
    h.failure = some failure ↔
      failure.target = w.target ∧ GaveUp maxAttempts w failure.reason := by
  obtain ⟨target, turns, cut⟩ := w
  obtain ⟨failed, reason⟩ := failure
  cases cut with
  | some cut =>
    cases cut with
    | cancelled =>
      cases hhandle
      constructor
      · intro hfailure
        cases hfailure
      · intro ⟨_, hgave⟩
        rcases hgave with ⟨panic, hpanic, -⟩ | ⟨hnone, -⟩
        · cases hpanic
        · cases hnone
    | panicked panic =>
      cases hhandle
      constructor
      · intro hfailure
        cases hfailure
        exact ⟨rfl, Or.inl ⟨panic, rfl, rfl⟩⟩
      · intro ⟨htarget, hgave⟩
        rcases hgave with ⟨panic', hpanic, hreason⟩ | ⟨hnone, -⟩
        · cases hpanic
          change failed = target at htarget
          change reason = _ at hreason
          rw [htarget, hreason]
          rfl
        · cases hnone
  | none =>
    obtain ⟨result, hresult, rfl⟩ := Option.map_eq_some_iff.mp hhandle
    constructor
    · intro hfailure
      cases result with
      | ok _ => cases hfailure
      | error e =>
        obtain ⟨htarget, hattempts, before, rest, hturns, hgoes, hlast⟩ :=
          (SubscriptionWorker.run_exhausted_iff turns e).mp hresult
        cases hfailure
        refine ⟨htarget, Or.inr ⟨rfl, before, e.lastError, rest, hturns, hgoes, hlast, ?_⟩⟩
        rw [hattempts]
    · intro ⟨htarget, hgave⟩
      rcases hgave with ⟨panic, hpanic, -⟩ | ⟨-, before, error, rest, hturns, hgoes, hlast, hreason⟩
      · cases hpanic
      · have hexhausted := (@SubscriptionWorker.run_exhausted_iff target _ turns
          ⟨target, max 1 maxAttempts, error⟩).mpr ⟨rfl, rfl, before, rest, hturns, hgoes, hlast⟩
        rw [hresult] at hexhausted
        cases hexhausted
        change failed = target at htarget
        change reason = _ at hreason
        rw [htarget, hreason]
        rfl

theorem forall₂_handles {maxAttempts : Nat} {workers : List FleetWorker}
    {handles : List WorkerHandle}
    (h : workers.mapM (FleetWorker.handle maxAttempts) = some handles) :
    List.Forall₂ (fun w h => FleetWorker.handle maxAttempts w = some h) workers handles := by
  induction workers generalizing handles with
  | nil =>
    cases h
    exact .nil
  | cons w workers ih =>
    rw [List.mapM_cons] at h
    obtain ⟨handle, hhandle, h⟩ := Option.bind_eq_some_iff.mp h
    obtain ⟨handles', hhandles, h⟩ := Option.bind_eq_some_iff.mp h
    cases h
    exact .cons hhandle (ih hhandles)

/-- Every handle carries a failure exactly when every worker gave up, for the reasons told. -/
theorem failures_iff {maxAttempts : Nat} {workers : List FleetWorker} {handles : List WorkerHandle}
    (h : List.Forall₂ (fun w h => FleetWorker.handle maxAttempts w = some h) workers handles)
    (failures : List WorkerFailure) :
    (joinFleet handles = failures ∧ (joinFleet handles).length = handles.length) ↔
      AllGaveUp maxAttempts workers failures := by
  rw [joinFleet_eq, AllGaveUp]
  induction h generalizing failures with
  | nil =>
    constructor
    · intro ⟨hnil, _⟩
      rw [← hnil]
      exact .nil
    · intro hall
      cases hall
      exact ⟨rfl, rfl⟩
  | @cons w handle workers handles hhandle hrest ih =>
    have hle := List.length_filterMap_le WorkerHandle.failure handles
    constructor
    · intro ⟨hfailures, hlength⟩
      cases hfailure : handle.failure with
      | none =>
        rw [List.filterMap_cons_none hfailure, List.length_cons] at hlength
        omega
      | some failure =>
        rw [List.filterMap_cons_some hfailure] at hfailures hlength
        rw [← hfailures]
        exact .cons ((handle_failure hhandle failure).mp hfailure)
          ((ih _).mp ⟨rfl, Nat.succ.inj hlength⟩)
    · intro hall
      cases hall with
      | @cons _ failure _ failures hgave hall =>
        have hfailure := (handle_failure hhandle failure).mpr hgave
        obtain ⟨hfailures, hlength⟩ := (ih failures).mpr hall
        rw [List.filterMap_cons_some hfailure, hfailures]
        exact ⟨rfl, by rw [List.length_cons, List.length_cons, ← hlength, hfailures]⟩

/-- A fleet that is joined escalates exactly when every one of its workers gave up, with what each
reported; a single worker left keeps it alive. -/
theorem fleet_escalates (texts : Texts) (maxAttempts : Nat) {workers : List FleetWorker}
    (hworkers : workers ≠ []) {handles : List WorkerHandle}
    (hended : workers.mapM (FleetWorker.handle maxAttempts) = some handles) (e : RpcListenerError) :
    fleetOutcome texts (joinFleet handles) handles.length = .error e ↔ ∃ failures,
      AllGaveUp maxAttempts workers failures ∧
      e = .allWorkersGaveUp ("; ".intercalate (failures.map (·.toString texts))) := by
  have hall := forall₂_handles hended
  have hpositive : handles.length > 0 := hall.length_eq ▸ List.length_pos_iff.mpr hworkers
  rw [fleetOutcome]
  constructor
  · intro hlisten
    split_ifs at hlisten with hfull
    cases hlisten
    exact ⟨joinFleet handles, (failures_iff hall _).mp ⟨rfl, hfull.1⟩, rfl⟩
  · intro ⟨failures, hgave, he⟩
    obtain ⟨hfailures, hfull⟩ := (failures_iff hall failures).mpr hgave
    rw [if_pos ⟨hfull, hpositive⟩, hfailures, he]

/-- The listener fails on an endpoint it cannot use or without a target, before any worker runs;
then only when the token had not fired and every worker gave up. -/
theorem listen_fails_iff (texts : Texts) (http : Http) (endpoint : Endpoint) (maxAttempts : Nat)
    (cancelled : Bool) (workers : List FleetWorker) {result : Except RpcListenerError Unit}
    (h : listen texts http endpoint maxAttempts cancelled workers = some result) :
    result ≠ .ok () ↔ ¬ endpoint.Usable http ∨ workers = [] ∨
      cancelled = false ∧ ∃ failures, AllGaveUp maxAttempts workers failures := by
  unfold listen at h
  cases hcredential : http.credential endpoint.assembledHeader with
  | error e =>
    rw [hcredential] at h
    cases h
    have hunusable : ¬ endpoint.Usable http := by
      intro husable
      obtain ⟨credential, hok⟩ := (http.credential_ok_iff _).mpr husable.header
      rw [hcredential] at hok
      cases hok
    exact iff_of_true nofun (Or.inl hunusable)
  | ok credential =>
    rw [hcredential] at h
    cases hcheck : WEBSOCKET.check endpoint.url with
    | error reason =>
      rw [hcheck] at h
      cases h
      have hunusable : ¬ endpoint.Usable http := by
        intro husable
        rw [(WEBSOCKET.check_ok_iff _).mpr husable.scheme] at hcheck
        cases hcheck
      exact iff_of_true nofun (Or.inl hunusable)
    | ok _ =>
      rw [hcheck] at h
      have husable : endpoint.Usable http :=
        ⟨(http.credential_ok_iff _).mp ⟨credential, hcredential⟩,
          (WEBSOCKET.check_ok_iff _).mp hcheck⟩
      rw [or_iff_right (not_not_intro husable)]
      by_cases hworkers : workers = []
      · subst hworkers
        cases h
        exact iff_of_true nofun (Or.inl rfl)
      · have hnonempty : workers.isEmpty = false := List.isEmpty_eq_false_iff.mpr hworkers
        rw [hnonempty] at h
        obtain ⟨handles, hended, hresult⟩ := Option.map_eq_some_iff.mp h
        cases cancelled with
        | true =>
          subst hresult
          refine iff_of_false (fun hne => hne rfl) ?_
          rintro (hnil | ⟨hfalse, -⟩)
          · exact hworkers hnil
          · cases hfalse
        | false =>
          subst hresult
          have hescalates := fleet_escalates texts maxAttempts hworkers hended
          constructor
          · intro hne
            cases hfleet : fleetOutcome texts (joinFleet handles) handles.length with
            | ok _ => exact absurd hfleet hne
            | error e =>
              obtain ⟨failures, hgave, -⟩ := (hescalates e).mp hfleet
              exact Or.inr ⟨rfl, failures, hgave⟩
          · rintro (hnil | ⟨-, failures, hgave⟩)
            · exact absurd hnil hworkers
            · have hfleet := (hescalates _).mpr ⟨failures, hgave, rfl⟩
              intro hok
              exact absurd (hfleet.symm.trans hok) nofun

/-- What can stop the source; the gRPC listener has its own. -/
inductive SourceError where
  | rpcListener (e : RpcListenerError)
  | semaphoreClosed (stage : String)
  | taskPanicked (task reason : String)
  deriving DecidableEq

/-- The three stages, in pipeline order. -/
inductive PipelineStage where
  | listener
  | dispatcher
  | fetch
  deriving DecidableEq

namespace PipelineStage

def all : List PipelineStage := [.listener, .dispatcher, .fetch]

def name : PipelineStage → String
  | .listener => "listener"
  | .dispatcher => "dispatcher"
  | .fetch => "fetch worker"

/-- A joined stage: its own error, its panic, or the shutdown that destroyed it. -/
def join (task : PipelineStage) : TaskResult SourceError → Except SourceError Unit
  | .done result => result
  | .panicked reason => .error (.taskPanicked task.name reason)
  | .cancelled => .ok ()

end PipelineStage

/-- Wait for the stages that have not ended yet; the first failure wins. -/
def drainStages (ended : PipelineStage) (first : Except SourceError Unit)
    (stages : PipelineStage → TaskResult SourceError) : Except SourceError Unit :=
  PipelineStage.all.foldl (fun outcome stage =>
    if stage ≠ ended then
      let reported := stage.join (stages stage)
      if outcome.isOk then reported else outcome
    else outcome) first

/-- `RpcTransactionSource::run`: the first stage ready in pipeline order ends it, then the others
are waited for. -/
def runSource (ready : PipelineStage → Bool) (stages : PipelineStage → TaskResult SourceError) :
    Option (Except SourceError Unit) :=
  (PipelineStage.all.find? ready).map
    (fun ended => drainStages ended (ended.join (stages ended)) stages)

/-- A failure that has been reported is not forgotten for a later clean end. -/
theorem drainStages_ok_iff (ended : PipelineStage)
    (stages : PipelineStage → TaskResult SourceError) :
    drainStages ended (ended.join (stages ended)) stages = .ok () ↔
      ∀ stage : PipelineStage, stage.join (stages stage) = .ok () := by
  have hfold : ∀ (rest : List PipelineStage) (first : Except SourceError Unit),
      rest.foldl (fun outcome stage =>
        if stage ≠ ended then
          let reported := stage.join (stages stage)
          if outcome.isOk then reported else outcome
        else outcome) first = .ok () ↔
        first = .ok () ∧ ∀ stage ∈ rest, stage ≠ ended → stage.join (stages stage) = .ok () := by
    intro rest
    induction rest with
    | nil =>
      intro first
      exact ⟨fun h => ⟨h, nofun⟩, fun h => h.1⟩
    | cons stage rest ih =>
      intro first
      rw [List.foldl_cons, ih, List.forall_mem_cons, ← and_assoc]
      apply and_congr_left'
      by_cases hstage : stage ≠ ended
      · rw [if_pos hstage]
        cases first with
        | ok _ => exact ⟨fun h => ⟨rfl, fun _ => h⟩, fun h => h.2 hstage⟩
        | error e =>
          constructor
          · intro h
            cases h
          · intro ⟨h, _⟩
            cases h
      · rw [if_neg hstage]
        exact ⟨fun h => ⟨h, fun hne => absurd hne hstage⟩, fun h => h.1⟩
  rw [drainStages, hfold]
  constructor
  · intro ⟨hended, hrest⟩ stage
    by_cases hstage : stage = ended
    · rw [hstage]
      exact hended
    · have hmem : stage ∈ PipelineStage.all := by cases stage <;> decide
      exact hrest stage hmem hstage
  · intro h
    exact ⟨h ended, fun stage _ _ => h stage⟩

/-- The source fails exactly when its listener's task panicked or was refused its endpoint, had no
target or saw its whole fleet give up with no stop, or another stage failed; which stage was seen to
end first hides none of it. -/
theorem source_fails_iff (texts : Texts) (http : Http) (endpoint : Endpoint) (maxAttempts : UInt32)
    (cancelled : Bool) (workers : List FleetWorker) {ready : PipelineStage → Bool}
    {stages : PipelineStage → TaskResult SourceError}
    (hlistener : ∀ result, stages .listener = .done result →
      (listen texts http endpoint maxAttempts.toNat cancelled workers).map
        (Except.mapError .rpcListener) = some result)
    {outcome : Except SourceError Unit} (hrun : runSource ready stages = some outcome) :
    outcome ≠ .ok () ↔
      (∃ reason, stages .listener = .panicked reason) ∨
        (∃ result, stages .listener = .done result) ∧
          (¬ endpoint.Usable http ∨ workers = [] ∨
            cancelled = false ∧ ∃ failures, AllGaveUp maxAttempts.toNat workers failures) ∨
        PipelineStage.join .dispatcher (stages .dispatcher) ≠ .ok () ∨
        PipelineStage.join .fetch (stages .fetch) ≠ .ok () := by
  obtain ⟨ended, -, rfl⟩ := Option.map_eq_some_iff.mp hrun
  have hfleet : PipelineStage.join .listener (stages .listener) ≠ .ok () ↔
      (∃ reason, stages .listener = .panicked reason) ∨
        (∃ result, stages .listener = .done result) ∧
          (¬ endpoint.Usable http ∨ workers = [] ∨
            cancelled = false ∧ ∃ failures, AllGaveUp maxAttempts.toNat workers failures) := by
    cases hstage : stages .listener with
    | panicked reason => exact iff_of_true nofun (Or.inl ⟨reason, rfl⟩)
    | cancelled =>
      refine iff_of_false (fun hne => hne rfl) ?_
      rintro (⟨_, h⟩ | ⟨⟨_, h⟩, -⟩)
      · cases h
      · cases h
    | done result =>
      obtain ⟨listened, hlisten, hresult⟩ := Option.map_eq_some_iff.mp (hlistener result hstage)
      rw [← listen_fails_iff texts http endpoint _ cancelled workers hlisten, ← hresult]
      cases listened with
      | ok _ =>
        refine iff_of_false (fun hne => hne rfl) ?_
        rintro (⟨_, h⟩ | ⟨-, hne⟩)
        · cases h
        · exact hne rfl
      | error e => exact iff_of_true nofun (Or.inr ⟨⟨_, rfl⟩, nofun⟩)
  rw [ne_eq, drainStages_ok_iff, ← or_assoc, ← hfleet]
  constructor
  · intro hne
    by_contra hnone
    rw [not_or, not_or, not_not, not_not, not_not] at hnone
    apply hne
    intro stage
    cases stage with
    | listener => exact hnone.1
    | dispatcher => exact hnone.2.1
    | fetch => exact hnone.2.2
  · intro hfailed hall
    rcases hfailed with h | h | h
    · exact h (hall .listener)
    · exact h (hall .dispatcher)
    · exact h (hall .fetch)

/-- A fleet of two: the connections of one fail, the task of the other panics. -/
def collapsed : List FleetWorker :=
  [⟨⟨.meteoraDammV2, zeroPubkey⟩, [some .streamClosed, some (.failed "refused")], none⟩,
    ⟨⟨.meteoraDlmm, zeroPubkey⟩, [], some (.panicked "overflow")⟩]

/-- A client that takes every header, its name in lower case. -/
def lenient : Http := ⟨fun name => some name.toLower, fun _ => true⟩

/-- A local validator's endpoint, with no credential. -/
def localEndpoint : Endpoint := ⟨"WS://127.0.0.1:8900", none, none⟩

/-- How the stages end around it; the fetch stage is seen to end first. -/
def collapsedStages : PipelineStage → TaskResult SourceError
  | .listener => match listen .plain lenient localEndpoint 1 false collapsed with
    | some result => .done (result.mapError .rpcListener)
    | none => .cancelled
  | .dispatcher => .done (.ok ())
  | .fetch => .cancelled

theorem source_fails_iff_collapsed : ∃ outcome,
    runSource (· = .fetch) collapsedStages = some outcome ∧ outcome ≠ .ok () ∧
      localEndpoint.Usable lenient ∧ ∃ failures, AllGaveUp 1 collapsed failures := by
  have husable : localEndpoint.Usable lenient := ⟨nofun, "ws", by decide, by decide⟩
  have hgave := (@source_fails_iff .plain lenient localEndpoint 1 false collapsed (· = .fetch)
    collapsedStages (fun _ h => by cases h; rfl) _ rfl).mp nofun
  rcases hgave with ⟨_, hpanicked⟩ | ⟨-, hlistener⟩ | hdispatcher | hfetch
  · cases hpanicked
  · rcases hlistener with hunusable | hnil | ⟨-, hfleet⟩
    · exact absurd husable hunusable
    · cases hnil
    · exact ⟨_, rfl, nofun, husable, hfleet⟩
  · exact absurd rfl hdispatcher
  · exact absurd rfl hfetch

end YogSothoth.Rpc
