import YogSothoth.Core.Types
import YogSothoth.Grpc.RetryBudget

namespace YogSothoth.Rpc

/-- One `logsSubscribe` target, a program id or a pool, with its protocol. -/
structure SubscriptionTarget where
  protocol : Protocol
  mention : Pubkey
  deriving DecidableEq

/-- The lifecycle events a worker broadcasts, of its own target. -/
inductive SubscriptionEvent where
  | subscribed (target : SubscriptionTarget)
  | streamClosed (target : SubscriptionTarget) (attempt : Nat)
  | retryFailed (target : SubscriptionTarget) (attempt : Nat) (error : String)
  | givingUp (target : SubscriptionTarget) (lastError : String)
  | shutdownCompleted (target : SubscriptionTarget)
  deriving DecidableEq

/-- `SubscriptionWorkerError::RetriesExhausted`, the only one. -/
structure RetriesExhausted where
  target : SubscriptionTarget
  attempts : Nat
  lastError : String
  deriving DecidableEq

/-- What a connection came to; all but the failed ones had subscribed. -/
inductive ConnectOutcome where
  | shutdownRequested
  | dispatcherClosed
  | streamClosed
  | failed (error : String)
  deriving DecidableEq

def INITIAL_BACKOFF_SECS : Nat := 1

def MAX_BACKOFF_SECS : Nat := 60

/-- The waits a worker made, the events it sent, and the result it stopped with, if it did. -/
structure WorkerRun where
  waits : List Nat
  events : List SubscriptionEvent
  result : Option (Except RetriesExhausted Unit)

namespace WorkerRun

/-- What comes before the rest of a run. -/
def after (events : List SubscriptionEvent) (wait : Nat) (rest : WorkerRun) : WorkerRun :=
  { rest with waits := wait :: rest.waits, events := events ++ rest.events }

/-- The turns taken: one before each wait, and the one that stopped. -/
def turns (r : WorkerRun) : Nat := r.waits.length + r.result.toList.length

theorem turns_after (events : List SubscriptionEvent) (wait : Nat) (rest : WorkerRun) :
    (after events wait rest).turns = rest.turns + 1 := by
  simp only [turns, after, List.length_cons]
  omega

end WorkerRun

namespace SubscriptionWorker

variable (target : SubscriptionTarget) (maxAttempts : Nat)

/-- The worker's loop over what each look at the token and each connection came to: `none` when
the token had fired. -/
def loop (attempt backoff : Nat) : List (Option ConnectOutcome) → WorkerRun
  | [] => ⟨[], [], none⟩
  | none :: _ => ⟨[], [.shutdownCompleted target], some (.ok ())⟩
  | some .shutdownRequested :: _ =>
    ⟨[], [.subscribed target, .shutdownCompleted target], some (.ok ())⟩
  | some .dispatcherClosed :: _ =>
    ⟨[], [.subscribed target, .shutdownCompleted target], some (.ok ())⟩
  | some .streamClosed :: turns =>
    .after [.subscribed target, .streamClosed target (attempt + 1)] 1
      (loop 0 INITIAL_BACKOFF_SECS turns)
  | some (.failed error) :: turns =>
    if attempt + 1 ≥ maxAttempts then
      ⟨[], [.retryFailed target (attempt + 1) error, .givingUp target error],
        some (.error ⟨target, attempt + 1, error⟩)⟩
    else
      .after [.retryFailed target (attempt + 1) error] backoff
        (loop (attempt + 1) (min (backoff * 2) MAX_BACKOFF_SECS) turns)

def run (turns : List (Option ConnectOutcome)) : WorkerRun :=
  loop target maxAttempts 0 INITIAL_BACKOFF_SECS turns

end SubscriptionWorker

/-- The connection of the gRPC listener that is worth the same: here a stream that closed was
alive, whatever it delivered. -/
def ConnectOutcome.ending : ConnectOutcome → Grpc.Ending
  | .shutdownRequested => .shutdownRequested
  | .dispatcherClosed => .downstreamClosed
  | .streamClosed => .streamClosed true
  | .failed error => .failed error false

def RetriesExhausted.grpc (e : RetriesExhausted) : Grpc.RetriesExhausted := ⟨e.attempts, e.lastError⟩

/-- The two ways a worker ends, and the event each sends. -/
def SubscriptionEvent.isTerminal : SubscriptionEvent → Bool
  | .givingUp _ _ => true
  | .shutdownCompleted _ => true
  | _ => false

def terminal (target : SubscriptionTarget) :
    Option (Except RetriesExhausted Unit) → List SubscriptionEvent
  | none => []
  | some (.ok ()) => [.shutdownCompleted target]
  | some (.error e) => [.givingUp target e.lastError]

namespace SubscriptionWorker

/-- A turn of the worker, as its budget weighs it. -/
def turnOf (turn : Option ConnectOutcome) : Turn String :=
  Grpc.turnOf (turn.map ConnectOutcome.ending)

section Announced

variable (target : SubscriptionTarget) (maxAttempts : Nat)

/-- What a turn sends after those before it: the attempt is the failures in a row they end on, and
one. -/
def turnEvents (before : List (Option ConnectOutcome)) : Option ConnectOutcome →
    List SubscriptionEvent
  | none => [.shutdownCompleted target]
  | some .shutdownRequested => [.subscribed target, .shutdownCompleted target]
  | some .dispatcherClosed => [.subscribed target, .shutdownCompleted target]
  | some .streamClosed =>
    [.subscribed target, .streamClosed target (Turn.streak (before.map turnOf) + 1)]
  | some (.failed error) =>
    .retryFailed target (Turn.streak (before.map turnOf) + 1) error ::
      if Turn.streak (before.map turnOf) + 1 ≥ maxAttempts then [.givingUp target error] else []

def announced (before : List (Option ConnectOutcome)) : List (Option ConnectOutcome) →
    List SubscriptionEvent
  | [] => []
  | turn :: turns =>
    turnEvents target maxAttempts before turn ++ announced (before ++ [turn]) turns

end Announced

variable {target : SubscriptionTarget} {maxAttempts : Nat}

theorem loop_attempts (attempt backoff : Nat) (turns : List (Option ConnectOutcome)) :
    (loop target maxAttempts attempt backoff turns).waits =
        (Grpc.attempts ⟨attempt, backoff, maxAttempts⟩
          (turns.map (Option.map ConnectOutcome.ending))).waits ∧
      (loop target maxAttempts attempt backoff turns).result.map
          (Except.mapError RetriesExhausted.grpc) =
        (Grpc.attempts ⟨attempt, backoff, maxAttempts⟩
          (turns.map (Option.map ConnectOutcome.ending))).result := by
  induction turns generalizing attempt backoff with
  | nil => exact ⟨rfl, rfl⟩
  | cons turn turns ih =>
    cases turn with
    | none => exact ⟨rfl, rfl⟩
    | some outcome =>
      cases outcome with
      | shutdownRequested => exact ⟨rfl, rfl⟩
      | dispatcherClosed => exact ⟨rfl, rfl⟩
      | streamClosed =>
        obtain ⟨hwaits, hresult⟩ := ih 0 INITIAL_BACKOFF_SECS
        exact ⟨congrArg (List.cons 1) hwaits, hresult⟩
      | failed error =>
        obtain ⟨hwaits, hresult⟩ := ih (attempt + 1) (min (backoff * 2) MAX_BACKOFF_SECS)
        rw [List.map_cons, Option.map_some]
        simp only [loop, Grpc.attempts, ConnectOutcome.ending, Grpc.Ending.verdict,
          Grpc.RetryBudget.settle, Grpc.RetryBudget.charge]
        by_cases hspent : attempt + 1 ≥ maxAttempts
        · rw [if_pos hspent, if_pos hspent]
          exact ⟨rfl, rfl⟩
        · rw [if_neg hspent, if_neg hspent]
          exact ⟨congrArg (List.cons backoff) hwaits, hresult⟩

/-- The worker's last event, as it stops, is the only one of its kind. -/
theorem loop_terminal (attempt backoff : Nat) (turns : List (Option ConnectOutcome)) :
    ∃ before, (loop target maxAttempts attempt backoff turns).events =
        before ++ terminal target (loop target maxAttempts attempt backoff turns).result ∧
      ∀ e ∈ before, e.isTerminal = false := by
  induction turns generalizing attempt backoff with
  | nil => exact ⟨[], rfl, nofun⟩
  | cons turn turns ih =>
    have hone : ∀ e ∈ [SubscriptionEvent.subscribed target], e.isTerminal = false := by
      intro e he
      rw [List.mem_singleton.mp he]
      rfl
    cases turn with
    | none => exact ⟨[], rfl, nofun⟩
    | some outcome =>
      cases outcome with
      | shutdownRequested => exact ⟨[.subscribed target], rfl, hone⟩
      | dispatcherClosed => exact ⟨[.subscribed target], rfl, hone⟩
      | streamClosed =>
        obtain ⟨before, hevents, hbefore⟩ := ih 0 INITIAL_BACKOFF_SECS
        refine ⟨[.subscribed target, .streamClosed target (attempt + 1)] ++ before, ?_, ?_⟩
        · rw [List.append_assoc]
          exact congrArg (_ ++ ·) hevents
        · intro e he
          rcases List.mem_append.mp he with he | he
          · rcases List.mem_pair.mp he with rfl | rfl <;> rfl
          · exact hbefore e he
      | failed error =>
        rw [loop]
        by_cases hspent : attempt + 1 ≥ maxAttempts
        · rw [if_pos hspent]
          refine ⟨[.retryFailed target (attempt + 1) error], rfl, ?_⟩
          intro e he
          rw [List.mem_singleton.mp he]
          rfl
        · rw [if_neg hspent]
          obtain ⟨before, hevents, hbefore⟩ :=
            ih (attempt + 1) (min (backoff * 2) MAX_BACKOFF_SECS)
          refine ⟨.retryFailed target (attempt + 1) error :: before, ?_, ?_⟩
          · rw [List.cons_append, WorkerRun.after, hevents]
            rfl
          · intro e he
            rcases List.mem_cons.mp he with rfl | he
            · rfl
            · exact hbefore e he

/-- What the worker sends goes turn by turn, each attempt counted from the last stream that
closed. -/
theorem loop_announced (before : List (Option ConnectOutcome)) (backoff : Nat)
    (turns : List (Option ConnectOutcome)) :
    (loop target maxAttempts (Turn.streak (before.map turnOf)) backoff turns).events =
      announced target maxAttempts before (turns.take
        (loop target maxAttempts (Turn.streak (before.map turnOf)) backoff turns).turns) := by
  induction turns generalizing before backoff with
  | nil => rfl
  | cons turn turns ih =>
    have hstreak (t : Option ConnectOutcome) :
        (before ++ [t]).map turnOf = before.map turnOf ++ [turnOf t] := by
      rw [List.map_append, List.map_singleton]
    cases turn with
    | none => rfl
    | some outcome =>
      cases outcome with
      | shutdownRequested => rfl
      | dispatcherClosed => rfl
      | streamClosed =>
        have hrest := ih (before ++ [some .streamClosed]) INITIAL_BACKOFF_SECS
        rw [hstreak, show turnOf (some .streamClosed) = .churn from rfl, Turn.streak_churn] at hrest
        rw [loop, WorkerRun.turns_after, List.take_succ_cons, announced, ← hrest]
        rfl
      | failed error =>
        have hrest := ih (before ++ [some (.failed error)])
          (min (backoff * 2) MAX_BACKOFF_SECS)
        rw [hstreak, show turnOf (some (.failed error)) = .charge error from rfl,
          Turn.streak_charge] at hrest
        rw [loop]
        by_cases hspent : Turn.streak (before.map turnOf) + 1 ≥ maxAttempts
        · rw [if_pos hspent]
          change _ = turnEvents target maxAttempts before (some (.failed error)) ++ _
          rw [turnEvents, if_pos hspent]
          rfl
        · rw [if_neg hspent, WorkerRun.turns_after, List.take_succ_cons, announced, ← hrest,
            turnEvents, if_neg hspent]
          rfl

/-- A worker that gives up does so under its own target. -/
theorem loop_target {attempt backoff : Nat} {turns : List (Option ConnectOutcome)}
    {e : RetriesExhausted}
    (h : (loop target maxAttempts attempt backoff turns).result = some (.error e)) :
    e.target = target := by
  induction turns generalizing attempt backoff with
  | nil => cases h
  | cons turn turns ih =>
    cases turn with
    | none => cases h
    | some outcome =>
      cases outcome with
      | shutdownRequested => cases h
      | dispatcherClosed => cases h
      | streamClosed => exact ih h
      | failed error =>
        rw [loop] at h
        by_cases hspent : attempt + 1 ≥ maxAttempts
        · rw [if_pos hspent] at h
          cases h
          rfl
        · rw [if_neg hspent] at h
          exact ih h

/-- When a worker has given up, by what its connections came to. -/
theorem run_exhausted_iff (turns : List (Option ConnectOutcome)) (e : RetriesExhausted) :
    (run target maxAttempts turns).result = some (.error e) ↔
      e.target = target ∧ e.attempts = max 1 maxAttempts ∧ ∃ before rest,
        turns.map turnOf = before ++ .charge e.lastError :: rest ∧
        Turn.Goes (max 1 maxAttempts) before ∧
        Turn.streak before + 1 = max 1 maxAttempts := by
  have hretried := @Grpc.attempts_retried [] maxAttempts (Turn.Goes.nil _)
    (turns.map (Option.map ConnectOutcome.ending))
  have hsame := (@loop_attempts target maxAttempts 0 INITIAL_BACKOFF_SECS turns).2
  rw [List.map_map] at hretried
  have hiff : _ = some (Except.error (e.attempts, e.lastError)) ↔ _ := hretried.exhausted_iff
  rw [show Grpc.budgetAfter maxAttempts [] = ⟨0, INITIAL_BACKOFF_SECS, maxAttempts⟩ from rfl,
    ← hsame] at hiff
  constructor
  · intro hresult
    refine ⟨loop_target hresult, hiff.mp ?_⟩
    change Option.map _ (Option.map _ (run target maxAttempts turns).result) = _
    rw [hresult]
    rfl
  · intro ⟨htarget, hrest⟩
    have hmapped := hiff.mpr hrest
    obtain ⟨grpc, hgrpc, hexhaustion⟩ := Option.map_eq_some_iff.mp hmapped
    obtain ⟨result, hresult, rfl⟩ := Option.map_eq_some_iff.mp hgrpc
    cases result with
    | ok _ => cases hexhaustion
    | error e' =>
      have htarget' := loop_target hresult
      obtain ⟨target', attempts', lastError'⟩ := e'
      obtain ⟨target'', attempts, lastError⟩ := e
      cases hexhaustion
      cases htarget
      cases htarget'
      exact hresult

/-- The worker and the gRPC listener, two copies of one retry loop, make the same waits and stop at
the same attempt with the same error. The worker tells of each turn as it takes it, each attempt
counted, and sends its terminal event last, as it stops and not before. -/
theorem worker_retries (target : SubscriptionTarget) (maxAttempts : UInt32)
    (turns : List (Option ConnectOutcome)) :
    let r := run target maxAttempts.toNat turns
    let listener := Grpc.attempts (.new maxAttempts.toNat) (turns.map (Option.map ConnectOutcome.ending))
    r.waits = listener.waits ∧
      r.result.map (Except.mapError RetriesExhausted.grpc) = listener.result ∧
      (∀ e, r.result = some (.error e) → e.target = target) ∧
      r.events = announced target maxAttempts.toNat [] (turns.take r.turns) ∧
      ∃ before, r.events = before ++ terminal target r.result ∧ ∀ e ∈ before, e.isTerminal = false := by
  intro r listener
  obtain ⟨hwaits, hresult⟩ := loop_attempts 0 INITIAL_BACKOFF_SECS turns
  exact ⟨hwaits, hresult, fun e he => loop_target he, loop_announced [] INITIAL_BACKOFF_SECS turns,
    loop_terminal 0 INITIAL_BACKOFF_SECS turns⟩

end SubscriptionWorker

end YogSothoth.Rpc
