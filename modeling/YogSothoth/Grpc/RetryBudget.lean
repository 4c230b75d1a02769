import YogSothoth.Framework.Retries

namespace YogSothoth.Grpc

/-- How one connection ended. -/
inductive Ending where
  | shutdownRequested
  | downstreamClosed
  | unreachable (error : String)
  | streamClosed (delivered : Bool)
  | failed (error : String) (delivered : Bool)
  | stalled (error : String) (delivered : Bool)
  deriving DecidableEq

inductive Verdict where
  | shutdownRequested
  | consumerGone
  | delivered (error : Option String)
  | serverFailed (error : String)
  | unanswered (error : String)
  deriving DecidableEq

def Ending.verdict : Ending → Verdict
  | .shutdownRequested => .shutdownRequested
  | .downstreamClosed => .consumerGone
  | .unreachable error => .unanswered error
  | .streamClosed true => .delivered none
  | .streamClosed false => .serverFailed "stream closed without delivering anything"
  | .failed error true => .delivered (some error)
  | .failed error false => .serverFailed error
  | .stalled error true => .delivered (some error)
  | .stalled error false => .unanswered error

/-- `GrpcListenerError::RetriesExhausted`; the other variants are configuration faults, met before
the loop. -/
structure RetriesExhausted where
  attempts : Nat
  lastError : String
  deriving DecidableEq

/-- What the listener does after an attempt; a wait is in seconds. -/
inductive Next where
  | retry (after : Nat)
  | stop (result : Except RetriesExhausted Unit)

def INITIAL_BACKOFF_SECS : Nat := 1

def MAX_BACKOFF_SECS : Nat := 60

structure RetryBudget where
  attempt : Nat
  backoff : Nat
  maxAttempts : Nat

namespace RetryBudget

def new (maxAttempts : Nat) : RetryBudget := ⟨0, INITIAL_BACKOFF_SECS, maxAttempts⟩

def churn (self : RetryBudget) : Next × RetryBudget :=
  (.retry INITIAL_BACKOFF_SECS, { self with attempt := 0, backoff := INITIAL_BACKOFF_SECS })

def charge (self : RetryBudget) (lastError : String) : Next × RetryBudget :=
  if self.attempt ≥ self.maxAttempts then (.stop (.error ⟨self.attempt, lastError⟩), self)
  else (.retry self.backoff, { self with backoff := min (self.backoff * 2) MAX_BACKOFF_SECS })

/-- Count one attempt and decide what follows its verdict. -/
def settle (self : RetryBudget) (verdict : Verdict) : Next × RetryBudget :=
  let self := { self with attempt := self.attempt + 1 }
  match verdict with
  | .shutdownRequested => (.stop (.ok ()), self)
  | .consumerGone => (.stop (.ok ()), self)
  | .delivered _ => self.churn
  | .serverFailed error => self.charge error
  | .unanswered error => self.charge error

end RetryBudget

/-- The waits a listener made and the result it stopped with, if it did. -/
structure Attempts where
  waits : List Nat
  result : Option (Except RetriesExhausted Unit)
  deriving DecidableEq

/-- `GrpcListener::attempts` over what each look at the token and each attempt came to: `none` when
the token had fired before the attempt. -/
def attempts (budget : RetryBudget) : List (Option Ending) → Attempts
  | [] => ⟨[], none⟩
  | none :: _ => ⟨[], some (.ok ())⟩
  | some ending :: turns =>
    match budget.settle ending.verdict with
    | (.stop result, _) => ⟨[], some result⟩
    | (.retry after, budget) =>
      let rest := attempts budget turns
      { rest with waits := after :: rest.waits }

/-- A verdict, as the budget weighs it. -/
def Verdict.turn : Verdict → Turn String
  | .shutdownRequested => .stop
  | .consumerGone => .stop
  | .delivered _ => .churn
  | .serverFailed error => .charge error
  | .unanswered error => .charge error

def turnOf : Option Ending → Turn String
  | none => .stop
  | some ending => ending.verdict.turn

/-- A result, as a number of attempts and the last error. -/
def exhaustion (result : Except RetriesExhausted Unit) : Except (Nat × String) Unit :=
  result.mapError (fun e => (e.attempts, e.lastError))

/-- The budget a history of retried attempts leaves. -/
def budgetAfter (maxAttempts : Nat) (past : List (Turn String)) : RetryBudget :=
  ⟨Turn.streak past, min (2 ^ Turn.streak past) MAX_BACKOFF_SECS, maxAttempts⟩

/-- The same, with the attempt under way counted. -/
def countedAfter (maxAttempts : Nat) (past : List (Turn String)) : RetryBudget :=
  ⟨Turn.streak past + 1, min (2 ^ Turn.streak past) MAX_BACKOFF_SECS, maxAttempts⟩

theorem churn_budgetAfter (past : List (Turn String)) (attempt backoff maxAttempts : Nat) :
    RetryBudget.churn ⟨attempt, backoff, maxAttempts⟩ =
      (.retry (Turn.wait MAX_BACKOFF_SECS (past ++ [.churn])),
        budgetAfter maxAttempts (past ++ [.churn])) := by
  rw [Turn.wait_churn, budgetAfter, Turn.streak_churn]
  rfl

theorem charge_budgetAfter {past : List (Turn String)} {maxAttempts : Nat} {error : String}
    (h : Turn.streak past + 1 < max 1 maxAttempts) :
    (countedAfter maxAttempts past).charge error =
      (.retry (Turn.wait MAX_BACKOFF_SECS (past ++ [.charge error])),
        budgetAfter maxAttempts (past ++ [.charge error])) := by
  have hleft : ¬(countedAfter maxAttempts past).attempt ≥
      (countedAfter maxAttempts past).maxAttempts := by
    change ¬Turn.streak past + 1 ≥ maxAttempts
    omega
  rw [RetryBudget.charge, if_neg hleft, Turn.wait_charge, budgetAfter, Turn.streak_charge,
    countedAfter, Turn.min_double]

theorem charge_exhausted {past : List (Turn String)} {maxAttempts : Nat} {error : String}
    (h : Turn.streak past + 1 = max 1 maxAttempts) :
    ((countedAfter maxAttempts past).charge error).1 =
      .stop (.error ⟨max 1 maxAttempts, error⟩) := by
  have hspent : (countedAfter maxAttempts past).attempt ≥
      (countedAfter maxAttempts past).maxAttempts := by
    change Turn.streak past + 1 ≥ maxAttempts
    omega
  rw [RetryBudget.charge, if_pos hspent, countedAfter, h]

/-- An attempt either ends the loop, or leaves the budget its history tells. -/
theorem settle_turn {past : List (Turn String)} {maxAttempts : Nat} (verdict : Verdict)
    (hpast : Turn.Goes (max 1 maxAttempts) past) :
    (∃ result, ((budgetAfter maxAttempts past).settle verdict).1 = .stop result ∧
        ∀ rest, Turn.Ended (max 1 maxAttempts) past (verdict.turn :: rest)
          (some (exhaustion result))) ∨
      (budgetAfter maxAttempts past).settle verdict =
          (.retry (Turn.wait MAX_BACKOFF_SECS (past ++ [verdict.turn])),
            budgetAfter maxAttempts (past ++ [verdict.turn])) ∧
        Turn.Goes (max 1 maxAttempts) (past ++ [verdict.turn]) := by
  have hpositive : 0 < max 1 maxAttempts := Nat.lt_of_lt_of_le Nat.one_pos (Nat.le_max_left ..)
  have hlt := hpast.streak_lt hpositive
  have hcharge (error : String) :
      (∃ result, ((countedAfter maxAttempts past).charge error).1 = .stop result ∧
          ∀ rest, Turn.Ended (max 1 maxAttempts) past (.charge error :: rest)
            (some (exhaustion result))) ∨
        (countedAfter maxAttempts past).charge error =
          (.retry (Turn.wait MAX_BACKOFF_SECS (past ++ [.charge error])),
            budgetAfter maxAttempts (past ++ [.charge error])) ∧
          Turn.Goes (max 1 maxAttempts) (past ++ [.charge error]) := by
    by_cases hlast : Turn.streak past + 1 = max 1 maxAttempts
    · exact Or.inl ⟨_, charge_exhausted hlast, fun rest => .exhausted error rest hlast⟩
    · have hleft : Turn.streak past + 1 < max 1 maxAttempts := by omega
      refine Or.inr ⟨charge_budgetAfter hleft, hpast.concat (by exact nofun) ?_⟩
      rwa [Turn.streak_charge]
  cases verdict with
  | shutdownRequested => exact Or.inl ⟨.ok (), rfl, fun rest => .stopped rest⟩
  | consumerGone => exact Or.inl ⟨.ok (), rfl, fun rest => .stopped rest⟩
  | delivered error =>
    refine Or.inr ⟨churn_budgetAfter past .., hpast.concat (by exact nofun) ?_⟩
    rwa [Verdict.turn, Turn.streak_churn]
  | serverFailed error => exact hcharge error
  | unanswered error => exact hcharge error

theorem attempts_retried {past : List (Turn String)} {maxAttempts : Nat}
    (hpast : Turn.Goes (max 1 maxAttempts) past) (turns : List (Option Ending)) :
    Turn.Retried (max 1 maxAttempts) MAX_BACKOFF_SECS past (turns.map turnOf)
      (attempts (budgetAfter maxAttempts past) turns).waits
      ((attempts (budgetAfter maxAttempts past) turns).result.map exhaustion) := by
  induction turns generalizing past with
  | nil => exact Turn.Retried.ended hpast .running
  | cons turn turns ih =>
    cases turn with
    | none => exact Turn.Retried.ended hpast (.stopped _)
    | some ending =>
      rcases settle_turn ending.verdict hpast with ⟨result, hstop, hended⟩ | ⟨hretry, hgoes⟩
      · have hloop : attempts (budgetAfter maxAttempts past) (some ending :: turns) =
            ⟨[], some result⟩ := by
          rw [attempts]
          generalize (budgetAfter maxAttempts past).settle ending.verdict = settled at hstop
          obtain ⟨next, budget⟩ := settled
          change next = .stop result at hstop
          rw [hstop]
        rw [hloop]
        exact Turn.Retried.ended hpast (hended _)
      · have htail := (ih hgoes).cons
        simp only [attempts, hretry]
        exact htail

/-- The listener gives up exactly when the attempts that delivered nothing since the last one that
did reach its budget. It waits one second after a delivery and after the first failure of a streak,
twice the last wait after each later one, up to the cap. -/
theorem listener_retries (maxAttempts : UInt32) (turns : List (Option Ending)) :
    Turn.Retried (max 1 maxAttempts.toNat) MAX_BACKOFF_SECS [] (turns.map turnOf)
      (attempts (.new maxAttempts.toNat) turns).waits
      ((attempts (.new maxAttempts.toNat) turns).result.map exhaustion) :=
  @attempts_retried [] _ (Turn.Goes.nil _) turns

end YogSothoth.Grpc
