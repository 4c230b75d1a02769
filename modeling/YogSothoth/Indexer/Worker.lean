import YogSothoth.Framework.Runs
import YogSothoth.Indexer.Persistor

namespace YogSothoth.Indexer

open Persistence (Fault)

inductive Phase where
  | running
  | stopping
  | stopped
  deriving DecidableEq

/-- The indexer worker, the channel it receives from, and the tasks it detached. -/
structure Worker where
  store : Store
  closed : Bool
  cancelled : Bool
  phase : Phase
  queue : List IngestedTransaction
  /-- What `dispatch_one` holds while it waits for a permit. -/
  hand : Option IngestedTransaction
  tasks : List Task
  /-- The transactions `process_transaction` is done with. -/
  finished : List IngestedTransaction
  /-- The transactions counted as dropped, `shutdown` and `shutdown_queued`. -/
  dropped : List IngestedTransaction

inductive Action where
  | deliver (ingested : IngestedTransaction)
  | close
  | cancel
  | recv
  | dispatch
  | drop
  | drain
  | upstreamClosed
  | persist (task : Nat) (fault : Option Fault)
  | finish (task : Nat)
  | stop

namespace Worker

def start (store : Store) : Worker := ⟨store, false, false, .running, [], none, [], [], []⟩

/-- How many transactions may queue before a source waits, and how many tasks run at once. -/
structure Bounds where
  (capacity maxConcurrent : Nat)

variable (bounds : Bounds)

/-- One step of the source, of the loop, or of a detached task. The loop looks at the stop first:
it receives nothing once the token fired, and a wait for a permit then drops what it holds. -/
def step (s : Worker) : Action → Option Worker
  | .deliver ingested =>
    if !s.closed ∧ s.phase ≠ .stopped ∧ s.queue.length < bounds.capacity then
      some { s with queue := s.queue ++ [ingested] }
    else none
  | .close => some { s with closed := true }
  | .cancel => some { s with cancelled := true }
  | .recv =>
    match s.queue with
    | ingested :: queue =>
      if s.phase = .running ∧ !s.cancelled ∧ s.hand.isNone then
        some { s with queue, hand := some ingested }
      else none
    | [] => none
  | .dispatch =>
    match s.hand with
    | some ingested =>
      if !s.cancelled ∧ s.tasks.length < bounds.maxConcurrent then
        some { s with hand := none, tasks := s.tasks ++ [Task.start ingested] }
      else none
    | none => none
  | .drop =>
    match s.hand with
    | some ingested =>
      if s.cancelled then some { s with hand := none, dropped := s.dropped ++ [ingested] }
      else none
    | none => none
  | .drain =>
    if s.phase = .running ∧ s.cancelled ∧ s.hand.isNone then
      some { s with phase := .stopping, queue := [], dropped := s.dropped ++ s.queue }
    else none
  | .upstreamClosed =>
    if s.phase = .running ∧ !s.cancelled ∧ s.hand.isNone ∧ s.closed ∧ s.queue.isEmpty then
      some { s with phase := .stopping }
    else none
  | .persist i fault => do
    let task ← s.tasks[i]?
    let (store, task) ← task.step s.store fault
    return { s with store, tasks := s.tasks.set i task }
  | .finish i => do
    let task ← s.tasks[i]?
    if task.isDone then
      some { s with tasks := s.tasks.eraseIdx i, finished := s.finished ++ [task.ingested] }
    else none
  | .stop =>
    if s.phase = .stopping ∧ s.tasks.isEmpty then some { s with phase := .stopped } else none

def run (s : Worker) (actions : List Action) : Option Worker := runFrom (step bounds) s actions

end Worker

/-- The transactions the source sent, in order. -/
def delivered (actions : List Action) : List IngestedTransaction :=
  actions.filterMap (fun
    | .deliver ingested => some ingested
    | _ => none)

/-- What one step does to the store, the queue and the tasks. -/
inductive Worker.Stepped (bounds : Worker.Bounds) (s : Worker) : Action → Worker → Prop where
  | deliver {ingested : IngestedTransaction} (hphase : s.phase ≠ .stopped)
      (hroom : s.queue.length < bounds.capacity) :
      Stepped bounds s (.deliver ingested) { s with queue := s.queue ++ [ingested] }
  | close : Stepped bounds s .close { s with closed := true }
  | cancel : Stepped bounds s .cancel { s with cancelled := true }
  | recv {ingested : IngestedTransaction} {queue : List IngestedTransaction}
      (hqueue : s.queue = ingested :: queue) (hphase : s.phase = .running)
      (hcancelled : s.cancelled = false) (hhand : s.hand = none) :
      Stepped bounds s .recv { s with queue, hand := some ingested }
  | dispatch {ingested : IngestedTransaction} (hhand : s.hand = some ingested)
      (hcancelled : s.cancelled = false) (hroom : s.tasks.length < bounds.maxConcurrent) :
      Stepped bounds s .dispatch
        { s with hand := none, tasks := s.tasks ++ [Task.start ingested] }
  | drop {ingested : IngestedTransaction} (hhand : s.hand = some ingested)
      (hcancelled : s.cancelled = true) :
      Stepped bounds s .drop { s with hand := none, dropped := s.dropped ++ [ingested] }
  | drain (hphase : s.phase = .running) (hcancelled : s.cancelled = true) (hhand : s.hand = none) :
      Stepped bounds s .drain
        { s with phase := .stopping, queue := [], dropped := s.dropped ++ s.queue }
  | upstreamClosed (hphase : s.phase = .running) (hcancelled : s.cancelled = false)
      (hhand : s.hand = none) (hclosed : s.closed = true) (hqueue : s.queue = []) :
      Stepped bounds s .upstreamClosed { s with phase := .stopping }
  | persist {i : Nat} {fault : Option Fault} {task task' : Task} {store : Store}
      (htask : s.tasks[i]? = some task) (hstep : task.step s.store fault = some (store, task')) :
      Stepped bounds s (.persist i fault) { s with store, tasks := s.tasks.set i task' }
  | finish {i : Nat} {task : Task} (htask : s.tasks[i]? = some task) (hdone : task.isDone = true) :
      Stepped bounds s (.finish i)
        { s with tasks := s.tasks.eraseIdx i, finished := s.finished ++ [task.ingested] }
  | stop (hphase : s.phase = .stopping) (htasks : s.tasks = []) :
      Stepped bounds s .stop { s with phase := .stopped }

namespace Worker

variable {bounds : Bounds}

/-- A step is one of these, with its guard. -/
theorem step_stepped {s s' : Worker} {a : Action} (h : step bounds s a = some s') :
    Stepped bounds s a s' := by
  cases a with
  | deliver ingested =>
    simp only [step] at h
    split_ifs at h with hguard
    cases h
    exact .deliver hguard.2.1 hguard.2.2
  | close => cases h; exact .close
  | cancel => cases h; exact .cancel
  | recv =>
    cases hqueue : s.queue with
    | nil => simp only [step, hqueue] at h; cases h
    | cons ingested queue =>
      simp only [step, hqueue] at h
      split_ifs at h with hguard
      cases h
      exact .recv hqueue hguard.1 (by simpa using hguard.2.1) (Option.isNone_iff_eq_none.mp hguard.2.2)
  | dispatch =>
    cases hhand : s.hand with
    | none => simp only [step, hhand] at h; cases h
    | some ingested =>
      simp only [step, hhand] at h
      split_ifs at h with hguard
      cases h
      exact .dispatch hhand (by simpa using hguard.1) hguard.2
  | drop =>
    cases hhand : s.hand with
    | none => simp only [step, hhand] at h; cases h
    | some ingested =>
      simp only [step, hhand] at h
      split_ifs at h with hguard
      cases h
      exact .drop hhand hguard
  | drain =>
    simp only [step] at h
    split_ifs at h with hguard
    cases h
    exact .drain hguard.1 hguard.2.1 (Option.isNone_iff_eq_none.mp hguard.2.2)
  | upstreamClosed =>
    simp only [step] at h
    split_ifs at h with hguard
    cases h
    exact .upstreamClosed hguard.1 (by simpa using hguard.2.1)
      (Option.isNone_iff_eq_none.mp hguard.2.2.1) hguard.2.2.2.1
      (List.isEmpty_iff.mp hguard.2.2.2.2)
  | persist i fault =>
    obtain ⟨task, htask, h⟩ := Option.bind_eq_some_iff.mp h
    obtain ⟨⟨store, task'⟩, hstep, h⟩ := Option.bind_eq_some_iff.mp h
    cases h
    exact .persist htask hstep
  | finish i =>
    obtain ⟨task, htask, h⟩ := Option.bind_eq_some_iff.mp h
    split_ifs at h with hdone
    cases h
    exact .finish htask hdone
  | stop =>
    simp only [step] at h
    split_ifs at h with hguard
    cases h
    exact .stop hguard.1 (List.isEmpty_iff.mp hguard.2)

end Worker

theorem delivered_concat (actions : List Action) (a : Action) :
    delivered (actions ++ [a]) = delivered actions ++ delivered [a] :=
  List.filterMap_append ..

end YogSothoth.Indexer
