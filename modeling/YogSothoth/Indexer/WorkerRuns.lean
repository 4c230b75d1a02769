import Mathlib.Algebra.BigOperators.Group.List.Basic
import Mathlib.Tactic.Abel
import YogSothoth.Core.Text
import YogSothoth.Indexer.Worker

namespace YogSothoth.Indexer

namespace Task

/-- A statement of a task leaves it less to do, for the same transaction. -/
def cost (task : Task) : Nat :=
  4 * task.remaining.length + (match task.stage with
    | .next => 0
    | .flag _ => 3
    | .insert _ => 2
    | .project _ _ => 1) + 1

theorem step_ingested {task task' : Task} {store store' : Store}
    {fault : Option Persistence.Fault} (h : task.step store fault = some (store', task')) :
    task'.ingested = task.ingested := by
  obtain ⟨ingested, stage, remaining⟩ := task
  cases stage with
  | next =>
    cases remaining with
    | nil => cases h
    | cons event remaining => cases h; rfl
  | _ => cases h; rfl

theorem afterRegistry_cost (event : Extraction.MeteoraDammV2Event) (ingested : IngestedTransaction)
    (remaining : List Extraction.MeteoraDammV2Event) :
    (Task.mk ingested (afterRegistry event) remaining).cost ≤ 4 * remaining.length + 4 := by
  cases event <;> simp only [cost, afterRegistry] <;> omega

theorem step_cost {task task' : Task} {store store' : Store}
    {fault : Option Persistence.Fault} (h : task.step store fault = some (store', task')) :
    task'.cost < task.cost := by
  obtain ⟨ingested, stage, remaining⟩ := task
  cases stage with
  | next =>
    cases remaining with
    | nil => cases h
    | cons event remaining =>
      cases h
      have hafter := afterRegistry_cost event ingested remaining
      simp only [cost, List.length_cons] at hafter ⊢
      omega
  | flag event => cases h; simp only [cost]; omega
  | insert event =>
    cases h
    unfold cost afterInsert
    dsimp only
    cases (store.db.tables.insert event fault).1 with
    | error e => simp only; omega
    | ok outcome =>
      cases stateUpsert event with
      | none => simp only; omega
      | some u => simp only; omega
  | project event u => cases h; simp only [cost]; omega

/-- A task that is not done has a statement to run. -/
theorem exists_step {task : Task} (h : task.isDone = false) (store : Store) :
    ∃ out, task.step store none = some out := by
  obtain ⟨ingested, stage, remaining⟩ := task
  cases stage with
  | next =>
    cases remaining with
    | nil => cases h
    | cons event remaining => exact ⟨_, rfl⟩
  | _ => exact ⟨_, rfl⟩

end Task

namespace Worker

variable {bounds : Bounds}

/-- Where every transaction the source sent is. -/
def holdings (s : Worker) : Multiset IngestedTransaction :=
  ↑s.finished + ↑(s.tasks.map Task.ingested) + ↑s.hand.toList + ↑s.queue + ↑s.dropped

/-- A step moves a transaction from one place to another; only the source brings one. -/
theorem stepped_holdings {s s' : Worker} {a : Action} (h : Stepped bounds s a s') :
    s'.holdings = s.holdings + ↑(delivered [a]) := by
  unfold holdings
  cases h with
  | @deliver ingested =>
    rw [coe_concat, show delivered [.deliver ingested] = [ingested] from rfl,
      Multiset.coe_singleton]
    abel
  | recv hqueue _ _ hhand =>
    rw [hqueue, hhand, Option.toList_some, Option.toList_none, coe_cons, coe_cons, delivered,
      List.filterMap_cons_none rfl, List.filterMap_nil, Multiset.coe_nil]
    abel
  | dispatch hhand =>
    rw [hhand, List.map_append, List.map_singleton, coe_concat, Option.toList_some,
      Option.toList_none, coe_cons, delivered, List.filterMap_cons_none rfl, List.filterMap_nil,
      Multiset.coe_nil]
    rw [Task.start]
    abel
  | drop hhand =>
    rw [hhand, coe_concat, Option.toList_some, Option.toList_none, coe_cons, delivered,
      List.filterMap_cons_none rfl, List.filterMap_nil, Multiset.coe_nil]
    abel
  | drain =>
    rw [← Multiset.coe_add, delivered, List.filterMap_cons_none rfl, List.filterMap_nil,
      Multiset.coe_nil]
    abel
  | persist htask hstep =>
    rw [map_set_eq htask (Task.step_ingested hstep)]
    exact (add_zero _).symm
  | finish htask =>
    have hperm := Multiset.coe_eq_coe.mpr ((perm_cons_eraseIdx htask).map Task.ingested)
    rw [hperm, List.map_cons, coe_concat, coe_cons, delivered, List.filterMap_cons_none rfl,
      List.filterMap_nil, Multiset.coe_nil]
    abel
  | _ => exact (add_zero _).symm

/-- The worker holds no transaction once it stops receiving, and no task once it stopped. -/
structure Settled (bounds : Bounds) (s : Worker) : Prop where
  hand : s.phase ≠ .running → s.hand = none
  tasks : s.phase = .stopped → s.tasks = []
  bounded : s.tasks.length ≤ bounds.maxConcurrent
  queued : s.queue.length ≤ bounds.capacity

theorem Settled.start (store : Store) : Settled bounds (Worker.start store) :=
  ⟨fun _ => rfl, nofun, Nat.zero_le _, Nat.zero_le _⟩

theorem Settled.stepped {s s' : Worker} {a : Action} (hs : Settled bounds s)
    (h : Stepped bounds s a s') : Settled bounds s' := by
  obtain ⟨hhand, htasks, hbounded, hqueued⟩ := hs
  cases h with
  | deliver hphase hroom =>
    refine ⟨hhand, htasks, hbounded, ?_⟩
    rw [List.length_append]
    exact hroom
  | close => exact ⟨hhand, htasks, hbounded, hqueued⟩
  | cancel => exact ⟨hhand, htasks, hbounded, hqueued⟩
  | recv hqueue hphase _ _ =>
    refine ⟨fun hne => absurd hphase hne, htasks, hbounded, ?_⟩
    rw [hqueue, List.length_cons] at hqueued
    exact Nat.le_of_succ_le hqueued
  | dispatch hsome _ hroom =>
    have hrunning : s.phase = .running := by
      by_contra hne
      rw [hhand hne] at hsome
      cases hsome
    refine ⟨fun _ => rfl, ?_, ?_, hqueued⟩
    · intro hstopped
      rw [hrunning] at hstopped
      cases hstopped
    · rw [List.length_append]
      exact hroom
  | drop => exact ⟨fun _ => rfl, htasks, hbounded, hqueued⟩
  | drain _ _ hnone => exact ⟨fun _ => hnone, nofun, hbounded, Nat.zero_le _⟩
  | upstreamClosed _ _ hnone => exact ⟨fun _ => hnone, nofun, hbounded, hqueued⟩
  | persist htask =>
    refine ⟨hhand, ?_, by rwa [List.length_set], hqueued⟩
    intro hstopped
    rw [htasks hstopped] at htask
    cases htask
  | finish htask =>
    refine ⟨hhand, ?_, ?_, hqueued⟩
    · intro hstopped
      rw [htasks hstopped] at htask
      cases htask
    · exact (List.length_eraseIdx_le _ _).trans hbounded
  | stop hphase hnil =>
    refine ⟨fun _ => hhand ?_, fun _ => hnil, hbounded, hqueued⟩
    rw [hphase]
    exact nofun

/-- Once the loop is left, the queue only takes what is still sent to it. -/
theorem stepped_queue {s s' : Worker} {a : Action} (h : Stepped bounds s a s')
    (hphase : s.phase ≠ .running) : s'.phase ≠ .running ∧ s'.queue = s.queue ++ delivered [a] := by
  cases h with
  | deliver => exact ⟨hphase, rfl⟩
  | recv _ hrunning => exact absurd hrunning hphase
  | drain hrunning => exact absurd hrunning hphase
  | upstreamClosed hrunning => exact absurd hrunning hphase
  | stop => exact ⟨nofun, (List.append_nil _).symm⟩
  | _ => exact ⟨hphase, (List.append_nil _).symm⟩

theorem run_queue {s s' : Worker} {actions : List Action} (hphase : s.phase ≠ .running)
    (h : run bounds s actions = some s') :
    s'.phase ≠ .running ∧ s'.queue = s.queue ++ delivered actions := by
  refine runFrom_trace (P := fun done t => t.phase ≠ .running ∧ t.queue = s.queue ++ delivered done)
    ⟨hphase, (List.append_nil _).symm⟩ ?_ h
  intro before t a t' ⟨hphase, hqueue⟩ hstep
  obtain ⟨hphase', hqueue'⟩ := stepped_queue (step_stepped hstep) hphase
  refine ⟨hphase', ?_⟩
  rw [hqueue', hqueue, delivered_concat, List.append_assoc]

/-- What is left to do: every step of the worker or of a task takes it down. -/
def cost (s : Worker) : Nat :=
  (s.queue.map (fun t => 4 * t.events.length + 3)).sum +
    (s.hand.toList.map (fun t => 4 * t.events.length + 2)).sum +
    (s.tasks.map Task.cost).sum + (match s.phase with
      | .running => 2
      | .stopping => 1
      | .stopped => 0)

/-- The steps of the worker and of its tasks, as against those of the source and of the stop. -/
def Action.isOwn : Action → Bool
  | .deliver _ => false
  | .close => false
  | .cancel => false
  | _ => true

theorem stepped_cost {s s' : Worker} {a : Action} (h : Stepped bounds s a s')
    (hown : Action.isOwn a = true) : s'.cost < s.cost := by
  cases h with
  | deliver => cases hown
  | close => cases hown
  | cancel => cases hown
  | recv hqueue _ _ hhand =>
    simp only [cost, hqueue, hhand, Option.toList_some, Option.toList_none, List.map_cons,
      List.map_nil, List.sum_cons, List.sum_nil]
    omega
  | dispatch hhand =>
    simp only [cost, hhand, Option.toList_some, Option.toList_none, List.map_cons, List.map_nil,
      List.sum_cons, List.sum_nil, List.map_append, List.sum_append, Task.start, Task.cost]
    omega
  | drop hhand =>
    simp only [cost, hhand, Option.toList_some, Option.toList_none, List.map_cons, List.map_nil,
      List.sum_cons, List.sum_nil]
    omega
  | drain hphase =>
    simp only [cost, hphase, List.map_nil, List.sum_nil]
    omega
  | upstreamClosed hphase =>
    simp only [cost, hphase]
    omega
  | @persist i fault task task' store htask hstep =>
    have hlt := Task.step_cost hstep
    have hbefore := ((perm_cons_eraseIdx htask).map Task.cost).sum_eq
    have hafter := ((set_perm htask task').map Task.cost).sum_eq
    rw [List.map_cons, List.sum_cons] at hbefore hafter
    simp only [cost, hbefore, hafter]
    omega
  | finish htask =>
    have hbefore := ((perm_cons_eraseIdx htask).map Task.cost).sum_eq
    rw [List.map_cons, List.sum_cons] at hbefore
    simp only [cost, hbefore, Task.cost]
    omega
  | stop hphase =>
    simp only [cost, hphase]
    omega

theorem exists_task_step {s : Worker} (h : s.tasks ≠ []) :
    ∃ a, Action.isOwn a = true ∧ (step bounds s a).isSome = true := by
  cases htasks : s.tasks with
  | nil => exact absurd htasks h
  | cons task tasks =>
    have hfirst : s.tasks[0]? = some task := by rw [htasks]; rfl
    cases hdone : task.isDone with
    | true =>
      refine ⟨.finish 0, rfl, ?_⟩
      simp only [step, hfirst, bind, Option.bind, hdone, if_true, Option.isSome_some]
    | false =>
      obtain ⟨out, hout⟩ := Task.exists_step hdone s.store
      refine ⟨.persist 0 none, rfl, ?_⟩
      simp only [step, hfirst, bind, Option.bind, hout, pure, Option.isSome_some]

/-- A worker told to stop, or left by its source, always has a step to make before it stopped. -/
theorem exists_step {s : Worker} (hbounds : 0 < bounds.maxConcurrent) (hphase : s.phase ≠ .stopped)
    (hstop : s.cancelled = true ∨ s.closed = true) :
    ∃ a, Action.isOwn a = true ∧ (step bounds s a).isSome = true := by
  by_cases hidle : s.tasks = []
  swap
  · exact exists_task_step hidle
  cases hhand : s.hand with
  | some ingested =>
    cases hcancelled : s.cancelled with
    | true => exact ⟨.drop, rfl, by simp [step, hhand, hcancelled]⟩
    | false => exact ⟨.dispatch, rfl, by simp [step, hhand, hcancelled, hidle, hbounds]⟩
  | none =>
    cases hphase' : s.phase with
    | stopped => exact absurd hphase' hphase
    | stopping => exact ⟨.stop, rfl, by simp [step, hphase', hidle]⟩
    | running =>
      cases hcancelled : s.cancelled with
      | true => exact ⟨.drain, rfl, by simp [step, hphase', hcancelled, hhand]⟩
      | false =>
        have hclosed : s.closed = true := by
          cases hstop with
          | inl h => rw [hcancelled] at h; cases h
          | inr h => exact h
        cases hqueue : s.queue with
        | nil =>
          exact ⟨.upstreamClosed, rfl,
            by simp [step, hphase', hcancelled, hhand, hclosed, hqueue]⟩
        | cons ingested queue =>
          exact ⟨.recv, rfl, by simp [step, hqueue, hphase', hcancelled, hhand]⟩

/-- What became since the stop of what the worker held then and was sent after: nothing is
received or handed to a task, and what goes is dropped, in order. -/
structure Abandons (atStop : Worker) (after : List Action) (s : Worker) : Prop where
  cancelled : s.cancelled = true
  picked : Action.recv ∉ after ∧ Action.dispatch ∉ after
  indexed : (↑s.finished + ↑(s.tasks.map Task.ingested) : Multiset IngestedTransaction) =
    ↑atStop.finished + ↑(atStop.tasks.map Task.ingested)
  dropped : ∃ gone, s.dropped = atStop.dropped ++ gone ∧
    atStop.hand.toList ++ atStop.queue ++ delivered after = gone ++ s.hand.toList ++ s.queue

theorem Abandons.stepped {atStop s s' : Worker} {after : List Action} {a : Action}
    (hs : Abandons atStop after s) (h : Stepped bounds s a s') :
    Abandons atStop (after ++ [a]) s' := by
  obtain ⟨hcancelled, ⟨hrecv, hdispatch⟩, hindexed, gone, hdropped, hheld⟩ := hs
  have hpicked (hr : Action.recv ≠ a) (hd : Action.dispatch ≠ a) :
      Action.recv ∉ after ++ [a] ∧ Action.dispatch ∉ after ++ [a] := by
    simp [hrecv, hdispatch, hr, hd]
  -- a step that neither drops nor sends leaves what is held and what is gone
  have hkept : delivered [a] = [] → atStop.hand.toList ++ atStop.queue ++ delivered (after ++ [a]) =
      gone ++ s.hand.toList ++ s.queue := by
    intro hnone
    rw [delivered_concat, hnone, List.append_nil, hheld]
  cases h with
  | deliver =>
    refine ⟨hcancelled, hpicked nofun nofun, hindexed, gone, hdropped, ?_⟩
    rw [delivered_concat, ← List.append_assoc, hheld, List.append_assoc]
    rfl
  | close => exact ⟨hcancelled, hpicked nofun nofun, hindexed, gone, hdropped, hkept rfl⟩
  | cancel => exact ⟨rfl, hpicked nofun nofun, hindexed, gone, hdropped, hkept rfl⟩
  | recv _ _ hrunning => exact absurd (hcancelled.symm.trans hrunning) nofun
  | dispatch _ hrunning => exact absurd (hcancelled.symm.trans hrunning) nofun
  | @drop ingested hhand =>
    refine ⟨hcancelled, hpicked nofun nofun, hindexed, gone ++ [ingested], ?_, ?_⟩
    · rw [hdropped, List.append_assoc]
    · rw [hkept rfl, hhand]
      simp
  | drain _ _ hhand =>
    refine ⟨hcancelled, hpicked nofun nofun, hindexed, gone ++ s.queue, ?_, ?_⟩
    · rw [hdropped, List.append_assoc]
    · rw [hkept rfl, hhand]
      simp
  | upstreamClosed _ hrunning => exact absurd (hcancelled.symm.trans hrunning) nofun
  | persist htask hstep =>
    refine ⟨hcancelled, hpicked nofun nofun, ?_, gone, hdropped, hkept rfl⟩
    rw [map_set_eq htask (Task.step_ingested hstep)]
    exact hindexed
  | finish htask =>
    refine ⟨hcancelled, hpicked nofun nofun, ?_, gone, hdropped, hkept rfl⟩
    have hperm := Multiset.coe_eq_coe.mpr ((perm_cons_eraseIdx htask).map Task.ingested)
    rw [← hindexed, hperm, List.map_cons, coe_concat, coe_cons]
    abel
  | stop => exact ⟨hcancelled, hpicked nofun nofun, hindexed, gone, hdropped, hkept rfl⟩

/-- What a run of the worker owes: nothing delivered is lost from sight or handled twice, the
tasks never outnumber the permits, a stopped worker has none left, nothing is picked up after the
stop, and a stop comes to its end. -/
structure Sound (bounds : Bounds) (store : Store) (actions : List Action) (s : Worker) : Prop where
  conserved : (delivered actions : Multiset IngestedTransaction) =
    ↑s.finished + ↑(s.tasks.map Task.ingested) + ↑s.hand.toList + ↑s.queue + ↑s.dropped
  concurrency : s.tasks.length ≤ bounds.maxConcurrent
  stopped : s.phase = .stopped → s.tasks = [] ∧ s.hand = none
  abandons : ∀ before after atStop, actions = before ++ .cancel :: after →
    run bounds (start store) before = some atStop → Abandons atStop after s
  uncounted : ∀ before after, actions = before ++ .drain :: after → s.queue = delivered after
  terminates : ∀ more s', (∀ a ∈ more, Action.isOwn a = true) → run bounds s more = some s' →
    more.length ≤ s.cost
  progress : 0 < bounds.maxConcurrent → s.phase ≠ .stopped →
    (s.cancelled = true ∨ s.closed = true) →
    ∃ a, Action.isOwn a = true ∧ (step bounds s a).isSome = true

theorem run_settled {store : Store} {actions : List Action} {s : Worker}
    (h : run bounds (start store) actions = some s) : Settled bounds s :=
  runFrom_inv (fun _ _ _ ht hstep => ht.stepped (step_stepped hstep)) (Settled.start store) h

theorem run_holdings {store : Store} {actions : List Action} {s : Worker}
    (h : run bounds (start store) actions = some s) :
    (delivered actions : Multiset IngestedTransaction) = s.holdings := by
  refine runFrom_trace
    (P := fun done t => (delivered done : Multiset IngestedTransaction) = t.holdings) rfl ?_ h
  intro before t a t' ht hstep
  rw [stepped_holdings (step_stepped hstep), ← ht, delivered_concat, Multiset.coe_add]

theorem drained_queue {store : Store} {before after : List Action} {s : Worker}
    (h : run bounds (start store) (before ++ .drain :: after) = some s) :
    s.queue = delivered after := by
  obtain ⟨t, -, hafter⟩ := runFrom_append.mp h
  obtain ⟨u, hdrain, hafter⟩ := runFrom_cons.mp hafter
  have hstepped := step_stepped hdrain
  cases hstepped with
  | drain =>
    have hstopping : Phase.stopping ≠ .running := nofun
    exact (run_queue hstopping hafter).2

theorem run_abandons {store : Store} {before after : List Action} {atStop s : Worker}
    (hbefore : run bounds (start store) before = some atStop)
    (h : run bounds (start store) (before ++ .cancel :: after) = some s) :
    Abandons atStop after s := by
  obtain ⟨t, ht, hafter⟩ := runFrom_append.mp h
  obtain rfl : atStop = t := Option.some.inj (hbefore.symm.trans ht)
  obtain ⟨u, hcancel, hafter⟩ := runFrom_cons.mp hafter
  obtain rfl : { atStop with cancelled := true } = u := Option.some.inj hcancel
  refine runFrom_trace (P := Abandons atStop) ?_ ?_ hafter
  · exact ⟨rfl, ⟨List.not_mem_nil, List.not_mem_nil⟩, rfl, [], by simp, by simp [delivered]⟩
  · intro done t a t' ht hstep
    exact ht.stepped (step_stepped hstep)

/-- Every run of the worker, whatever the order of its steps, those of its tasks and those of its
source, and whatever fails. -/
theorem run_sound {store : Store} {actions : List Action} {s : Worker}
    (h : run bounds (start store) actions = some s) : Sound bounds store actions s where
  conserved := run_holdings h
  concurrency := (run_settled h).bounded
  stopped hphase := ⟨(run_settled h).tasks hphase, (run_settled h).hand (by rw [hphase]; nofun)⟩
  abandons before after atStop hactions hbefore := run_abandons hbefore (hactions ▸ h)
  uncounted before after hactions := drained_queue (hactions ▸ h)
  terminates more s' hown hmore := by
    have hlt : ∀ t a t', Action.isOwn a = true → step bounds t a = some t' → t'.cost < t.cost :=
      fun t a t' ha hstep => stepped_cost (step_stepped hstep) ha
    have hbound := runFrom_bounded hlt hown hmore
    omega
  progress := exists_step

/-- A transaction of the protocol that has no extractor. -/
def unextracted : IngestedTransaction :=
  ⟨.meteoraDlmm, ⟨⟨zeroSignature, 0, 0, none⟩, []⟩⟩

/-- One transaction indexed, one held and one queued at the stop, and one sent after it. -/
def stopping : List Action :=
  [.deliver unextracted, .deliver unextracted, .recv, .dispatch, .recv, .cancel, .drop,
    .deliver unextracted, .drain, .deliver unextracted, .finish 0, .stop]

theorem run_sound_stopping : ∃ s, run ⟨2, 1⟩ (start .empty) stopping = some s ∧
    Sound ⟨2, 1⟩ .empty stopping s :=
  ⟨_, rfl, run_sound rfl⟩

end Worker

end YogSothoth.Indexer
