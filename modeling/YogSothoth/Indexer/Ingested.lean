import YogSothoth.Indexer.Recorded

namespace YogSothoth.Indexer

open Extraction (MeteoraDammV2Event)
open Extraction.MeteoraDammV2Event (kind uniqueKey)
open Persistence (EventTables Fault InsertOutcome)
open Persistence.EventTables (Fits Inserted)

theorem Database.under_frame {α : Type} {f : Database → α} {db : Database}
    {statement : Database → Except RepositoryError Unit × Database}
    (h : f (statement db).2 = f db) (fault : Option Fault) :
    f (db.under statement fault).2 = f db := by
  cases fault with
  | none => exact h
  | some fault =>
    obtain ⟨error, committed⟩ := fault
    cases committed with
    | true => exact h
    | false => rfl

namespace Store

variable (store : Store) (event : MeteoraDammV2Event) (fault : Option Fault)

theorem call_db (name : Call) (statement : Database → Except RepositoryError Unit × Database) :
    (store.call name event statement fault).db = (store.db.under statement fault).2 := rfl

/-- The statements around an insert leave the event tables. -/
theorem discoverPool_tables :
    (store.discoverPool event fault).db.tables = store.db.tables := by
  rw [discoverPool, call_db, Database.under_frame (f := Database.tables)]
  unfold Database.upsertPool
  cases store.db.pools event.poolAddress <;> rfl

theorem touchPool_tables : (store.touchPool event fault).db.tables = store.db.tables := by
  rw [touchPool, call_db, Database.under_frame (f := Database.tables) rfl]

theorem markNeedsRefresh_tables :
    (store.markNeedsRefresh event fault).db.tables = store.db.tables := by
  rw [markNeedsRefresh, call_db, Database.under_frame (f := Database.tables)]
  rfl

theorem updatePoolCurrentState_tables (u : Projection.PoolCurrentStateUpsert) :
    (store.updatePoolCurrentState event u fault).db.tables = store.db.tables := by
  rw [updatePoolCurrentState, call_db, Database.under_frame (f := Database.tables)]
  unfold Database.projectState
  split_ifs <;> rfl

end Store

namespace Task

/-- The events a task has still to insert. -/
def todo (task : Task) : List MeteoraDammV2Event :=
  match task.stage with
  | .flag event => event :: task.remaining
  | .insert event => event :: task.remaining
  | _ => task.remaining

theorem afterRegistry_todo (event : MeteoraDammV2Event) (ingested : IngestedTransaction)
    (remaining : List MeteoraDammV2Event) :
    (Task.mk ingested (afterRegistry event) remaining).todo = event :: remaining := by
  cases event <;> rfl

theorem afterInsert_todo (store : Store) (event : MeteoraDammV2Event) (fault : Option Fault)
    (ingested : IngestedTransaction) (remaining : List MeteoraDammV2Event) :
    (Task.mk ingested (afterInsert store event fault) remaining).todo = remaining := by
  unfold afterInsert
  cases (store.db.tables.insert event fault).1 with
  | error e => rfl
  | ok outcome => cases stateUpsert event <;> rfl

theorem todo_of_isDone {task : Task} (h : task.isDone = true) : task.todo = [] := by
  obtain ⟨ingested, stage, remaining⟩ := task
  cases stage with
  | next =>
    cases remaining with
    | nil => rfl
    | cons event remaining => cases h
  | _ => cases h

/-- A statement leaves the tables, or inserts the next event a task has to. -/
theorem step_tables {task task' : Task} {store store' : Store} {fault : Option Fault}
    (h : task.step store fault = some (store', task')) :
    (store'.db.tables = store.db.tables ∧ store'.persisted = store.persisted ∧
        task'.todo = task.todo) ∨
      ∃ event result, task.todo = event :: task'.todo ∧
        store'.persisted = store.persisted ++ [(event, result)] ∧
        Inserted store.db.tables event result store'.db.tables := by
  obtain ⟨ingested, stage, remaining⟩ := task
  cases stage with
  | next =>
    cases remaining with
    | nil => cases h
    | cons event remaining =>
      left
      simp only [step] at h
      split_ifs at h with hregisters
      · cases h
        exact ⟨store.discoverPool_tables event fault, rfl, afterRegistry_todo ..⟩
      · cases h
        exact ⟨store.touchPool_tables event fault, rfl, afterRegistry_todo ..⟩
  | flag event =>
    cases h
    exact Or.inl ⟨store.markNeedsRefresh_tables event fault, rfl, rfl⟩
  | insert event =>
    cases h
    refine Or.inr ⟨event, (store.db.tables.insert event fault).1, ?_, rfl,
      EventTables.insert_inserted ..⟩
    rw [afterInsert_todo]
    rfl
  | project event u =>
    cases h
    exact Or.inl ⟨store.updatePoolCurrentState_tables event fault u, rfl, rfl⟩

end Task

/-- A statement whose answer is not lost after a commit keeps the counts exact. -/
theorem Task.step_exact {task task' : Task} {store store' : Store} {fault : Option Fault}
    (hexact : Reports.Exact store.persisted store.db.tables)
    (hfault : ∀ f, fault = some f → f.committed = false)
    (h : task.step store fault = some (store', task')) :
    Reports.Exact store'.persisted store'.db.tables := by
  obtain ⟨ingested, stage, remaining⟩ := task
  cases stage with
  | next =>
    cases remaining with
    | nil => cases h
    | cons event remaining =>
      simp only [step] at h
      split_ifs at h with hregisters
      · cases h
        rw [store.discoverPool_tables event fault]
        exact hexact
      · cases h
        rw [store.touchPool_tables event fault]
        exact hexact
  | flag event =>
    cases h
    rw [store.markNeedsRefresh_tables event fault]
    exact hexact
  | insert event =>
    cases h
    exact hexact.insert (EventTables.insert_inserted ..)
      (fun error herror => EventTables.insert_uncommitted hfault herror)
  | project event u =>
    cases h
    rw [store.updatePoolCurrentState_tables event fault u]
    exact hexact

/-- No statement of the run was committed and its answer lost. -/
def AnswersKept (actions : List Action) : Prop :=
  ∀ i fault, Action.persist i (some fault) ∈ actions → fault.committed = false

namespace Worker

variable {bounds : Bounds}

/-- The transactions at work, with the events they have still to insert. -/
def work (s : Worker) : List (IngestedTransaction × List MeteoraDammV2Event) :=
  s.tasks.map (fun task => (task.ingested, task.todo))

theorem started_of_holdings {s : Worker} {sent : List IngestedTransaction}
    (h : (sent : Multiset IngestedTransaction) = s.holdings) :
    (s.finished ++ s.work.map Prod.fst ++ s.hand.toList).Subperm sent := by
  rw [← Multiset.coe_le, h, holdings, work, List.map_map, ← Multiset.coe_add, ← Multiset.coe_add]
  have hsame : s.tasks.map (Prod.fst ∘ fun task => (task.ingested, task.todo)) =
      s.tasks.map Task.ingested := rfl
  rw [hsame]
  exact (Multiset.le_add_right _ _).trans (Multiset.le_add_right _ _)

/-- A step of a task is an insertion of the ledger, or nothing to it. -/
theorem persist_recorded {s : Worker} {sent : List IngestedTransaction} {i : Nat}
    {fault : Option Fault} {task task' : Task} {store : Store}
    (h : Recorded sent s.finished s.work s.store.persisted s.store.db.tables)
    (htask : s.tasks[i]? = some task) (hstep : task.step s.store fault = some (store, task')) :
    Recorded sent s.finished ((s.tasks.set i task').map (fun t => (t.ingested, t.todo)))
      store.persisted store.db.tables := by
  have hingested := Task.step_ingested hstep
  have hbefore := (perm_cons_eraseIdx htask).map (fun t : Task => (t.ingested, t.todo))
  have hafter := (set_perm htask task').map (fun t : Task => (t.ingested, t.todo))
  rw [List.map_cons] at hbefore hafter
  refine Recorded.perm ?_ hafter.symm
  have h := h.perm hbefore
  cases Task.step_tables hstep with
  | inl hkept =>
    obtain ⟨htables, hpersisted, htodo⟩ := hkept
    rw [htables, hpersisted, htodo, hingested]
    exact h
  | inr hinsert =>
    obtain ⟨event, result, htodo, hpersisted, hinserted⟩ := hinsert
    rw [htodo] at h
    rw [hpersisted, hingested]
    exact h.insert hinserted

theorem stepped_recorded {s s' : Worker} {a : Action} {sent : List IngestedTransaction}
    (hsent : (sent : Multiset IngestedTransaction) = s.holdings)
    (h : Recorded sent s.finished s.work s.store.persisted s.store.db.tables)
    (hstep : Stepped bounds s a s') :
    Recorded (sent ++ delivered [a]) s'.finished s'.work s'.store.persisted s'.store.db.tables := by
  cases hstep with
  | deliver => exact h.deliver _
  | @dispatch ingested hhand =>
    rw [show delivered [.dispatch] = [] from rfl, List.append_nil]
    have hstarted := started_of_holdings hsent
    rw [hhand, List.append_assoc] at hstarted
    have hperm : (s.finished ++ (ingested :: s.work.map Prod.fst)).Perm
        (s.finished ++ (s.work.map Prod.fst ++ [ingested])) :=
      (List.perm_append_singleton _ _).symm.append_left _
    have hstart := h.start ingested (hperm.subperm.trans hstarted)
    refine hstart.perm ?_
    have hwork : (s.tasks ++ [Task.start ingested]).map (fun t => (t.ingested, t.todo)) =
        s.work ++ [(ingested, ingested.events)] := List.map_append
    refine List.Perm.trans (List.perm_append_singleton _ _).symm ?_
    exact List.Perm.of_eq hwork.symm
  | persist htask hrun =>
    rw [delivered, List.filterMap_cons_none rfl, List.filterMap_nil, List.append_nil]
    exact persist_recorded h htask hrun
  | @finish i task htask hdone =>
    rw [delivered, List.filterMap_cons_none rfl, List.filterMap_nil, List.append_nil]
    have hperm := (perm_cons_eraseIdx htask).map (fun t : Task => (t.ingested, t.todo))
    rw [List.map_cons, Task.todo_of_isDone hdone] at hperm
    exact (h.perm hperm).finish
  | _ =>
    rw [delivered, List.filterMap_cons_none rfl, List.filterMap_nil, List.append_nil]
    exact h

/-- Every run keeps the ledger of what the database owes. -/
theorem run_recorded {actions : List Action} {s : Worker}
    (h : run bounds (start .empty) actions = some s) :
    Recorded (delivered actions) s.finished s.work s.store.persisted s.store.db.tables := by
  have hstart : Recorded (delivered []) (start .empty).finished (start .empty).work
      (start .empty).store.persisted (start .empty).store.db.tables := Recorded.nothing
  refine (runFrom_trace (P := fun done t =>
    (delivered done : Multiset IngestedTransaction) = t.holdings ∧
      Recorded (delivered done) t.finished t.work t.store.persisted t.store.db.tables)
    ⟨rfl, hstart⟩ ?_ h).2
  intro before t a t' ⟨hsent, hrecorded⟩ hstep
  have hstepped := step_stepped hstep
  rw [delivered_concat]
  refine ⟨?_, stepped_recorded hsent hrecorded hstepped⟩
  rw [stepped_holdings hstepped, ← hsent, Multiset.coe_add]

theorem run_exact {actions : List Action} {s : Worker}
    (h : run bounds (start .empty) actions = some s) (hkept : AnswersKept actions) :
    Reports.Exact s.store.persisted s.store.db.tables := by
  have hstart : Reports.Exact (start .empty).store.persisted (start .empty).store.db.tables :=
    fun _ => rfl
  refine runFrom_trace (P := fun done t =>
    AnswersKept done → Reports.Exact t.store.persisted t.store.db.tables)
    (fun _ => hstart) ?_ h hkept
  intro before t a t' ht hstep hkept
  have hexact := ht (fun i fault hmem => hkept i fault (List.mem_append_left _ hmem))
  have hstepped := step_stepped hstep
  cases hstepped with
  | @persist i fault task task' store htask hrun =>
    refine Task.step_exact hexact ?_ hrun
    rintro f rfl
    exact hkept i f (List.mem_append_right _ (List.mem_singleton.mpr rfl))
  | _ => exact hexact

theorem started_sent {actions : List Action} {s : Worker}
    (h : run bounds (start .empty) actions = some s) {t : IngestedTransaction}
    (ht : t ∈ s.finished ++ s.work.map Prod.fst) : t ∈ delivered actions :=
  (run_recorded h).started.subset ht

/-- Of consistent deliveries, an event under a stored key is the stored row. -/
theorem mem_rows_of_key {actions : List Action} {s : Worker}
    (hsent : Consistent (delivered actions)) (h : run bounds (start .empty) actions = some s)
    {t : IngestedTransaction} (ht : t ∈ delivered actions) {e : MeteoraDammV2Event}
    (he : e ∈ t.events) (hkey : uniqueKey e ∈ s.store.db.tables.rows.map uniqueKey) :
    e ∈ s.store.db.tables.rows := by
  obtain ⟨row, hrow, hsame⟩ := List.mem_map.mp hkey
  obtain ⟨t', ht', hevent⟩ := (run_recorded h).rows row hrow
  rw [← hsent.eq_of_key (started_sent h ht') ht hevent he hsame]
  exact hrow

/-- The event tables after a run: nothing but what was delivered, once, whatever is redelivered,
and all of what was processed, but for the inserts reported as failed. What was counted is what was
stored or skipped, up to the failures, and exactly where no commit's answer was lost. -/
structure Ingested (actions : List Action) (s : Worker) : Prop where
  delivered : ∀ row ∈ s.store.db.tables.rows, ∃ t ∈ delivered actions, row ∈ t.events
  once : s.store.db.tables.rows.Nodup
  stored : ∀ t ∈ s.finished, ∀ e ∈ t.events,
    e ∈ s.store.db.tables.rows ∨ ∃ error, (e, .error error) ∈ s.store.persisted
  acknowledged : ∀ e outcome, (e, .ok outcome) ∈ s.store.persisted →
    Fits e ∧ e ∈ s.store.db.tables.rows
  skipped : ∀ e, (e, .ok .skipped) ∈ s.store.persisted →
    2 ≤ occurrences (Indexer.delivered actions) e.eventPosition.signature
  counted : ∀ label,
    Reports.indexed s.store.persisted label ≤
      s.store.db.tables.rows.countP (fun row => kind row = label) +
        Reports.insertSkipped s.store.persisted label ∧
    s.store.db.tables.rows.countP (fun row => kind row = label) +
        Reports.insertSkipped s.store.persisted label ≤
      Reports.indexed s.store.persisted label + Reports.persistFailures s.store.persisted label
  balanced : AnswersKept actions → Reports.Exact s.store.persisted s.store.db.tables

theorem acknowledged_row {actions : List Action} {s : Worker}
    (hsent : Consistent (delivered actions)) (h : run bounds (start .empty) actions = some s)
    {e : MeteoraDammV2Event} {outcome : InsertOutcome}
    (hreport : (e, .ok outcome) ∈ s.store.persisted) :
    Fits e ∧ e ∈ s.store.db.tables.rows := by
  obtain ⟨t, ht, hevent⟩ := (run_recorded h).sources _ hreport
  obtain ⟨hfits, hkey⟩ := (run_recorded h).accepted e outcome hreport
  exact ⟨hfits, mem_rows_of_key hsent h (started_sent h ht) hevent hkey⟩

/-- Every event of every delivered transaction is indexed at most once, under every interleaving
of the concurrent tasks, redeliveries, failures and stops; none is lost without a report. -/
theorem run_ingested {actions : List Action} {s : Worker} (hsent : Consistent (delivered actions))
    (h : run bounds (start .empty) actions = some s) : Ingested actions s where
  delivered row hrow := by
    obtain ⟨t, ht, hevent⟩ := (run_recorded h).rows row hrow
    exact ⟨t, started_sent h ht, hevent⟩
  once := s.store.db.tables.unique.of_map
  stored t ht e he := by
    obtain ⟨result, hreport⟩ := (run_recorded h).finished t ht e he
    cases result with
    | error error => exact Or.inr ⟨error, hreport⟩
    | ok outcome => exact Or.inl (acknowledged_row hsent h hreport).2
  acknowledged e outcome hreport := acknowledged_row hsent h hreport
  skipped := (run_recorded h).skipped
  counted label := ⟨(run_recorded h).counted label, (run_recorded h).failed label⟩
  balanced := run_exact h

/-- A transaction with one swap. -/
def oneSwap : IngestedTransaction where
  protocol := .meteoraDammV2
  transaction :=
    { position := ⟨zeroSignature, 0, 0, none⟩
      innerInstructions := [⟨Extraction.METEORA_DAMM_V2_PROGRAM_ID,
        Extraction.EVENT_IX_TAG ++ Extraction.known.swap2 ++ List.replicate 180 0⟩] }

/-- It is delivered twice, and the two tasks take turns. -/
def redelivered : List Action :=
  [.deliver oneSwap, .deliver oneSwap, .recv, .dispatch, .recv, .dispatch, .persist 0 none,
    .persist 1 none, .persist 1 none, .persist 0 none, .persist 0 none, .persist 1 none,
    .finish 0, .finish 0]

theorem redelivered_stored : (run ⟨2, 2⟩ (start .empty) redelivered).map
    (fun s => (s.finished.length, s.store.db.tables.rows.length)) = some (2, 1) := by
  decide +kernel

theorem redelivered_consistent : Consistent (delivered redelivered) := by
  have hsent : delivered redelivered = [oneSwap, oneSwap] := rfl
  intro t ht t' ht' _
  rw [hsent, List.mem_pair, or_self] at ht ht'
  rw [ht, ht']

theorem run_ingested_redelivered : ∃ s, run ⟨2, 2⟩ (start .empty) redelivered = some s ∧
    s.store.db.tables.rows.length = 1 ∧ Ingested redelivered s := by
  obtain ⟨s, hrun, hstored⟩ := Option.map_eq_some_iff.mp redelivered_stored
  exact ⟨s, hrun, congrArg Prod.snd hstored, run_ingested redelivered_consistent hrun⟩

end Worker

end YogSothoth.Indexer
