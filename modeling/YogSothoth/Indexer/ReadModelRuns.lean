import YogSothoth.Indexer.ReadModel

namespace YogSothoth.Indexer

open Extraction (MeteoraDammV2Event)
open Persistence (EventTables Fault InsertOutcome)
open Persistence.EventTables (Fits Inserted)
open Projection (Left OfEvent OfSwap PoolCurrentStateRow PoolCurrentStateUpsert Storable)

/-- The event a task is in the recipe of, once its pool has been seen to. -/
def Stage.event : Stage → Option MeteoraDammV2Event
  | .next => none
  | .flag event => some event
  | .insert event => some event
  | .project event _ => some event

theorem afterRegistry_event (event : MeteoraDammV2Event) :
    (Task.afterRegistry event).event = some event := by
  cases event <;> rfl

theorem convertU64ToI64_fits {v : UInt64} (h : v.toNat < 2^63) (field : String) :
    convertU64ToI64 v field = .ok (v.toNat : Int) := by
  rw [convertU64ToI64, if_pos h]

/-- An insert that nothing fails refuses only an event with a value too large. -/
theorem insert_fits (tables : EventTables) {event : MeteoraDammV2Event} (h : Fits event) :
    ∃ outcome, (tables.insert event none).1 = .ok outcome := by
  have hvalues := mapM_ok_of_forall (f := fun v : UInt64 × String => convertU64ToI64 v.1 v.2)
    (g := fun v => (v.1.toNat : Int)) (fun v hv => convertU64ToI64_fits (h v hv) v.2)
  unfold EventTables.insert
  rw [hvalues]
  exact ⟨_, rfl⟩

namespace Database

theorem upsertPool_isSome (db : Database) (protocol : Protocol) (pool : Pubkey) :
    ((db.upsertPool protocol pool).pools pool).isSome = true := by
  unfold upsertPool
  cases hpool : db.pools pool with
  | some row =>
    dsimp only
    rw [hpool]
    rfl
  | none =>
    dsimp only
    rw [Function.update_self]
    rfl

theorem upsertPool_kept {db : Database} {pool : Pubkey} (h : (db.pools pool).isSome = true)
    (protocol : Protocol) (other : Pubkey) :
    ((db.upsertPool protocol other).pools pool).isSome = true := by
  by_cases hsame : pool = other
  · rw [hsame]
    exact upsertPool_isSome db protocol other
  · unfold upsertPool
    cases db.pools other with
    | some row => exact h
    | none =>
      dsimp only
      rwa [Function.update_of_ne hsame]

theorem markNeedsRefresh_kept {db : Database} {pool : Pubkey} (h : (db.pools pool).isSome = true)
    (other : Pubkey) : ((db.markNeedsRefresh other).pools pool).isSome = true := by
  unfold markNeedsRefresh
  dsimp only
  by_cases hsame : pool = other
  · rw [hsame, Function.update_self, Option.isSome_map, ← hsame]
    exact h
  · rwa [Function.update_of_ne hsame]

/-- Every pool registered is of the one protocol that registers any. -/
def OneProtocol (db : Database) : Prop :=
  ∀ pool row, db.pools pool = some row → row.protocol = .meteoraDammV2

theorem OneProtocol.upsertPool {db : Database} (h : OneProtocol db) (pool : Pubkey) :
    OneProtocol (db.upsertPool .meteoraDammV2 pool) := by
  unfold Database.upsertPool
  cases db.pools pool with
  | some row => exact h
  | none =>
    intro other row hrow
    dsimp only at hrow
    by_cases hsame : other = pool
    · rw [hsame, Function.update_self] at hrow
      cases hrow
      rfl
    · rw [Function.update_of_ne hsame] at hrow
      exact h other row hrow

theorem OneProtocol.markNeedsRefresh {db : Database} (h : OneProtocol db) (pool : Pubkey) :
    OneProtocol (db.markNeedsRefresh pool) := by
  intro other row hrow
  unfold Database.markNeedsRefresh at hrow
  dsimp only at hrow
  by_cases hsame : other = pool
  · rw [hsame, Function.update_self] at hrow
    obtain ⟨old, hold, rfl⟩ := Option.map_eq_some_iff.mp hrow
    exact h pool old hold
  · rw [Function.update_of_ne hsame] at hrow
    exact h other row hrow

theorem registered_of_isSome {db : Database} (h : OneProtocol db) {pool : Pubkey}
    (hpool : (db.pools pool).isSome = true) : db.registered .meteoraDammV2 pool = true := by
  obtain ⟨row, hrow⟩ := Option.isSome_iff_exists.mp hpool
  unfold registered
  rw [hrow]
  exact decide_eq_true (h pool row hrow)

/-- The projection of a storable upsert of a registered pool cannot fail by itself. -/
theorem projectState_ok {db : Database} {u : PoolCurrentStateUpsert}
    (hregistered : db.registered u.protocol u.poolAddress = true) (hu : Storable u) :
    (db.projectState u).1 = .ok () ∧ (db.projectState u).2.pools = db.pools := by
  unfold projectState
  rw [if_pos hregistered]
  unfold Projection.upsert
  rw [Projection.excluded_storable hu]
  exact ⟨rfl, rfl⟩

end Database

theorem Store.call_ok {store : Store} {event : MeteoraDammV2Event} {name : Call}
    {statement : Database → Except RepositoryError Unit × Database}
    (h : (statement store.db).1 = .ok ()) :
    store.call name event statement none = { store with db := (statement store.db).2 } := by
  have hunder : store.db.under statement none = (.ok (), (statement store.db).2) :=
    Prod.ext h rfl
  unfold Store.call
  rw [hunder]

theorem Task.afterInsert_cases (store : Store) (event : MeteoraDammV2Event)
    (fault : Option Fault) : Task.afterInsert store event fault = .next ∨
      ∃ u, Task.afterInsert store event fault = .project event u := by
  unfold Task.afterInsert
  generalize (store.db.tables.insert event fault).1 = result
  generalize stateUpsert event = upsert
  cases result with
  | error error => exact Or.inl rfl
  | ok outcome =>
    cases upsert with
    | none => exact Or.inl rfl
    | some u => exact Or.inr ⟨u, rfl⟩

/-- What holds as long as no statement fails: nothing to warn of, no failure but of a value too
large, and every event in its recipe has a registered pool if its kind registers any. -/
structure Unfailing (store : Store) (tasks : List Task) : Prop where
  warned : store.warned = []
  failed : ∀ e error, (e, .error error) ∈ store.persisted → ¬Fits e
  oneProtocol : store.db.OneProtocol
  registered : ∀ task ∈ tasks, ∀ e, task.stage.event = some e → Store.registers e = true →
    (store.db.pools e.poolAddress).isSome = true
  projected : ∀ task ∈ tasks, ∀ e u, task.stage = .project e u → stateUpsert e = some u ∧ Fits e

namespace Unfailing

variable {store : Store} {tasks : List Task}

theorem nothing : Unfailing .empty [] where
  warned := rfl
  failed _ _ h := by cases h
  oneProtocol _ _ h := by cases h
  registered _ h := by cases h
  projected _ h := by cases h

theorem subset (h : Unfailing store tasks) {tasks' : List Task} (hsub : tasks' ⊆ tasks) :
    Unfailing store tasks' :=
  ⟨h.warned, h.failed, h.oneProtocol, fun t ht => h.registered t (hsub ht),
    fun t ht => h.projected t (hsub ht)⟩

/-- A task that has no event in hand is as good as none. -/
theorem cons_next (h : Unfailing store tasks) (ingested : IngestedTransaction)
    (remaining : List MeteoraDammV2Event) :
    Unfailing store (⟨ingested, .next, remaining⟩ :: tasks) := by
  refine ⟨h.warned, h.failed, h.oneProtocol, ?_, ?_⟩
  · intro t ht e he
    rcases List.mem_cons.mp ht with rfl | ht
    · cases he
    · exact h.registered t ht e he
  · intro t ht e u hu
    rcases List.mem_cons.mp ht with rfl | ht
    · cases hu
    · exact h.projected t ht e u hu

/-- A statement that succeeded and kept the pools leaves the other tasks as they were. -/
theorem pools_kept (h : Unfailing store tasks) {db : Database} (hone : db.OneProtocol)
    (hpools : ∀ pool, (store.db.pools pool).isSome = true → (db.pools pool).isSome = true) :
    Unfailing { store with db } tasks :=
  ⟨h.warned, h.failed, hone, fun t ht e he hreg => hpools _ (h.registered t ht e he hreg),
    h.projected⟩

theorem cons {task : Task} (h : Unfailing store tasks) {event : MeteoraDammV2Event}
    (hevent : task.stage.event = some event)
    (hpool : Store.registers event = true → (store.db.pools event.poolAddress).isSome = true)
    (hproject : ∀ e u, task.stage = .project e u → stateUpsert e = some u ∧ Fits e) :
    Unfailing store (task :: tasks) := by
  refine ⟨h.warned, h.failed, h.oneProtocol, ?_, ?_⟩
  · intro t ht e he hreg
    rcases List.mem_cons.mp ht with rfl | ht
    · rw [hevent] at he
      cases he
      exact hpool hreg
    · exact h.registered t ht e he hreg
  · intro t ht e u hu
    rcases List.mem_cons.mp ht with rfl | ht
    · exact hproject e u hu
    · exact h.projected t ht e u hu

/-- An insert that nothing fails answers for the values of its event. -/
theorem insert (h : Unfailing store tasks) (event : MeteoraDammV2Event) :
    Unfailing (store.insert event none) tasks := by
  refine ⟨h.warned, ?_, h.oneProtocol, h.registered, h.projected⟩
  intro e error he
  rcases List.mem_append.mp he with he | he
  · exact h.failed e error he
  · obtain ⟨rfl, hresult⟩ := Prod.ext_iff.mp (List.mem_singleton.mp he)
    intro hfits
    obtain ⟨outcome, hok⟩ := insert_fits store.db.tables hfits
    change .error error = (store.db.tables.insert e none).1 at hresult
    rw [hok] at hresult
    cases hresult

theorem insert_answer {event : MeteoraDammV2Event} {u : PoolCurrentStateUpsert}
    (h : Task.afterInsert store event none = .project event u) :
    stateUpsert event = some u ∧ Fits event := by
  obtain ⟨-, hu, outcome, hok⟩ := (Task.afterInsert_eq_project store event event none u).mp h
  have hinserted := EventTables.insert_inserted store.db.tables event none
  rw [hok] at hinserted
  exact ⟨hu, hinserted.accepted.1⟩

theorem step {task task' : Task} {store' : Store} (h : Unfailing store (task :: tasks))
    (hstep : task.step store none = some (store', task')) : Unfailing store' (task' :: tasks) := by
  obtain ⟨ingested, stage, remaining⟩ := task
  have hrest := h.subset (List.subset_cons_self _ tasks)
  cases stage with
  | next =>
    cases remaining with
    | nil => cases hstep
    | cons event remaining =>
      simp only [Task.step] at hstep
      split_ifs at hstep with hregisters
      · cases hstep
        have hdiscovered := hrest.pools_kept (h.oneProtocol.upsertPool event.poolAddress)
          (fun pool hpool => Database.upsertPool_kept hpool .meteoraDammV2 event.poolAddress)
        exact hdiscovered.cons (afterRegistry_event event)
          (fun _ => Database.upsertPool_isSome ..)
          (fun e u hu => absurd hu (Task.afterRegistry_ne_project event e u))
      · cases hstep
        exact hrest.cons (afterRegistry_event event) (fun hreg => absurd hreg hregisters)
          (fun e u hu => absurd hu (Task.afterRegistry_ne_project event e u))
  | flag event =>
    cases hstep
    have hmarked := hrest.pools_kept (h.oneProtocol.markNeedsRefresh event.poolAddress)
      (fun pool hpool => Database.markNeedsRefresh_kept hpool event.poolAddress)
    refine hmarked.cons rfl ?_ (fun _ _ hu => by cases hu)
    intro hreg
    exact Database.markNeedsRefresh_kept (h.registered _ List.mem_cons_self event rfl hreg) _
  | insert event =>
    cases hstep
    have hinsert := hrest.insert event
    rcases Task.afterInsert_cases store event none with hnext | ⟨u, hproject⟩
    · rw [hnext]
      exact hinsert.cons_next ingested remaining
    · rw [hproject]
      refine hinsert.cons rfl (h.registered _ List.mem_cons_self event rfl) ?_
      intro e w hw
      cases hw
      exact insert_answer hproject
  | project event u =>
    cases hstep
    obtain ⟨hu, hfits⟩ := h.projected _ List.mem_cons_self event u rfl
    obtain ⟨hpool, hprotocol, hregisters⟩ := stateUpsert_pool hu
    have hregistered : store.db.registered u.protocol u.poolAddress = true := by
      rw [hprotocol, hpool]
      exact Database.registered_of_isSome h.oneProtocol
        (h.registered _ List.mem_cons_self event rfl hregisters)
    obtain ⟨hok, hpools⟩ := Database.projectState_ok hregistered (stateUpsert_storable hu hfits)
    rw [Store.updatePoolCurrentState, Store.call_ok hok]
    refine Unfailing.cons_next (hrest.pools_kept ?_ ?_) ingested remaining
    · intro pool row hrow
      rw [hpools] at hrow
      exact h.oneProtocol pool row hrow
    · intro pool hsome
      rwa [hpools]

end Unfailing

/-- The row of a pool is that of its latest stored swap or liquidity event. -/
def Current (tables : EventTables) (pool : Pubkey) (row : Option PoolCurrentStateRow) : Prop :=
  (row = none ∧ ∀ e ∈ tables.rows, e.poolAddress = pool → stateUpsert e = none) ∨
    ∃ e ∈ tables.rows, ∃ u r, row = some r ∧ e.poolAddress = pool ∧ stateUpsert e = some u ∧
      OfEvent r u ∧ (u.isSwap = true → OfSwap r u) ∧
      ∀ e' ∈ tables.rows, e'.poolAddress = pool → ∀ u', stateUpsert e' = some u' →
        u'.position ≤ u.position

namespace Worker

variable {bounds : Bounds}

theorem stepped_projecting {s s' : Worker} {a : Action} (h : Stepped bounds s a s')
    (hs : ∃ us, Projecting us s.store s.tasks) : ∃ us, Projecting us s'.store s'.tasks := by
  cases h with
  | @dispatch ingested =>
    obtain ⟨us, hus⟩ := hs
    refine ⟨us, hus.retask ?_⟩
    intro e u
    rw [projects_perm (List.perm_append_singleton (Task.start ingested) s.tasks)]
    exact projects_cons_of_ne (fun _ _ h => by cases h) s.tasks e u
  | @persist i fault task task' store htask hstep =>
    obtain ⟨us, hus⟩ := hs
    have hbefore := hus.retask (fun e u => projects_perm (perm_cons_eraseIdx htask).symm)
    obtain ⟨us', hafter⟩ := hbefore.step (Task.step_projected hstep)
    exact ⟨us', hafter.retask (fun e u => projects_perm (set_perm htask task'))⟩
  | @finish i task htask hdone =>
    obtain ⟨us, hus⟩ := hs
    refine ⟨us, hus.retask ?_⟩
    intro e u
    rw [projects_perm (perm_cons_eraseIdx htask)]
    refine (projects_cons_of_ne ?_ _ e u).symm
    intro e' u' hstage
    unfold Task.isDone at hdone
    rw [hstage] at hdone
    cases hdone
  | _ => exact hs

theorem run_projecting {actions : List Action} {s : Worker}
    (h : run bounds (start .empty) actions = some s) : ∃ us, Projecting us s.store s.tasks := by
  refine runFrom_inv (P := fun t => ∃ us, Projecting us t.store t.tasks)
    (fun t a t' ht hstep => stepped_projecting (step_stepped hstep) ht) ⟨[], ?_⟩ h
  refine ⟨rfl, ?_, ?_, ?_⟩
  · intro u hu
    cases hu
  · intro e outcome u hreport
    cases hreport
  · intro e u ⟨task, htask, _⟩
    cases htask

theorem stepped_unfailing {s s' : Worker} {a : Action} (h : Stepped bounds s a s')
    (hfault : ∀ i fault, a ≠ .persist i (some fault)) (hs : Unfailing s.store s.tasks) :
    Unfailing s'.store s'.tasks := by
  cases h with
  | @dispatch ingested =>
    have hstart := hs.cons_next ingested ingested.events
    exact hstart.subset (List.perm_append_singleton _ s.tasks).subset
  | @persist i fault task task' store htask hstep =>
    cases fault with
    | some fault => exact absurd rfl (hfault i fault)
    | none =>
      have hbefore := hs.subset (perm_cons_eraseIdx htask).symm.subset
      exact (hbefore.step hstep).subset (set_perm htask task').subset
  | finish htask => exact hs.subset (List.eraseIdx_sublist ..).subset
  | _ => exact hs

theorem run_unfailing {actions : List Action} {s : Worker}
    (h : run bounds (start .empty) actions = some s)
    (hfault : ∀ i fault, .persist i (some fault) ∉ actions) : Unfailing s.store s.tasks := by
  refine runFrom_trace
    (P := fun done t => (∀ i fault, Action.persist i (some fault) ∉ done) →
      Unfailing t.store t.tasks) (fun _ => Unfailing.nothing) ?_ h hfault
  intro before t a t' ht hstep hnone
  refine stepped_unfailing (step_stepped hstep) ?_ (ht ?_)
  · intro i fault ha
    exact hnone i fault (List.mem_append_right _ (List.mem_singleton.mpr ha.symm))
  · intro i fault hmem
    exact hnone i fault (List.mem_append_left _ hmem)

/-- The read model after a run, against the events stored. -/
structure ReadModel (actions : List Action) (s : Worker) : Prop where
  justified : ∀ pool r, s.store.db.currentStates pool = some r →
    (∃ e ∈ s.store.db.tables.rows, ∃ u, e.poolAddress = pool ∧ stateUpsert e = some u ∧ OfEvent r u) ∧
    ((r.lastSqrtPrice = none ∧ r.lastSwapAt = none) ∨
      ∃ e ∈ s.store.db.tables.rows, ∃ u, e.poolAddress = pool ∧ stateUpsert e = some u ∧ OfSwap r u)
  current : ∀ pool, s.tasks = [] →
    (∀ e ∈ s.store.db.tables.rows, e.poolAddress = pool →
      ∃ outcome, (e, .ok outcome) ∈ s.store.persisted) →
    (∀ e, e.poolAddress = pool → (.updatePoolCurrentState, e) ∉ s.store.warned) →
    Current s.store.db.tables pool (s.store.db.currentStates pool)
  faultless : (∀ i fault, .persist i (some fault) ∉ actions) →
    s.store.warned = [] ∧ ∀ e error, (e, .error error) ∈ s.store.persisted → ¬Fits e
  settled : (∀ i fault, .persist i (some fault) ∉ actions) → s.tasks = [] →
    (∀ t ∈ s.finished, ∀ e ∈ t.events, Fits e) →
    ∀ pool, Current s.store.db.tables pool (s.store.db.currentStates pool)

/-- What the database took of a pool is of events stored of it. -/
theorem projecting_source {actions : List Action} {s : Worker}
    (hsent : Consistent (delivered actions)) (h : run bounds (start .empty) actions = some s)
    {us : List PoolCurrentStateUpsert} (hus : Projecting us s.store s.tasks) {pool : Pubkey} :
    ∀ u ∈ us.filter (·.poolAddress = pool), ∃ e ∈ s.store.db.tables.rows,
      Fits e ∧ e.poolAddress = pool ∧ stateUpsert e = some u := by
  intro u hu
  obtain ⟨hmem, hpool⟩ := List.mem_filter.mp hu
  obtain ⟨e, outcome, hreport, hsome⟩ := hus.sources u hmem
  obtain ⟨hfits, hrow⟩ := acknowledged_row hsent h hreport
  exact ⟨e, hrow, hfits, (stateUpsert_pool hsome).1.symm.trans (of_decide_eq_true hpool), hsome⟩

/-- The row a pool's upserts left, and the stored event it is of. -/
theorem projecting_left {actions : List Action} {s : Worker}
    (hsent : Consistent (delivered actions)) (h : run bounds (start .empty) actions = some s)
    {us : List PoolCurrentStateUpsert} (hus : Projecting us s.store s.tasks) (pool : Pubkey) :
    (s.store.db.currentStates pool = none ∧ ∀ u ∈ us, u.poolAddress ≠ pool) ∨
      ∃ e ∈ s.store.db.tables.rows, ∃ u r, s.store.db.currentStates pool = some r ∧
        e.poolAddress = pool ∧ stateUpsert e = some u ∧
        Left (us.filter (·.poolAddress = pool)) u r := by
  rw [hus.states, Projection.project_filter]
  have hsource := @projecting_source _ _ _ hsent h _ hus pool
  rcases Projection.foldl_left (us.filter (·.poolAddress = pool)) with
    ⟨hnone, hall⟩ | ⟨u, r, hr, hleft⟩
  · refine Or.inl ⟨hnone, ?_⟩
    intro u hu hpool
    have hmem : u ∈ us.filter (·.poolAddress = pool) :=
      List.mem_filter.mpr ⟨hu, decide_eq_true hpool⟩
    obtain ⟨e, -, hfits, -, hsome⟩ := hsource u hmem
    exact hall u hmem (stateUpsert_storable hsome hfits)
  · obtain ⟨e, hrow, -, hpool, hsome⟩ := hsource u hleft.mem
    exact Or.inr ⟨e, hrow, u, r, hr, hpool, hsome, hleft⟩

theorem run_current {actions : List Action} {s : Worker}
    (hsent : Consistent (delivered actions)) (h : run bounds (start .empty) actions = some s)
    {pool : Pubkey} (hidle : s.tasks = [])
    (hrows : ∀ e ∈ s.store.db.tables.rows, e.poolAddress = pool →
      ∃ outcome, (e, .ok outcome) ∈ s.store.persisted)
    (hwarned : ∀ e, e.poolAddress = pool → (.updatePoolCurrentState, e) ∉ s.store.warned) :
    Current s.store.db.tables pool (s.store.db.currentStates pool) := by
  obtain ⟨us, hus⟩ := run_projecting h
  have hprojected : ∀ e ∈ s.store.db.tables.rows, e.poolAddress = pool → ∀ u,
      stateUpsert e = some u → u ∈ us := by
    intro e he hpool u hu
    obtain ⟨outcome, hreport⟩ := hrows e he hpool
    rcases hus.pending e outcome u hreport hu with hmem | ⟨task, htask, -⟩ | hwarn
    · exact hmem
    · rw [hidle] at htask
      cases htask
    · exact absurd hwarn (hwarned e hpool)
  rcases projecting_left hsent h hus pool with ⟨hnone, hall⟩ | ⟨e, he, u, r, hr, hpool, hu, hleft⟩
  · refine Or.inl ⟨hnone, ?_⟩
    intro e he hpool
    cases hu : stateUpsert e with
    | none => rfl
    | some u =>
      exact absurd ((stateUpsert_pool hu).1.trans hpool) (hall u (hprojected e he hpool u hu))
  · refine Or.inr ⟨e, he, u, r, hr, hpool, hu, hleft.event, ?_, ?_⟩
    · intro hswap
      obtain ⟨hprice, hat⟩ := hleft.swap hswap
      exact ⟨hswap, hprice, hat.trans (Projection.swap_row hswap).2⟩
    · intro e' he' hpool' u' hu'
      obtain ⟨outcome, hreport⟩ := hrows e' he' hpool'
      have hfits := (acknowledged_row hsent h hreport).1
      have hmem := hprojected e' he' hpool' u' hu'
      have hsame : u'.poolAddress = pool := (stateUpsert_pool hu').1.trans hpool'
      exact hleft.greatest u' (List.mem_filter.mpr ⟨hmem, decide_eq_true hsame⟩)
        (stateUpsert_storable hu' hfits)

/-- In a run that nothing fails, a finished transaction whose values fit is acknowledged. -/
theorem acknowledged_of_faultless {actions : List Action} {s : Worker}
    (h : run bounds (start .empty) actions = some s)
    (hfault : ∀ i fault, .persist i (some fault) ∉ actions) (hidle : s.tasks = [])
    (hfits : ∀ t ∈ s.finished, ∀ e ∈ t.events, Fits e) {row : MeteoraDammV2Event}
    (hrow : row ∈ s.store.db.tables.rows) :
    ∃ outcome, (row, .ok outcome) ∈ s.store.persisted := by
  obtain ⟨t, ht, hevent⟩ := (run_recorded h).rows row hrow
  rw [work, hidle, List.map_nil, List.map_nil, List.append_nil] at ht
  obtain ⟨result, hreport⟩ := (run_recorded h).finished t ht row hevent
  cases result with
  | ok outcome => exact ⟨outcome, hreport⟩
  | error error =>
    exact absurd (hfits t ht row hevent) ((run_unfailing h hfault).failed row error hreport)

/-- The read model never shows what no stored event says, and shows each pool's latest event once
the worker is idle, whatever the order the concurrent tasks projected them in. -/
theorem run_read_model {actions : List Action} {s : Worker}
    (hsent : Consistent (delivered actions)) (h : run bounds (start .empty) actions = some s) :
    ReadModel actions s where
  justified pool r hr := by
    obtain ⟨us, hus⟩ := run_projecting h
    rcases projecting_left hsent h hus pool with ⟨hnone, -⟩ | ⟨e, he, u, r', hr', hpool, hu, hleft⟩
    · rw [hr] at hnone
      cases hnone
    · rw [hr] at hr'
      cases hr'
      refine ⟨⟨e, he, u, hpool, hu, hleft.event⟩, hleft.priced.imp_right ?_⟩
      rintro ⟨w, hw, hof⟩
      obtain ⟨e', he', -, hpool', hw'⟩ := projecting_source hsent h hus w hw
      exact ⟨e', he', w, hpool', hw', hof⟩
  current pool hidle hrows hwarned := run_current hsent h hidle hrows hwarned
  faultless hfault := ⟨(run_unfailing h hfault).warned, (run_unfailing h hfault).failed⟩
  settled hfault hidle hfits pool := by
    refine run_current hsent h hidle ?_ ?_
    · intro e he _
      exact acknowledged_of_faultless h hfault hidle hfits he
    · intro e _ hwarn
      rw [(run_unfailing h hfault).warned] at hwarn
      cases hwarn

theorem redelivered_projected : (run ⟨2, 2⟩ (start .empty) redelivered).map (fun s =>
    (s.tasks.length, (s.store.db.tables.rows.map MeteoraDammV2Event.poolAddress).map
      (fun pool => (s.store.db.currentStates pool).map (·.lastEventKind)))) =
    some (0, [some .swap]) := by
  decide +kernel

theorem run_read_model_redelivered : ∃ s, run ⟨2, 2⟩ (start .empty) redelivered = some s ∧
    s.tasks.length = 0 ∧ ReadModel redelivered s := by
  obtain ⟨s, hrun, hprojected⟩ := Option.map_eq_some_iff.mp redelivered_projected
  exact ⟨s, hrun, congrArg Prod.fst hprojected, run_read_model redelivered_consistent hrun⟩

end Worker

end YogSothoth.Indexer
