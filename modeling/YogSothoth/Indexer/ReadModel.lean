import YogSothoth.Indexer.Ingested

namespace YogSothoth.Projection

theorem project_concat (us : List PoolCurrentStateUpsert) (u : PoolCurrentStateUpsert) :
    project (us ++ [u]) = (upsert (project us) u).2 := List.foldl_concat ..

/-- The projection of a pool is that of its own upserts. -/
theorem project_filter (us : List PoolCurrentStateUpsert) (pool : Pubkey) :
    project us pool = (us.filter (·.poolAddress = pool)).foldl applyRow none := by
  induction us using List.reverseRecOn with
  | nil => rfl
  | append_singleton us u ih =>
    rw [project_concat, List.filter_append]
    by_cases hpool : u.poolAddress = pool
    · subst hpool
      have hself : [u].filter (·.poolAddress = u.poolAddress) = [u] :=
        List.filter_cons_of_pos (decide_eq_true rfl)
      rw [upsert_row, ih, hself, List.foldl_append, List.foldl_cons, List.foldl_nil]
    · rw [List.filter_cons_of_neg (by rwa [decide_eq_true_eq]), List.filter_nil, List.append_nil,
        ← ih]
      unfold upsert
      cases excluded u with
      | error e => rfl
      | ok new => exact Function.update_of_ne (Ne.symm hpool) ..

end YogSothoth.Projection

namespace YogSothoth.Indexer

open Extraction (MeteoraDammV2Event)
open Persistence (EventTables Fault InsertOutcome)
open Persistence.EventTables (Fits Inserted)
open Projection (OfEvent PoolCurrentStateRow PoolCurrentStateUpsert Storable)

theorem stateUpsert_pool {e : MeteoraDammV2Event} {u : PoolCurrentStateUpsert}
    (h : stateUpsert e = some u) :
    u.poolAddress = e.poolAddress ∧ u.protocol = .meteoraDammV2 ∧ Store.registers e = true := by
  cases e with
  | swap e => cases h; exact ⟨rfl, rfl, rfl⟩
  | liquidity e => cases h; exact ⟨rfl, rfl, rfl⟩
  | _ => cases h

/-- An event whose insert passed its conversions passes those of the projection. -/
theorem stateUpsert_storable {e : MeteoraDammV2Event} {u : PoolCurrentStateUpsert}
    (h : stateUpsert e = some u) (hfits : Fits e) : Storable u := by
  cases e with
  | swap e =>
    cases h
    have ha : (e.reserveAAfter, "reserve_a_after") ∈ MeteoraDammV2Event.bigints (.swap e) := by
      simp [MeteoraDammV2Event.bigints]
    have hb : (e.reserveBAfter, "reserve_b_after") ∈ MeteoraDammV2Event.bigints (.swap e) := by
      simp [MeteoraDammV2Event.bigints]
    have hslot : (e.slot, "slot") ∈ MeteoraDammV2Event.bigints (.swap e) := by
      simp [MeteoraDammV2Event.bigints]
    exact ⟨hfits _ ha, hfits _ hb, hfits _ hslot⟩
  | liquidity e =>
    cases h
    have ha : (e.reserveAAfter, "reserve_a_after") ∈ MeteoraDammV2Event.bigints (.liquidity e) := by
      simp [MeteoraDammV2Event.bigints]
    have hb : (e.reserveBAfter, "reserve_b_after") ∈ MeteoraDammV2Event.bigints (.liquidity e) := by
      simp [MeteoraDammV2Event.bigints]
    have hslot : (e.slot, "slot") ∈ MeteoraDammV2Event.bigints (.liquidity e) := by
      simp [MeteoraDammV2Event.bigints]
    exact ⟨hfits _ ha, hfits _ hb, hfits _ hslot⟩
  | _ => cases h

namespace Store

variable (store : Store) (event : MeteoraDammV2Event) (fault : Option Fault)

theorem call_warned (name : Call) (statement : Database → Except RepositoryError Unit × Database) :
    store.warned.Sublist (store.call name event statement fault).warned := by
  unfold call
  dsimp only
  cases (store.db.under statement fault).1 with
  | ok _ => exact List.Sublist.refl _
  | error _ => exact List.sublist_append_left _ _

theorem call_error {name : Call} {statement : Database → Except RepositoryError Unit × Database}
    {error : RepositoryError} (h : (store.db.under statement fault).1 = .error error) :
    (name, event) ∈ (store.call name event statement fault).warned := by
  unfold call
  dsimp only
  rw [h]
  exact List.mem_append_right _ (List.mem_singleton.mpr rfl)

theorem discoverPool_states :
    (store.discoverPool event fault).db.currentStates = store.db.currentStates := by
  rw [discoverPool, call_db, Database.under_frame (f := Database.currentStates)]
  unfold Database.upsertPool
  cases store.db.pools event.poolAddress <;> rfl

theorem touchPool_states :
    (store.touchPool event fault).db.currentStates = store.db.currentStates := by
  rw [touchPool, call_db, Database.under_frame (f := Database.currentStates) rfl]

theorem markNeedsRefresh_states :
    (store.markNeedsRefresh event fault).db.currentStates = store.db.currentStates := by
  rw [markNeedsRefresh, call_db, Database.under_frame (f := Database.currentStates)]
  rfl

/-- The projection's statement is the upsert, or is warned of and changes nothing. -/
theorem updatePoolCurrentState_states (u : PoolCurrentStateUpsert) :
    (store.updatePoolCurrentState event u fault).db.currentStates =
        (Projection.upsert store.db.currentStates u).2 ∨
      (store.updatePoolCurrentState event u fault).db.currentStates = store.db.currentStates ∧
        (.updatePoolCurrentState, event) ∈
          (store.updatePoolCurrentState event u fault).warned := by
  rw [updatePoolCurrentState, call_db]
  cases hregistered : store.db.registered u.protocol u.poolAddress with
  | true =>
    have hstatement : (store.db.projectState u).2.currentStates =
        (Projection.upsert store.db.currentStates u).2 := by
      unfold Database.projectState
      rw [if_pos hregistered]
    cases fault with
    | none => exact Or.inl hstatement
    | some fault =>
      obtain ⟨error, committed⟩ := fault
      cases committed with
      | true => exact Or.inl hstatement
      | false => exact Or.inr ⟨rfl, store.call_error event _ rfl⟩
  | false =>
    have hstatement : store.db.projectState u =
        (.error (.conflict "pool_current_state_pool_fkey"), store.db) := by
      unfold Database.projectState
      rw [hregistered]
      exact if_neg Bool.false_ne_true
    refine Or.inr ⟨Database.under_frame (f := Database.currentStates) (by rw [hstatement]) fault,
      ?_⟩
    cases fault with
    | none => exact store.call_error event none (congrArg Prod.fst hstatement)
    | some fault =>
      obtain ⟨error, committed⟩ := fault
      cases committed with
      | true => exact store.call_error event _ rfl
      | false => exact store.call_error event _ rfl

end Store

/-- What a statement of a task does to the read model and to what is reported. -/
inductive Task.Projected (task : Task) (store : Store) (store' : Store) (task' : Task) : Prop where
  | kept (before : ∀ e u, task.stage ≠ .project e u) (after : ∀ e u, task'.stage ≠ .project e u)
      (states : store'.db.currentStates = store.db.currentStates)
      (persisted : store'.persisted = store.persisted)
      (warned : store.warned.Sublist store'.warned)
  | insert (event : MeteoraDammV2Event) (result : Except RepositoryError InsertOutcome)
      (before : ∀ e u, task.stage ≠ .project e u)
      (after : ∀ e u, task'.stage = .project e u ↔
        e = event ∧ stateUpsert event = some u ∧ ∃ outcome, result = .ok outcome)
      (states : store'.db.currentStates = store.db.currentStates)
      (persisted : store'.persisted = store.persisted ++ [(event, result)])
      (warned : store'.warned = store.warned)
  | project (event : MeteoraDammV2Event) (u : PoolCurrentStateUpsert)
      (before : task.stage = .project event u) (after : ∀ e u, task'.stage ≠ .project e u)
      (states : store'.db.currentStates = (Projection.upsert store.db.currentStates u).2 ∨
        store'.db.currentStates = store.db.currentStates ∧
          (.updatePoolCurrentState, event) ∈ store'.warned)
      (persisted : store'.persisted = store.persisted)
      (warned : store.warned.Sublist store'.warned)

namespace Task

theorem afterRegistry_ne_project (event e : MeteoraDammV2Event) (u : PoolCurrentStateUpsert) :
    afterRegistry event ≠ .project e u := by
  cases event <;> exact nofun

theorem afterInsert_eq_project (store : Store) (event e : MeteoraDammV2Event)
    (fault : Option Fault) (u : PoolCurrentStateUpsert) :
    afterInsert store event fault = .project e u ↔
      e = event ∧ stateUpsert event = some u ∧
        ∃ outcome, (store.db.tables.insert event fault).1 = .ok outcome := by
  unfold afterInsert
  generalize (store.db.tables.insert event fault).1 = result
  generalize stateUpsert event = upsert
  cases result with
  | error error => simp only [reduceCtorEq, exists_false, and_false]
  | ok outcome =>
    cases upsert with
    | none => simp only [reduceCtorEq, false_and, and_false]
    | some w =>
      simp only [Stage.project.injEq, Option.some.injEq, Except.ok.injEq, exists_eq', and_true]
      exact and_congr_left' eq_comm

theorem step_projected {task task' : Task} {store store' : Store} {fault : Option Fault}
    (h : task.step store fault = some (store', task')) :
    task.Projected store store' task' := by
  obtain ⟨ingested, stage, remaining⟩ := task
  cases stage with
  | next =>
    cases remaining with
    | nil => cases h
    | cons event remaining =>
      simp only [step] at h
      split_ifs at h with hregisters
      · cases h
        exact .kept (fun _ _ h => by cases h) (afterRegistry_ne_project event)
          (store.discoverPool_states event fault) rfl (store.call_warned event fault ..)
      · cases h
        exact .kept (fun _ _ h => by cases h) (afterRegistry_ne_project event)
          (store.touchPool_states event fault) rfl (store.call_warned event fault ..)
  | flag event =>
    cases h
    exact .kept (fun _ _ h => by cases h) (fun _ _ h => by cases h)
      (store.markNeedsRefresh_states event fault) rfl (store.call_warned event fault ..)
  | insert event =>
    cases h
    exact .insert event (store.db.tables.insert event fault).1 (fun _ _ h => by cases h)
      (fun e u => afterInsert_eq_project store event e fault u) rfl rfl rfl
  | project event u =>
    cases h
    exact .project event u rfl (fun _ _ h => by cases h)
      (store.updatePoolCurrentState_states event fault u) rfl (store.call_warned event fault ..)

end Task

/-- A task is about to project an event. -/
def projects (tasks : List Task) (e : MeteoraDammV2Event) (u : PoolCurrentStateUpsert) : Prop :=
  ∃ task ∈ tasks, task.stage = .project e u

theorem projects_cons {task : Task} {tasks : List Task} {e : MeteoraDammV2Event}
    {u : PoolCurrentStateUpsert} :
    projects (task :: tasks) e u ↔ task.stage = .project e u ∨ projects tasks e u :=
  List.exists_mem_cons_iff ..

theorem projects_perm {tasks tasks' : List Task} (h : tasks.Perm tasks') {e : MeteoraDammV2Event}
    {u : PoolCurrentStateUpsert} : projects tasks e u ↔ projects tasks' e u :=
  exists_congr (fun _ => and_congr_left' h.mem_iff)

theorem projects_cons_of_ne {task : Task} (h : ∀ e u, task.stage ≠ .project e u)
    (tasks : List Task) (e : MeteoraDammV2Event) (u : PoolCurrentStateUpsert) :
    projects (task :: tasks) e u ↔ projects tasks e u := by
  rw [projects_cons]
  exact or_iff_right (h e u)

/-- The upserts the database took stand for the read model: each is of an event reported as
persisted, and each such event has had its own, is about to, or is warned of. -/
structure Projecting (us : List PoolCurrentStateUpsert) (store : Store) (tasks : List Task) :
    Prop where
  states : store.db.currentStates = Projection.project us
  sources : ∀ u ∈ us, ∃ e outcome, (e, .ok outcome) ∈ store.persisted ∧ stateUpsert e = some u
  pending : ∀ e outcome u, (e, .ok outcome) ∈ store.persisted → stateUpsert e = some u →
    u ∈ us ∨ projects tasks e u ∨ (.updatePoolCurrentState, e) ∈ store.warned
  stages : ∀ e u, projects tasks e u →
    stateUpsert e = some u ∧ ∃ outcome, (e, .ok outcome) ∈ store.persisted

namespace Projecting

variable {us : List PoolCurrentStateUpsert} {store store' : Store} {tasks : List Task}

theorem retask (h : Projecting us store tasks) {tasks' : List Task}
    (hsame : ∀ e u, projects tasks' e u ↔ projects tasks e u) : Projecting us store tasks' := by
  refine ⟨h.states, h.sources, ?_, fun e u hu => h.stages e u ((hsame e u).mp hu)⟩
  intro e outcome u hreport hu
  rw [hsame]
  exact h.pending e outcome u hreport hu

/-- A statement of a task keeps it, with one more upsert when the task projects. -/
theorem step {task task' : Task} (h : Projecting us store (task :: tasks))
    (hstep : task.Projected store store' task') :
    ∃ us', Projecting us' store' (task' :: tasks) := by
  cases hstep with
  | kept before after states persisted warned =>
    have h := (h.retask (projects_cons_of_ne before tasks · · |>.symm)).retask
      (projects_cons_of_ne after tasks)
    refine ⟨us, states.trans h.states, persisted ▸ h.sources, ?_, persisted ▸ h.stages⟩
    rw [persisted]
    intro e outcome u hreport hu
    exact (h.pending e outcome u hreport hu).imp_right (Or.imp_right (warned.subset ·))
  | insert event result before after states persisted warned =>
    have h := h.retask (projects_cons_of_ne before tasks · · |>.symm)
    refine ⟨us, states.trans h.states, ?_, ?_, ?_⟩
    · intro u hu
      obtain ⟨e, outcome, hreport, hsome⟩ := h.sources u hu
      exact ⟨e, outcome, persisted ▸ List.mem_append_left _ hreport, hsome⟩
    · rw [persisted, warned]
      intro e outcome u hreport hu
      rw [projects_cons, after]
      rcases List.mem_append.mp hreport with hreport | hreport
      · exact (h.pending e outcome u hreport hu).imp_right (Or.imp_left Or.inr)
      · cases List.mem_singleton.mp hreport
        exact Or.inr (Or.inl (Or.inl ⟨rfl, hu, outcome, rfl⟩))
    · rw [persisted]
      intro e u hu
      rcases projects_cons.mp hu with hhead | htail
      · obtain ⟨rfl, hsome, outcome, rfl⟩ := (after e u).mp hhead
        exact ⟨hsome, outcome, List.mem_append_right _ (List.mem_singleton.mpr rfl)⟩
      · obtain ⟨hsome, outcome, hreport⟩ := h.stages e u htail
        exact ⟨hsome, outcome, List.mem_append_left _ hreport⟩
  | project event u before after states persisted warned =>
    obtain ⟨hsome, outcome, hreport⟩ := h.stages event u (projects_cons.mpr (Or.inl before))
    have hstages : ∀ e w, projects (task' :: tasks) e w →
        stateUpsert e = some w ∧ ∃ outcome, (e, .ok outcome) ∈ store'.persisted := by
      rw [persisted]
      intro e w hw
      rw [projects_cons_of_ne after] at hw
      exact h.stages e w (projects_cons.mpr (Or.inr hw))
    have hpending : ∀ e outcome w, (e, .ok outcome) ∈ store'.persisted → stateUpsert e = some w →
        w ∈ us ∨ (e = event ∧ w = u) ∨ projects (task' :: tasks) e w ∨
          (.updatePoolCurrentState, e) ∈ store'.warned := by
      rw [persisted]
      intro e outcome w hreport hw
      rw [projects_cons_of_ne after]
      rcases h.pending e outcome w hreport hw with hus | hproject | hwarned
      · exact Or.inl hus
      · rcases projects_cons.mp hproject with hhead | htail
        · rw [before] at hhead
          cases hhead
          exact Or.inr (Or.inl ⟨rfl, rfl⟩)
        · exact Or.inr (Or.inr (Or.inl htail))
      · exact Or.inr (Or.inr (Or.inr (warned.subset hwarned)))
    rcases states with hupsert | ⟨hkept, hwarned⟩
    · refine ⟨us ++ [u], ?_, ?_, ?_, hstages⟩
      · rw [hupsert, h.states, Projection.project_concat]
      · rw [persisted]
        intro w hw
        rcases List.mem_append.mp hw with hw | hw
        · exact h.sources w hw
        · rw [List.mem_singleton.mp hw]
          exact ⟨event, outcome, hreport, hsome⟩
      · intro e outcome w hreport hw
        rcases hpending e outcome w hreport hw with hus | ⟨-, rfl⟩ | hrest
        · exact Or.inl (List.mem_append_left _ hus)
        · exact Or.inl (List.mem_append_right _ (List.mem_singleton.mpr rfl))
        · exact Or.inr hrest
    · refine ⟨us, hkept.trans h.states, persisted ▸ h.sources, ?_, hstages⟩
      intro e outcome w hreport hw
      rcases hpending e outcome w hreport hw with hus | ⟨rfl, -⟩ | hrest
      · exact Or.inl hus
      · exact Or.inr (Or.inr hwarned)
      · exact Or.inr hrest

end Projecting

end YogSothoth.Indexer
