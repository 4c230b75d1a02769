import Mathlib.Data.List.Count
import YogSothoth.Indexer.WorkerRuns

namespace YogSothoth.Indexer

open Extraction (DomainEvent MeteoraDammV2 MeteoraDammV2Event)
open Extraction.MeteoraDammV2Event (kind uniqueKey)
open Persistence (EventTables InsertOutcome)
open Persistence.EventTables (Fits Inserted)

namespace IngestedTransaction

theorem mem_events {t : IngestedTransaction} {e : MeteoraDammV2Event} (h : e ∈ t.events) :
    t.protocol = .meteoraDammV2 ∧
      ∃ domain ∈ (MeteoraDammV2.new.extractEvents t.transaction).events, route domain = e := by
  obtain ⟨protocol, transaction⟩ := t
  cases protocol with
  | meteoraDlmm => cases h
  | meteoraDammV2 => exact ⟨rfl, List.mem_map.mp h⟩

/-- An event carries its transaction's position. -/
theorem mem_events_position {t : IngestedTransaction} {e : MeteoraDammV2Event}
    (h : e ∈ t.events) :
    e.eventPosition = t.transaction.position.at_ e.eventPosition.eventIndex := by
  obtain ⟨-, domain, hdomain, rfl⟩ := mem_events h
  obtain ⟨raw, -, hfate⟩ := MeteoraDammV2.new.mem_events.mp hdomain
  exact (MeteoraDammV2.fate_event hfate).1

theorem mem_events_signature {t : IngestedTransaction} {e : MeteoraDammV2Event}
    (h : e ∈ t.events) : e.eventPosition.signature = t.signature :=
  congrArg Projection.EventPosition.signature (mem_events_position h)

/-- The events of a transaction stand under keys of their own. -/
theorem events_nodup (t : IngestedTransaction) : (t.events.map uniqueKey).Nodup := by
  obtain ⟨protocol, transaction⟩ := t
  cases protocol with
  | meteoraDlmm => exact List.nodup_nil
  | meteoraDammV2 =>
    have hincreasing := MeteoraDammV2.new.events_increasing transaction
    refine List.pairwise_map.mpr (List.pairwise_map.mpr ?_)
    refine (List.pairwise_map.mp hincreasing).imp ?_
    intro e e' hlt heq
    have hindex : e.eventPosition.eventIndex = e'.eventPosition.eventIndex :=
      congrArg MeteoraDammV2Event.UniqueKey.eventIndex heq
    rw [hindex] at hlt
    exact UInt16.lt_irrefl _ hlt

end IngestedTransaction

/-- A signature names one transaction, however often it is delivered. -/
def Consistent (sent : List IngestedTransaction) : Prop :=
  ∀ t ∈ sent, ∀ t' ∈ sent, t.signature = t'.signature → t.transaction = t'.transaction

/-- Of consistent deliveries, two events under one key are one event. -/
theorem Consistent.eq_of_key {sent : List IngestedTransaction} (h : Consistent sent)
    {t t' : IngestedTransaction} (ht : t ∈ sent) (ht' : t' ∈ sent) {e e' : MeteoraDammV2Event}
    (he : e ∈ t.events) (he' : e' ∈ t'.events) (hkey : uniqueKey e = uniqueKey e') : e = e' := by
  have hsignature : t.signature = t'.signature := by
    rw [← IngestedTransaction.mem_events_signature he,
      ← IngestedTransaction.mem_events_signature he']
    exact congrArg MeteoraDammV2Event.UniqueKey.signature hkey
  have hsame : t = t' := by
    have htransaction := h t ht t' ht' hsignature
    have hprotocol := (IngestedTransaction.mem_events he).1.trans
      (IngestedTransaction.mem_events he').1.symm
    cases t
    cases t'
    cases htransaction
    cases hprotocol
    rfl
  rw [← hsame] at he'
  exact List.inj_on_of_nodup_map t.events_nodup he he' hkey

/-- How often a signature is among transactions. -/
def occurrences (ts : List IngestedTransaction) (signature : Signature) : Nat :=
  ts.countP (fun t => t.signature = signature)

theorem occurrences_perm {ts ts' : List IngestedTransaction} (h : ts.Perm ts')
    (signature : Signature) : occurrences ts signature = occurrences ts' signature :=
  h.countP_eq _

theorem occurrences_le {ts ts' : List IngestedTransaction} (h : ts.Subperm ts')
    (signature : Signature) : occurrences ts signature ≤ occurrences ts' signature :=
  h.countP_le _

theorem occurrences_append (ts ts' : List IngestedTransaction) (signature : Signature) :
    occurrences (ts ++ ts') signature = occurrences ts signature + occurrences ts' signature :=
  List.countP_append

theorem occurrences_cons_self (t : IngestedTransaction) (ts : List IngestedTransaction) :
    occurrences (t :: ts) t.signature = occurrences ts t.signature + 1 :=
  List.countP_cons_of_pos (decide_eq_true rfl)

theorem occurrences_pos {ts : List IngestedTransaction} {t : IngestedTransaction} (h : t ∈ ts) :
    0 < occurrences ts t.signature :=
  List.countP_pos_iff.mpr ⟨t, h, decide_eq_true rfl⟩

/-- How each insert ended, as the persistor counts it. -/
abbrev Reports := List (MeteoraDammV2Event × Except RepositoryError InsertOutcome)

namespace Reports

def reported (reports : Reports) (e : MeteoraDammV2Event) : Prop := ∃ result, (e, result) ∈ reports

/-- `record_indexed`, `record_insert_skipped` and `record_persist_failure`, for a kind. -/
def indexed (reports : Reports) (label : String) : Nat :=
  reports.countP (fun r => kind r.1 = label ∧ r.2.toOption.isSome)

def insertSkipped (reports : Reports) (label : String) : Nat :=
  reports.countP (fun r => kind r.1 = label ∧ r.2.toOption = some .skipped)

def persistFailures (reports : Reports) (label : String) : Nat :=
  reports.countP (fun r => kind r.1 = label ∧ r.2.toOption = none)

variable (reports : Reports) (e : MeteoraDammV2Event)
  (result : Except RepositoryError InsertOutcome) (label : String)

theorem indexed_concat : Reports.indexed (reports ++ [(e, result)]) label =
    indexed reports label + if kind e = label ∧ result.toOption.isSome then 1 else 0 := by
  simp only [indexed, List.countP_append, List.countP_singleton, decide_eq_true_eq]

theorem insertSkipped_concat : Reports.insertSkipped (reports ++ [(e, result)]) label =
    insertSkipped reports label +
      if kind e = label ∧ result.toOption = some .skipped then 1 else 0 := by
  simp only [insertSkipped, List.countP_append, List.countP_singleton, decide_eq_true_eq]

theorem persistFailures_concat : Reports.persistFailures (reports ++ [(e, result)]) label =
    persistFailures reports label + if kind e = label ∧ result.toOption = none then 1 else 0 := by
  simp only [persistFailures, List.countP_append, List.countP_singleton, decide_eq_true_eq]

end Reports

theorem rows_concat {rows rows' : List MeteoraDammV2Event} {e : MeteoraDammV2Event}
    (h : rows' = rows ++ [e]) (label : String) :
    rows'.countP (fun row => kind row = label) =
      rows.countP (fun row => kind row = label) + if kind e = label then 1 else 0 := by
  rw [h, List.countP_append, List.countP_singleton]
  simp only [decide_eq_true_eq]

/-- The counts agree with the tables: what was counted is stored or was skipped. -/
def Reports.Exact (reports : Reports) (tables : EventTables) : Prop :=
  ∀ label, reports.indexed label =
    tables.rows.countP (fun row => kind row = label) + reports.insertSkipped label

theorem Reports.Exact.insert {reports : Reports} {tables tables' : EventTables}
    {e : MeteoraDammV2Event} {result : Except RepositoryError InsertOutcome}
    (h : reports.Exact tables) (hinserted : Inserted tables e result tables')
    (hfailed : ∀ error, result = .error error → tables' = tables) :
    Reports.Exact (reports ++ [(e, result)]) tables' := by
  intro label
  have hexact := h label
  rw [Reports.indexed_concat, Reports.insertSkipped_concat]
  cases hinserted with
  | failed error =>
    simp only [Except.toOption, Option.isSome_none, reduceCtorEq, and_false, if_false]
    omega
  | unanswered error free rows =>
    rw [hfailed error rfl]
    simp only [Except.toOption, Option.isSome_none, reduceCtorEq, and_false, if_false]
    omega
  | skipped fits taken =>
    simp only [Except.toOption, Option.isSome_some, and_true]
    omega
  | inserted fits free rows =>
    rw [rows_concat rows]
    simp only [Except.toOption, Option.isSome_some, Option.some.injEq, reduceCtorEq, and_false,
      and_true, if_false]
    omega

/-- What the database owes the transactions handed to the processor: `sent` by the source, `done`
with, and those at `work` with the events still to be inserted. -/
structure Recorded (sent done : List IngestedTransaction)
    (work : List (IngestedTransaction × List MeteoraDammV2Event)) (reports : Reports)
    (tables : EventTables) : Prop where
  started : (done ++ work.map Prod.fst).Subperm sent
  finished : ∀ t ∈ done, ∀ e ∈ t.events, reports.reported e
  working : ∀ w ∈ work, ∃ past, w.1.events = past ++ w.2 ∧ ∀ e ∈ past, reports.reported e
  sources : ∀ r ∈ reports, ∃ t ∈ done ++ work.map Prod.fst, r.1 ∈ t.events
  accepted : ∀ e outcome, (e, .ok outcome) ∈ reports →
    Fits e ∧ uniqueKey e ∈ tables.rows.map uniqueKey
  rows : ∀ row ∈ tables.rows, ∃ t ∈ done ++ work.map Prod.fst, row ∈ t.events
  fresh : ∀ w ∈ work, occurrences sent w.1.signature = 1 →
    ∀ e ∈ w.2, uniqueKey e ∉ tables.rows.map uniqueKey
  skipped : ∀ e, (e, .ok .skipped) ∈ reports → 2 ≤ occurrences sent e.eventPosition.signature
  counted : ∀ label, reports.indexed label ≤
    tables.rows.countP (fun row => kind row = label) + reports.insertSkipped label
  failed : ∀ label, tables.rows.countP (fun row => kind row = label) +
    reports.insertSkipped label ≤ reports.indexed label + reports.persistFailures label

namespace Recorded

variable {sent done : List IngestedTransaction}
  {work : List (IngestedTransaction × List MeteoraDammV2Event)} {reports : Reports}
  {tables : EventTables}

theorem nothing : Recorded [] [] [] [] .empty where
  started := List.Subperm.refl _
  finished := nofun
  working := nofun
  sources := nofun
  accepted := nofun
  rows := nofun
  fresh := nofun
  skipped := nofun
  counted _ := Nat.le_refl _
  failed _ := Nat.le_refl _

theorem perm (h : Recorded sent done work reports tables)
    {work' : List (IngestedTransaction × List MeteoraDammV2Event)} (hwork : work.Perm work') :
    Recorded sent done work' reports tables := by
  have hstarted : (done ++ work.map Prod.fst).Perm (done ++ work'.map Prod.fst) :=
    (hwork.map Prod.fst).append_left done
  refine ⟨hstarted.symm.subperm.trans h.started, h.finished, ?_, ?_, h.accepted, ?_, ?_, h.skipped,
    h.counted, h.failed⟩
  · intro w hw
    exact h.working w (hwork.mem_iff.mpr hw)
  · intro r hr
    obtain ⟨t, ht, hmem⟩ := h.sources r hr
    exact ⟨t, hstarted.mem_iff.mp ht, hmem⟩
  · intro row hrow
    obtain ⟨t, ht, hmem⟩ := h.rows row hrow
    exact ⟨t, hstarted.mem_iff.mp ht, hmem⟩
  · intro w hw
    exact h.fresh w (hwork.mem_iff.mpr hw)

theorem mem_sent (h : Recorded sent done work reports tables)
    {w : IngestedTransaction × List MeteoraDammV2Event} (hw : w ∈ work) : w.1 ∈ sent :=
  h.started.subset (List.mem_append_right _ (List.mem_map_of_mem hw))

/-- One more transaction sent. -/
theorem deliver (h : Recorded sent done work reports tables) (more : List IngestedTransaction) :
    Recorded (sent ++ more) done work reports tables := by
  refine ⟨h.started.trans (List.sublist_append_left sent more).subperm, h.finished, h.working, h.sources,
    h.accepted, h.rows, ?_, ?_, h.counted, h.failed⟩
  · intro w hw hone
    have hpos := occurrences_pos (h.mem_sent hw)
    rw [occurrences_append] at hone
    exact h.fresh w hw (by omega)
  · intro e he
    have htwo := h.skipped e he
    rw [occurrences_append]
    omega

/-- A transaction is taken up. -/
theorem start (h : Recorded sent done work reports tables) (t : IngestedTransaction)
    (hsent : (done ++ (t :: work.map Prod.fst)).Subperm sent) :
    Recorded sent done ((t, t.events) :: work) reports tables := by
  have hmem : ∀ t' ∈ done ++ work.map Prod.fst, t' ∈ done ++ (t :: work.map Prod.fst) := by
    intro t' ht'
    rcases List.mem_append.mp ht' with ht' | ht'
    · exact List.mem_append_left _ ht'
    · exact List.mem_append_right _ (List.mem_cons_of_mem _ ht')
  refine ⟨hsent, h.finished, ?_, ?_, h.accepted, ?_, ?_, h.skipped, h.counted, h.failed⟩
  · intro w hw
    rcases List.mem_cons.mp hw with rfl | hw
    · exact ⟨[], rfl, nofun⟩
    · exact h.working w hw
  · intro r hr
    obtain ⟨t', ht', hevent⟩ := h.sources r hr
    exact ⟨t', hmem t' ht', hevent⟩
  · intro row hrow
    obtain ⟨t', ht', hevent⟩ := h.rows row hrow
    exact ⟨t', hmem t' ht', hevent⟩
  · intro w hw hone
    rcases List.mem_cons.mp hw with rfl | hw
    · intro e he hkey
      obtain ⟨row, hrow, hsame⟩ := List.mem_map.mp hkey
      obtain ⟨t', ht', hevent⟩ := h.rows row hrow
      have hsignature : t'.signature = t.signature := by
        rw [← IngestedTransaction.mem_events_signature hevent,
          ← IngestedTransaction.mem_events_signature he]
        exact congrArg MeteoraDammV2Event.UniqueKey.signature hsame
      have hpos := occurrences_pos ht'
      have hle := occurrences_le hsent t.signature
      rw [occurrences_perm List.perm_middle, occurrences_cons_self] at hle
      rw [hsignature] at hpos
      have hone : occurrences sent t.signature = 1 := hone
      omega
    · exact h.fresh w hw hone

/-- A transaction is done with. -/
theorem finish {t : IngestedTransaction} (h : Recorded sent done ((t, []) :: work) reports tables) :
    Recorded sent (done ++ [t]) work reports tables := by
  have hstarted : done ++ ((t, []) :: work).map Prod.fst = (done ++ [t]) ++ work.map Prod.fst := by
    rw [List.map_cons, List.append_assoc]
    rfl
  refine ⟨hstarted ▸ h.started, ?_, fun w hw => h.working w (List.mem_cons_of_mem _ hw),
    hstarted ▸ h.sources, h.accepted, hstarted ▸ h.rows,
    fun w hw => h.fresh w (List.mem_cons_of_mem _ hw), h.skipped, h.counted, h.failed⟩
  intro t' ht'
  rcases List.mem_append.mp ht' with ht' | ht'
  · exact h.finished t' ht'
  · obtain ⟨past, hpast, hreported⟩ := h.working (t, []) List.mem_cons_self
    rw [List.mem_singleton.mp ht']
    intro e he
    have he : e ∈ past := by
      rw [show t.events = past ++ [] from hpast, List.append_nil] at he
      exact he
    exact hreported e he

section Insert

variable {t : IngestedTransaction} {e : MeteoraDammV2Event} {todo : List MeteoraDammV2Event}
  {result : Except RepositoryError InsertOutcome} {tables' : EventTables}

theorem mem_events_head (h : Recorded sent done ((t, e :: todo) :: work) reports tables) :
    e ∈ t.events := by
  obtain ⟨past, hpast, -⟩ := h.working _ List.mem_cons_self
  rw [show t.events = past ++ e :: todo from hpast]
  exact List.mem_append_right _ List.mem_cons_self

/-- Another transaction at work under the same signature is a second delivery. -/
theorem two_le_occurrences (h : Recorded sent done ((t, todo) :: work) reports tables)
    {w : IngestedTransaction × List MeteoraDammV2Event} (hw : w ∈ work)
    (hsignature : w.1.signature = t.signature) : 2 ≤ occurrences sent t.signature := by
  have hle := occurrences_le h.started t.signature
  rw [List.map_cons, occurrences_perm List.perm_middle, occurrences_cons_self] at hle
  change occurrences (done ++ work.map Prod.fst) t.signature + 1 ≤ _ at hle
  have hpos := occurrences_pos (List.mem_append_right done (List.mem_map_of_mem (f := Prod.fst) hw))
  rw [hsignature] at hpos
  omega

theorem insert_fresh (h : Recorded sent done ((t, e :: todo) :: work) reports tables)
    (hinserted : Inserted tables e result tables') :
    ∀ w ∈ (t, todo) :: work, occurrences sent w.1.signature = 1 →
      ∀ e' ∈ w.2, uniqueKey e' ∉ tables'.rows.map uniqueKey := by
  intro w hw hone e' he' hkey
  obtain ⟨row, hrow, hsame⟩ := List.mem_map.mp hkey
  rcases List.mem_cons.mp hw with rfl | hw
  · rcases hinserted.mem_rows hrow with hrow | ⟨rfl, -⟩
    · exact h.fresh (t, e :: todo) List.mem_cons_self hone e' (List.mem_cons_of_mem _ he')
        (hsame ▸ List.mem_map_of_mem hrow)
    · obtain ⟨past, hpast, -⟩ := h.working _ List.mem_cons_self
      have hnodup := t.events_nodup
      rw [show t.events = past ++ row :: todo from hpast, List.map_append, List.map_cons,
        List.nodup_append] at hnodup
      have hhead := (List.nodup_cons.mp hnodup.2.1).1
      rw [hsame] at hhead
      exact hhead (List.mem_map_of_mem he')
  · rcases hinserted.mem_rows hrow with hrow | ⟨rfl, -⟩
    · exact h.fresh w (List.mem_cons_of_mem _ hw) hone e' he' (hsame ▸ List.mem_map_of_mem hrow)
    · obtain ⟨past, hpast, -⟩ := h.working w (List.mem_cons_of_mem _ hw)
      have hmem : e' ∈ w.1.events := by
        rw [hpast]
        exact List.mem_append_right _ he'
      have hsignature : w.1.signature = t.signature := by
        rw [← IngestedTransaction.mem_events_signature hmem,
          ← IngestedTransaction.mem_events_signature h.mem_events_head]
        exact (congrArg MeteoraDammV2Event.UniqueKey.signature hsame).symm
      have htwo := h.two_le_occurrences hw hsignature
      rw [hsignature] at hone
      omega

theorem insert_counted (h : Recorded sent done ((t, e :: todo) :: work) reports tables)
    (hinserted : Inserted tables e result tables') (label : String) :
    Reports.indexed (reports ++ [(e, result)]) label ≤
      tables'.rows.countP (fun row => kind row = label) +
        Reports.insertSkipped (reports ++ [(e, result)]) label ∧
    tables'.rows.countP (fun row => kind row = label) +
        Reports.insertSkipped (reports ++ [(e, result)]) label ≤
      Reports.indexed (reports ++ [(e, result)]) label +
        Reports.persistFailures (reports ++ [(e, result)]) label := by
  have hcounted := h.counted label
  have hfailed := h.failed label
  rw [Reports.indexed_concat, Reports.insertSkipped_concat, Reports.persistFailures_concat]
  cases hinserted with
  | failed error =>
    simp only [Except.toOption, Option.isSome_none, reduceCtorEq, and_false, and_true, if_false]
    constructor
    · omega
    · split_ifs <;> omega
  | unanswered error free rows =>
    rw [rows_concat rows]
    simp only [Except.toOption, Option.isSome_none, reduceCtorEq, and_false, and_true, if_false]
    constructor <;> split_ifs <;> omega
  | skipped fits taken =>
    simp only [Except.toOption, Option.isSome_some, reduceCtorEq, and_false, and_true, if_false]
    constructor <;> split_ifs <;> omega
  | inserted fits free rows =>
    rw [rows_concat rows]
    simp only [Except.toOption, Option.isSome_some, Option.some.injEq, reduceCtorEq, and_false,
      and_true, if_false]
    constructor <;> split_ifs <;> omega

/-- An event at work is inserted, or fails to be. -/
theorem insert (h : Recorded sent done ((t, e :: todo) :: work) reports tables)
    (hinserted : Inserted tables e result tables') :
    Recorded sent done ((t, todo) :: work) (reports ++ [(e, result)]) tables' := by
  have hreported : ∀ e', reports.reported e' → Reports.reported (reports ++ [(e, result)]) e' :=
    fun e' ⟨r, hr⟩ => ⟨r, List.mem_append_left _ hr⟩
  refine ⟨h.started, fun t' ht' e' he' => hreported e' (h.finished t' ht' e' he'), ?_, ?_, ?_, ?_,
    h.insert_fresh hinserted, ?_, fun label => (h.insert_counted hinserted label).1,
    fun label => (h.insert_counted hinserted label).2⟩
  · intro w hw
    rcases List.mem_cons.mp hw with rfl | hw
    · obtain ⟨past, hpast, hpastReported⟩ := h.working _ List.mem_cons_self
      refine ⟨past ++ [e], ?_, ?_⟩
      · rw [List.append_assoc]
        exact hpast
      · intro e' he'
        rcases List.mem_append.mp he' with he' | he'
        · exact hreported e' (hpastReported e' he')
        · rw [List.mem_singleton.mp he']
          exact ⟨result, List.mem_append_right _ (List.mem_singleton.mpr rfl)⟩
    · obtain ⟨past, hpast, hpastReported⟩ := h.working w (List.mem_cons_of_mem _ hw)
      exact ⟨past, hpast, fun e' he' => hreported e' (hpastReported e' he')⟩
  · intro r hr
    rcases List.mem_append.mp hr with hr | hr
    · exact h.sources r hr
    · rw [List.mem_singleton.mp hr]
      exact ⟨t, List.mem_append_right _ List.mem_cons_self, h.mem_events_head⟩
  · intro e' outcome he'
    rcases List.mem_append.mp he' with he' | he'
    · obtain ⟨hfits, hkey⟩ := h.accepted e' outcome he'
      exact ⟨hfits, (hinserted.rows_sublist.map uniqueKey).subset hkey⟩
    · cases List.mem_singleton.mp he'
      exact hinserted.accepted
  · intro row hrow
    rcases hinserted.mem_rows hrow with hrow | ⟨rfl, -⟩
    · exact h.rows row hrow
    · exact ⟨t, List.mem_append_right _ List.mem_cons_self, h.mem_events_head⟩
  · intro e' he'
    rcases List.mem_append.mp he' with he' | he'
    · exact h.skipped e' he'
    · cases List.mem_singleton.mp he'
      have htaken : uniqueKey e ∈ tables.rows.map uniqueKey := by
        cases hinserted with
        | skipped _ taken => exact taken
      have hsignature := IngestedTransaction.mem_events_signature h.mem_events_head
      have hpos := occurrences_pos (h.mem_sent List.mem_cons_self)
      have hne : occurrences sent t.signature ≠ 1 := fun hone =>
        h.fresh _ List.mem_cons_self hone e List.mem_cons_self htaken
      rw [hsignature]
      change 0 < occurrences sent t.signature at hpos
      omega

end Insert

end Recorded

end YogSothoth.Indexer
