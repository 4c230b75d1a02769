import YogSothoth.Analytic.SplitRun
import YogSothoth.Api.RotationRunPages

namespace YogSothoth.RotationRunService

open Analytic (Analytics AnalyticState AnalyticStep AnalyticReachable TranchePeriod RunsDrawn RunsInv
  RunsLater tranche tranche_eq runGap grid)
open RotationRunList (Names RotationRun Entry Ordered HoldsSixPlaces listed roundAt volumeKey)

section Read

variable [LinearOrder Pubkey] {decimal : ℚ → String → Except RepositoryError Decimal}

/-- The period of a read that ends at `asOf`. -/
def periodAt (db : Analytics Pubkey) (q : RunsRequest) (asOf : Int) : TranchePeriod :=
  .of asOf q.window ((RotationRunList.findMeasuredSince db q.protocol).map (· + runGap))

/-- Once its period is built, a read finds a page of it if it is covered, else an empty one. -/
theorem readPage_ok {q : RunsRequest} {names : Names} {written measured runs : Analytics Pubkey}
    {cursor : Option RotationRunCursor} {found : Measured (Page RotationRun) TranchePeriod}
    {asOf : Option Instant}
    {read : Option TranchePeriod →
      Except RotationRunsError (Measured (Page RotationRun) TranchePeriod)}
    (h : ((buildTranchePeriod (lookup decimal names written measured runs) q.window q.protocol
      asOf).mapError RotationRunsError.repository >>= read) = .ok found)
    (hnone : read none = .ok ⟨none, .empty⟩)
    (hsome : ∀ period, read (some period) =
      if period.isCovered then
        (RotationRunList.listRuns decimal runs names period q.window q.scope q.order cursor
          q.limit).mapError RotationRunsError.repository >>= fun items => .ok ⟨some period, items⟩
      else .ok ⟨some period, .empty⟩) :
    (buildTranchePeriod (lookup decimal names written measured runs) q.window q.protocol asOf =
      .ok none ∧ found = ⟨none, .empty⟩) ∨
    ∃ period, buildTranchePeriod (lookup decimal names written measured runs) q.window q.protocol
      asOf = .ok (some period) ∧ found.period = some period ∧
        if period.isCovered then RotationRunList.listRuns decimal runs names period q.window q.scope
          q.order cursor q.limit = .ok found.items
        else found.items = .empty := by
  obtain ⟨period, hperiod, hread⟩ := mapError_bind_eq_ok h
  cases period with
  | none =>
    rw [hnone] at hread
    cases hread
    exact Or.inl ⟨hperiod, rfl⟩
  | some period =>
    refine Or.inr ⟨period, hperiod, ?_⟩
    rw [hsome] at hread
    by_cases hcovered : period.isCovered
    · rw [if_pos hcovered] at hread
      obtain ⟨items, hitems, hread⟩ := mapError_bind_eq_ok hread
      cases hread
      rw [if_pos hcovered]
      exact ⟨rfl, hitems⟩
    · rw [if_neg hcovered] at hread
      cases hread
      rw [if_neg hcovered]
      exact ⟨rfl, rfl⟩

/-- What a read finds: nothing before the first tranche; else a period, which ends where its cursor
says or where the tables do, and a page of it once it is covered. -/
theorem listRuns_ok {q : RunsRequest} {names : Names} {written measured runs : Analytics Pubkey}
    {cursor : Option RotationRunCursor} {found : Measured (Page RotationRun) TranchePeriod}
    (h : listRuns (lookup decimal names written measured runs) q.window q.scope q.protocol q.order
      cursor q.limit = .ok found) :
    (cursor = none ∧ RotationRunList.findWrittenThrough written = none ∧
      found = ⟨none, .empty⟩) ∨
    ∃ asOf, (cursor.map RotationRunCursor.asOf).or (RotationRunList.findWrittenThrough written) =
        some asOf ∧
      found.period = some (periodAt measured q asOf) ∧
      if (periodAt measured q asOf).isCovered then
        RotationRunList.listRuns decimal runs names (periodAt measured q asOf) q.window q.scope
          q.order cursor q.limit = .ok found.items
      else found.items = .empty := by
  unfold listRuns at h
  cases cursor with
  | none =>
    obtain ⟨end_, hend, h⟩ := bind_eq_ok h
    cases hend
    have hread := readPage_ok h rfl (fun _ => rfl)
    cases hw : RotationRunList.findWrittenThrough written with
    | none =>
      simp only [buildTranchePeriod, lookup, hw] at hread
      rcases hread with ⟨-, hfound⟩ | ⟨period, hperiod, -⟩
      · exact Or.inl ⟨rfl, rfl, hfound⟩
      · cases hperiod
    | some asOf =>
      simp only [buildTranchePeriod, lookup, hw] at hread
      rcases hread with ⟨hperiod, -⟩ | ⟨period, hperiod, hfound⟩
      · cases hperiod
      · cases hperiod
        exact Or.inr ⟨asOf, rfl, hfound⟩
  | some c =>
    right
    obtain ⟨through, -, h⟩ := mapError_bind_eq_ok h
    cases through with
    | none => cases h
    | some through =>
      by_cases hend : c.asOf ≤ through ∧ through - cursorEndMargin ≤ c.asOf
      · simp only [if_pos hend] at h
        obtain ⟨end_, hend, h⟩ := bind_eq_ok h
        cases hend
        have hread := readPage_ok h rfl (fun _ => rfl)
        rcases hread with ⟨hperiod, -⟩ | ⟨period, hperiod, hfound⟩
        · cases hperiod
        · cases hperiod
          exact ⟨c.asOf, rfl, hfound⟩
      · simp only [if_neg hend] at h
        cases h

section Walk

variable {W : Type*} [DecidableEq W] {q : RunsRequest} {cursor : Option RotationRunCursor}
  {s : AnalyticState W Pubkey} {r : PageRead W} {reads : List (PageRead W)}

theorem Reads.head (h : Reads decimal q cursor s (r :: reads)) : IsRead decimal q cursor s r := by
  cases h with
  | last read _ => exact read
  | next read _ _ => exact read

/-- Every query of a walk runs on a state after the first one's. -/
theorem Reads.reached (h : Reads decimal q cursor s reads) : ∀ r ∈ reads,
    Relation.ReflTransGen AnalyticStep s r.written ∧
    Relation.ReflTransGen AnalyticStep s r.measured ∧
      Relation.ReflTransGen AnalyticStep s r.listed := by
  induction h with
  | last read _ =>
    intro r hr
    rw [List.mem_singleton.mp hr]
    exact ⟨read.written, read.written.trans read.measured,
      (read.written.trans read.measured).trans read.listed⟩
  | next read _ _ ih =>
    intro r' hr'
    have hlisted := (read.written.trans read.measured).trans read.listed
    rcases List.mem_cons.mp hr' with rfl | hr'
    · exact ⟨read.written, read.written.trans read.measured, hlisted⟩
    · obtain ⟨hw, hm, hl⟩ := ih r' hr'
      exact ⟨hlisted.trans hw, hlisted.trans hm, hlisted.trans hl⟩

theorem Reads.reached_head (h : Reads decimal q cursor s (r :: reads)) : ∀ r' ∈ r :: reads,
    Relation.ReflTransGen AnalyticStep r.written r'.measured ∧
      Relation.ReflTransGen AnalyticStep r.written r'.listed := by
  intro r' hr'
  have hread := h.head
  have hlisted := hread.measured.trans hread.listed
  rcases List.mem_cons.mp hr' with rfl | hr'
  · exact ⟨hread.measured, hlisted⟩
  · cases h with
    | last _ _ => cases hr'
    | next _ _ rest =>
      obtain ⟨-, hm, hl⟩ := rest.reached r' hr'
      exact ⟨hlisted.trans hm, hlisted.trans hl⟩

/-- A page of a covered period. -/
theorem IsRead.page {period : TranchePeriod} (h : IsRead decimal q cursor s r)
    (hperiod : r.found.period = some period) (hcovered : period.isCovered) :
    RotationRunList.listRuns decimal r.listed.db r.names period q.window q.scope q.order cursor
      q.limit = .ok r.found.items := by
  rcases listRuns_ok h.found with ⟨-, -, hfound⟩ | ⟨asOf, -, hat, hitems⟩
  · rw [hfound] at hperiod
    cases hperiod
  · obtain rfl := Option.some.inj (hat.symm.trans hperiod)
    rwa [if_pos hcovered] at hitems

/-- A later page's period ends where its cursor says. -/
theorem IsRead.period_eq {c : RotationRunCursor} (h : IsRead decimal q (some c) s r) :
    r.found.period = some (periodAt r.measured.db q c.asOf) := by
  rcases listRuns_ok h.found with ⟨hnone, -, -⟩ | ⟨asOf, hasOf, hat, -⟩
  · cases hnone
  · have hasOf : c.asOf = asOf := Option.some.inj hasOf
    rw [hat, hasOf]

/-- The pages of a covered period are read by its order's keyset, on the tables of each. -/
theorem Reads.keyset {K : Type*} [LinearOrder K] {key : Entry → K}
    {cursorKey : RotationRunCursor → K} {held : Entry → Prop}
    (ho : Ordered decimal q.order key cursorKey held) (hlimit : 1 ≤ q.limit)
    {period : TranchePeriod} (hcovered : period.isCovered)
    (h : Reads decimal q cursor s reads)
    (hfirst : ∀ r ∈ reads.head?, r.found.period = some period)
    (hsame : ∀ r ∈ reads, periodAt r.measured.db q period.asOf = period)
    (hheld : ∀ r ∈ reads, ∀ e ∈ listed r.listed.db period q.scope, held e) :
    ∃ entries, KeysetReads key q.limit.toNat (cursor.map cursorKey)
        (reads.map (fun r => listed r.listed.db period q.scope)) entries ∧
      (reads.flatMap (fun r => r.found.items.items)).map RotationRun.key =
        entries.map Prod.fst := by
  induction h with
  | last read hnext =>
    have hpage := read.page (hfirst _ rfl) hcovered
    obtain ⟨hitems, hend, -⟩ := RotationRunList.listRuns_page ho hlimit hpage
    refine ⟨_, KeysetReads.last (hend hnext), ?_⟩
    rw [List.take_of_length_le (hend hnext)] at hitems
    rw [List.flatMap_singleton, hitems]
  | @next cursor c s r reads read hnext rest ih =>
    have hpage := read.page (hfirst _ rfl) hcovered
    obtain ⟨hitems, -, hcursor⟩ := RotationRunList.listRuns_page ho hlimit hpage
    obtain ⟨hasOf, e, hlast, hkey, hstart, hpool⟩ := hcursor _ hnext
    have hmem := (mem_rowsAfter.mp (List.mem_of_mem_take (List.mem_of_getLast? hlast))).1
    have hcursorKey := ho.cursor e _ (hheld _ List.mem_cons_self e hmem) hkey hstart hpool
    have hrest := fun r hr => hsame r (List.mem_cons_of_mem _ hr)
    have hperiod : ∀ r ∈ reads.head?, r.found.period = some period := by
      intro r' hr'
      cases reads with
      | nil => cases hr'
      | cons r'' reads =>
        cases hr'
        rw [rest.head.period_eq, hasOf, hrest _ List.mem_cons_self]
    obtain ⟨entries, hreads, hkeys⟩ := ih hperiod hrest
      (fun r hr => hheld r (List.mem_cons_of_mem _ hr))
    rw [Option.map_some, hcursorKey] at hreads
    refine ⟨_, KeysetReads.next hlast hreads, ?_⟩
    rw [List.flatMap_cons, List.map_append, List.map_append, hitems, hkeys]

theorem written_through {db : Analytics Pubkey} {first : Int} {n : Nat}
    (h : RunsDrawn db first n) {through : Int}
    (hw : RotationRunList.findWrittenThrough db = some through) :
    0 < n ∧ through = first + (n : Int) * tranche := by
  have hlast : RotationRunList.findWrittenThrough db =
      db.tables.progress.lastTranche.map (· + tranche) := by
    rw [RotationRunList.findWrittenThrough, Analytic.Tables.progress, Option.map_map]
    rfl
  rw [hlast, h.grid.lastTranche] at hw
  split_ifs at hw with hn
  · cases hw
  · have hthrough : first + ((n : Int) - 1) * tranche + tranche = through := Option.some.inj hw
    refine ⟨by omega, ?_⟩
    rw [← hthrough, tranche_eq]
    omega

theorem measured_since {db : Analytics Pubkey} {first : Int} {n : Nat}
    (h : RunsDrawn db first n) (hn : 0 < n) (protocol : Protocol) :
    RotationRunList.findMeasuredSince db protocol =
      if protocol = .meteoraDammV2 then some first else none := by
  cases protocol with
  | meteoraDammV2 =>
    have hkeys : db.tables.tranches.first?.map Prod.fst = db.tables.tranches.keys.head? := by
      simp [OrdMap.first?, OrdMap.keys]
    rw [RotationRunList.findMeasuredSince, hkeys, h.grid.tranches]
    obtain ⟨k, rfl⟩ := Nat.exists_eq_succ_of_ne_zero hn.ne'
    simp [grid, List.range'_succ]
  | meteoraDlmm => rfl

omit [DecidableEq W] in
/-- Where a tranche is written, the runs drawn are those of the facts. -/
theorem drawn_of_written {s : AnalyticState W Pubkey} (hs : RunsInv s) {through : Int}
    (hw : RotationRunList.findWrittenThrough s.db = some through) :
    ∃ first n, RunsDrawn s.db first n ∧ 0 < n ∧ through = first + (n : Int) * tranche := by
  have hexecuted : s.executed ≠ [] := by
    intro hnil
    rw [hs.inv.fresh hnil] at hw
    cases hw
  obtain ⟨first, n, hruns⟩ := hs.running hexecuted
  exact ⟨first, n, hruns, written_through hruns hw⟩

/-- The volume of a run stands still from page to page, and a cursor holds that of every run
listed. -/
structure VolumeKept (period : TranchePeriod) (scope : RotationRunScope)
    (reads : List (PageRead W)) (k : Pubkey ×ₗ Int) : Prop where
  held : ∀ r ∈ reads, ∀ e ∈ listed r.listed.db period scope, Entry.Held e
  same : ∃ v, ∀ r ∈ reads, ∀ run, r.listed.db.runs.runs.get? k = some run →
    volumeKey run.volumeUsd = v

/-- Of a run, the row a page finds of it: one, wherever its list is read. -/
theorem listed_row {db : Analytics Pubkey} {period : TranchePeriod} {scope : RotationRunScope}
    {e : Entry} (he : e ∈ db.runs.runs.entries) (hscope : e.inScope scope)
    (hperiod : e.inPeriod period) :
    (listed db period scope).filter (fun e' : Entry => e'.1 = e.1) = [e] := by
  apply filter_key_eq (f := Prod.fst)
  · exact nodup_map_filter db.runs.runs.keys_nodup _
  · rw [listed, List.mem_filter, decide_eq_true_eq]
    exact ⟨he, hscope, hperiod⟩

/-- What the tables of a walk have in common: its period, and the runs started in it. -/
theorem Reads.stable (hs : AnalyticReachable s) (h : Reads decimal q none s (r :: reads))
    {period : TranchePeriod} (hperiod : r.found.period = some period) :
    (∀ r' ∈ r :: reads, periodAt r'.measured.db q period.asOf = period) ∧
    ∀ r' ∈ r :: reads, ∀ r'' ∈ r :: reads, ∀ e ∈ r'.listed.db.runs.runs.entries,
      Entry.startedAt e < period.asOf → ∃ run, r''.listed.db.runs.runs.get? e.1 = some run := by
  have hread := h.head
  rcases listRuns_ok hread.found with ⟨-, -, hfound⟩ | ⟨asOf, hasOf, hat, -⟩
  · rw [hfound] at hperiod
    cases hperiod
  have hwritten : RunsInv r.written :=
    AnalyticReachable.runs (Relation.ReflTransGen.trans hs hread.written)
  obtain ⟨first, n, hruns, hn, hthrough⟩ := drawn_of_written hwritten hasOf
  obtain rfl := Option.some.inj (hat.symm.trans hperiod)
  have hend : (periodAt r.measured.db q asOf).asOf = asOf := rfl
  have hmeasured : ∀ r' ∈ r :: reads, RotationRunList.findMeasuredSince r'.measured.db q.protocol =
      if q.protocol = .meteoraDammV2 then some first else none := by
    intro r' hr'
    obtain ⟨-, n', hlater⟩ := hruns.steps hwritten (h.reached_head r' hr').1
    exact measured_since hlater.runs (hn.trans_le hlater.le) q.protocol
  constructor
  · intro r' hr'
    rw [hend, periodAt, periodAt, hmeasured r' hr', hmeasured r List.mem_cons_self]
  · intro r' hr' r'' hr'' e he hlt
    rw [hend, hthrough] at hlt
    obtain ⟨-, n', hlater⟩ := hruns.steps hwritten (h.reached_head r' hr').2
    obtain ⟨-, n'', hlater'⟩ := hruns.steps hwritten (h.reached_head r'' hr'').2
    have hsome : (r'.listed.db.runs.runs.get? e.1).isSome := by
      rw [OrdMap.get?_eq_some.mpr he]
      rfl
    have hstarted := (hlater.started (Entry.poolAddress e) (Entry.startedAt e) hlt).mp hsome
    exact Option.isSome_iff_exists.mp
      ((hlater'.started (Entry.poolAddress e) (Entry.startedAt e) hlt).mpr hstarted)

/-- A run whose key in the order stands still is read once. -/
theorem Reads.count_eq_one {K : Type*} [LinearOrder K] {key : Entry → K}
    {cursorKey : RotationRunCursor → K} {held : Entry → Prop}
    (ho : Ordered decimal q.order key cursorKey held) (hlimit : 1 ≤ q.limit)
    (hs : AnalyticReachable s) (h : Reads decimal q none s (r :: reads))
    {period : TranchePeriod} (hperiod : r.found.period = some period)
    (hcovered : period.isCovered)
    (hheld : ∀ r' ∈ r :: reads, ∀ e ∈ listed r'.listed.db period q.scope, held e)
    {e : Entry} (he : ∃ r' ∈ r :: reads, e ∈ r'.listed.db.runs.runs.entries)
    (hscope : e.inScope q.scope) (hin : e.inPeriod period) {k : K}
    (hkey : ∀ r' ∈ r :: reads, ∀ run, r'.listed.db.runs.runs.get? e.1 = some run →
      key (e.1, run) = k) :
    ((r :: reads).flatMap (fun r => r.found.items.items)).countP
      (fun i => RotationRun.key i = e.1) = 1 := by
  obtain ⟨r', hr', he⟩ := he
  have hstarted : Entry.startedAt e < period.asOf := (of_decide_eq_true hin).2
  obtain ⟨hsame, hrows⟩ := h.stable hs hperiod
  obtain ⟨entries, hreads, hkeys⟩ := h.keyset ho hlimit hcovered
    (fun r' hr' => by cases hr'; exact hperiod) hsame hheld
  have hnodup : ∀ rows ∈ (r :: reads).map (fun r => listed r.listed.db period q.scope),
      (rows.map key).Nodup := by
    intro rows hrows
    obtain ⟨r'', -, rfl⟩ := List.mem_map.mp hrows
    have hfirst := nodup_map_filter r''.listed.db.runs.runs.keys_nodup
      (fun e : Entry => decide (e.inScope q.scope ∧ e.inPeriod period))
    rw [List.Nodup, List.pairwise_map] at hfirst ⊢
    exact hfirst.imp (fun hne hab => hne (ho.key_injective _ _ hab))
  have hrow : ∀ rows ∈ (r :: reads).map (fun r => listed r.listed.db period q.scope),
      ∃ a, rows.filter (fun e' : Entry => e'.1 = e.1) = [a] ∧ key a = k := by
    intro rows hmem
    obtain ⟨r'', hr'', rfl⟩ := List.mem_map.mp hmem
    obtain ⟨run, hrun⟩ := hrows r' hr' r'' hr'' e he hstarted
    exact ⟨(e.1, run), listed_row (OrdMap.get?_eq_some.mp hrun) hscope hin, hkey r'' hr'' run hrun⟩
  have hcount := hreads.countP_eq hnodup hrow
  have hitems : ((r :: reads).flatMap (fun r => r.found.items.items)).countP
      (fun i => RotationRun.key i = e.1) = entries.countP (fun e' : Entry => e'.1 = e.1) := by
    have hmap := congrArg (List.countP (fun k => decide (k = e.1))) hkeys
    rw [List.countP_map, List.countP_map] at hmap
    exact hmap
  rw [hitems, hcount]
  rfl

/-- Over a covered period, a run started in it is read once while cycles are written: by start,
always; by volume, when its volume stands still. A period not covered has no page of runs. -/
theorem Reads.runs_once (hdecimal : HoldsSixPlaces decimal) (hlimit : 1 ≤ q.limit)
    (hs : AnalyticReachable s) (h : Reads decimal q none s (r :: reads)) :
    (∀ period, r.found.period = some period → period.isCovered →
      ∀ r' ∈ r :: reads, ∀ e ∈ r'.listed.db.runs.runs.entries, Entry.inScope e q.scope →
        Entry.inPeriod e period →
          (q.order = .volume → VolumeKept period q.scope (r :: reads) e.1) →
          ((r :: reads).flatMap (fun r => r.found.items.items)).countP
            (fun i => RotationRun.key i = e.1) = 1) ∧
    ((∀ period, r.found.period = some period → ¬ period.isCovered) →
      reads = [] ∧ r.found.items = .empty) := by
  constructor
  · intro period hperiod hcovered r' hr' e he hscope hin hvolume
    cases horder : q.order with
    | volume =>
      obtain ⟨hheld, v, hv⟩ := hvolume horder
      have ho : Ordered decimal q.order Entry.byVolume RotationRunList.cursorByVolume Entry.Held :=
        horder ▸ RotationRunList.ordered_volume hdecimal
      apply h.count_eq_one ho hlimit hs hperiod hcovered hheld ⟨r', hr', he⟩ hscope hin
        (k := toLex (OrderDual.toDual v, toLex (Entry.poolAddress e, Entry.startedAt e)))
      intro r'' hr'' run hrun
      rw [Entry.byVolume, Entry.volumeKey, hv r'' hr'' run hrun]
      rfl
    | at_ =>
      have ho : Ordered decimal q.order Entry.byStart RotationRunList.cursorByStart
          (fun _ => True) := horder ▸ RotationRunList.ordered_start
      apply h.count_eq_one ho hlimit hs hperiod hcovered (fun _ _ _ _ => trivial) ⟨r', hr', he⟩
        hscope hin (k := Entry.byStart e)
      intro r'' hr'' run hrun
      rfl
  · intro hnone
    have hitems : r.found.items = .empty := by
      rcases listRuns_ok h.head.found with ⟨-, -, hfound⟩ | ⟨asOf, -, hat, hitems⟩
      · rw [hfound]
      · rwa [if_neg (hnone _ hat)] at hitems
    refine ⟨?_, hitems⟩
    cases h with
    | last _ _ => rfl
    | next _ hnext _ =>
      rw [hitems] at hnext
      cases hnext

end Walk

end Read

section Traded

open Analytic (PoolTranche TrancheContents minutes)

/-- Addresses by their bytes, the order of their text where only the last byte differs. -/
@[reducible] def addressOrder : LinearOrder Pubkey :=
  LinearOrder.lift' (fun p => p.bytes.map UInt8.toNat) (by
    intro a b h
    obtain ⟨bytes, size⟩ := a
    obtain ⟨bytes', size'⟩ := b
    have hbytes : bytes = bytes' := List.map_injective_iff.mpr (fun _ _ => UInt8.toNat_inj.mp) h
    subst hbytes
    rfl)

attribute [local instance] addressOrder

def poolAt (b : UInt8) : Pubkey := ⟨List.replicate 31 0 ++ [b], rfl⟩

/-- A pool marked in a tranche, with its volume. -/
structure Mark where
  bucket : Int
  pool : UInt8
  volume : ℚ

def Mark.contents (m : Mark) : PoolTranche Pubkey :=
  ⟨poolAt m.pool, 1, some (fun c => if c = .volumeInA then m.volume else 0), some 2⟩

def markedContents (marks : List Mark) (bucket : Int) : TrancheContents Pubkey :=
  ⟨(marks.filter (fun m => m.bucket = bucket)).map Mark.contents, []⟩

/-- The most of six places that 96 bits hold. -/
def heldDecimal (q : ℚ) (field : String) : Except RepositoryError Decimal :=
  match [6, 5, 4, 3, 2, 1, 0].find? (fun places => (roundAt places q).natAbs < 2 ^ 96) with
  | some places =>
    if h : (roundAt places q).natAbs < 2 ^ 96 ∧ places ≤ 28 then
      .ok ⟨roundAt places q, places, h.1, h.2⟩
    else .error (.integrity field)
  | none => .error (.integrity field)

theorem floor_add_half (m : Int) : ((m : ℚ) + 1 / 2).floor = m := by
  change ⌊(m : ℚ) + 1 / 2⌋ = m
  rw [Int.floor_intCast_add]
  norm_num

theorem roundAt_six (m : Int) : roundAt 6 ((m : ℚ) / 10 ^ 6) = m := by
  have hdigits : (m : ℚ) / 10 ^ 6 * 10 ^ 6 = m := by field_simp
  rw [roundAt]
  split_ifs
  · rw [hdigits, floor_add_half]
  · have hneg : -((m : ℚ) / 10 ^ 6) * 10 ^ 6 = ((-m : Int) : ℚ) := by
      rw [neg_mul, hdigits, Int.cast_neg]
    rw [hneg, floor_add_half, neg_neg]

theorem heldDecimal_holds : HoldsSixPlaces heldDecimal := by
  intro m field d hm h
  have hfits : (roundAt 6 ((m : ℚ) / 10 ^ 6)).natAbs < 2 ^ 96 := by rwa [roundAt_six]
  rw [heldDecimal, List.find?_cons_of_pos (by simpa using hfits)] at h
  simp only [hfits, show 6 ≤ 28 by decide, and_self, dif_pos, Except.ok.injEq] at h
  rw [← h, Decimal.value]
  simp only [roundAt_six]

def noNames : Names := ⟨fun _ => none, fun _ => none, fun _ => none⟩

/-- A page read between two cycles. -/
def pageOf (q : RunsRequest) (cursor : Option RotationRunCursor) (db : Analytics Pubkey) :
    Except RotationRunsError (Measured (Page RotationRun) TranchePeriod) :=
  listRuns (lookup heldDecimal noNames db db db) q.window q.scope q.protocol q.order cursor q.limit

def foundOf (q : RunsRequest) (cursor : Option RotationRunCursor) (db : Analytics Pubkey) :
    Measured (Page RotationRun) TranchePeriod :=
  (pageOf q cursor db).toOption.getD ⟨none, .empty⟩

def nextOf (found : Measured (Page RotationRun) TranchePeriod) : Option RotationRunCursor :=
  match found.items.nextCursor with
  | some (.rotationRun c) => some c
  | _ => none

/-- Whether a page is read of each of two tables, the second one the last. -/
def twoPages (q : RunsRequest) (db db' : Analytics Pubkey) : Bool :=
  (pageOf q none db).toOption.isSome && (nextOf (foundOf q none db)).isSome &&
    (pageOf q (nextOf (foundOf q none db)) db').toOption.isSome &&
      (foundOf q (nextOf (foundOf q none db)) db').items.nextCursor.isNone

theorem foundOf_eq {q : RunsRequest} {cursor : Option RotationRunCursor} {db : Analytics Pubkey}
    (h : (pageOf q cursor db).toOption.isSome) : pageOf q cursor db = .ok (foundOf q cursor db) := by
  rw [foundOf]
  cases hpage : pageOf q cursor db with
  | error e =>
    rw [hpage] at h
    cases h
  | ok found => rfl

theorem nextOf_eq {found : Measured (Page RotationRun) TranchePeriod} {c : RotationRunCursor}
    (h : nextOf found = some c) : found.items.nextCursor = some (.rotationRun c) := by
  rw [nextOf] at h
  split at h
  · cases h
    assumption
  · cases h

/-- Two pages, the tables of the second one reached from those of the first. -/
theorem twoPages_reads {q : RunsRequest} {s s' : AnalyticState Unit Pubkey}
    (hsteps : Relation.ReflTransGen AnalyticStep s s') (h : twoPages q s.db s'.db) :
    ∃ found found', found = foundOf q none s.db ∧ found' = foundOf q (nextOf found) s'.db ∧
      Reads heldDecimal q none s [⟨s, s, s, noNames, found⟩, ⟨s', s', s', noNames, found'⟩] := by
  simp only [twoPages, Bool.and_eq_true, Option.isSome_iff_exists, Option.isNone_iff_eq_none] at h
  obtain ⟨⟨⟨hfirst, c, hc⟩, hsecond⟩, hend⟩ := h
  have hfirst := foundOf_eq (Option.isSome_iff_exists.mpr hfirst)
  have hsecond := foundOf_eq (Option.isSome_iff_exists.mpr hsecond)
  refine ⟨_, _, rfl, rfl, ?_⟩
  rw [hc] at hsecond hend ⊢
  exact Reads.next ⟨Relation.ReflTransGen.refl, Relation.ReflTransGen.refl,
    Relation.ReflTransGen.refl, hfirst⟩ (nextOf_eq hc)
    (Reads.last ⟨hsteps, Relation.ReflTransGen.refl, Relation.ReflTransGen.refl, hsecond⟩ hend)

/-- Whether the pages miss or repeat a run of `db` started in the first one's period. -/
def misses (q : RunsRequest) (found : List (Measured (Page RotationRun) TranchePeriod))
    (db : Analytics Pubkey) : Bool :=
  (found.head?.bind Measured.period).any fun period =>
    db.runs.runs.entries.any fun e : Entry => e.inScope q.scope ∧ e.inPeriod period ∧
      (found.flatMap (fun f => f.items.items)).countP (fun i => RotationRun.key i = e.1) ≠ 1

/-- The runs of the last hour, the most volume first, one a page. -/
def hourRequest : RunsRequest := ⟨.hour, .protocol .meteoraDammV2, .meteoraDammV2, .volume, 1⟩

def dayRequest : RunsRequest := { hourRequest with window := .day, order := .at_ }

/-- A run of 13:00, and one of 13:35 that goes on at 13:40. -/
def growing : List Mark :=
  [⟨minutes 780, 0, 10⟩, ⟨minutes 815, 1, 5⟩, ⟨minutes 820, 1, 20⟩]

/-- Two runs of volumes a `Decimal` does not tell apart. -/
def huge : List Mark :=
  [⟨minutes 780, 0, 10 ^ 23 + 4 / 10 ^ 6⟩, ⟨minutes 815, 1, 10 ^ 23 + 3 / 10 ^ 6⟩]

def openingClocks : List Int := [minutes 740, minutes 830]

def tradedAt (marks : List Mark) (clocks : List Int) : Analytics Pubkey :=
  Analytics.cyclesAt (markedContents marks) clocks

def grown : Analytics Pubkey :=
  (tradedAt growing openingClocks).cycleAt (markedContents growing) (minutes 835)

/-- The pages of an hour, a cycle at 13:55 between them. -/
theorem growing_reads : ∃ (s : AnalyticState Unit Pubkey) (r r' : PageRead Unit),
    AnalyticReachable s ∧ Reads heldDecimal hourRequest none s [r, r'] ∧
      r.listed.db = tradedAt growing openingClocks ∧ r'.listed.db = grown ∧
      r.found = foundOf hourRequest none (tradedAt growing openingClocks) ∧
      r'.found = foundOf hourRequest (nextOf r.found) grown := by
  obtain ⟨s, hs, hdb⟩ := AnalyticReachable.cyclesAt (markedContents growing) () openingClocks
  obtain ⟨s', hsteps, hdb'⟩ := hs.cycleAt (markedContents growing) () (minutes 835)
  have hpages : twoPages hourRequest (tradedAt growing openingClocks) grown := by decide +kernel
  have hdb : s.db = tradedAt growing openingClocks := hdb
  have hdb' : s'.db = grown := by rw [hdb', hdb, grown]
  rw [← hdb, ← hdb'] at hpages
  obtain ⟨found, found', hfound, hfound', hreads⟩ := twoPages_reads hsteps hpages
  rw [hdb] at hfound
  rw [hdb'] at hfound'
  exact ⟨s, _, _, hs, hreads, hdb, hdb', hfound, hfound'⟩

def settledKey : Pubkey ×ₗ Int := toLex (poolAt 0, minutes 780)

/-- The run of 13:00 stands still and is read once, while the other one grows across the cursor. -/
theorem runs_once_growing : ∃ (s : AnalyticState Unit Pubkey) (reads : List (PageRead Unit)),
    Reads heldDecimal hourRequest none s reads ∧ reads.length = 2 ∧
      (reads.flatMap (fun r => r.found.items.items)).countP
        (fun i => RotationRun.key i = settledKey) = 1 := by
  obtain ⟨s, r, r', hs, hreads, hdb, hdb', hfound, -⟩ := growing_reads
  refine ⟨s, _, hreads, rfl, ?_⟩
  have hrun : ((tradedAt growing openingClocks).runs.runs.get? settledKey).isSome := by
    decide +kernel
  have hheld : ∀ db ∈ [tradedAt growing openingClocks, grown], ∀ e ∈ db.runs.runs.entries,
      (roundAt 6 e.2.volumeUsd).natAbs < 2 ^ 96 := by decide +kernel
  have hsame : ∀ db ∈ [tradedAt growing openingClocks, grown],
      ∀ run ∈ db.runs.runs.get? settledKey, volumeKey run.volumeUsd = 10 := by decide +kernel
  have hperiod : (foundOf hourRequest none (tradedAt growing openingClocks)).period.any
      (fun period => period.isCovered ∧ period.from_ ≤ minutes 780 ∧ minutes 780 < period.asOf) := by
    decide +kernel
  obtain ⟨run, hrun⟩ := Option.isSome_iff_exists.mp hrun
  obtain ⟨period, hperiod, hcovered⟩ := (Option.any_eq_true ..).mp hperiod
  obtain ⟨hcovered, hin⟩ := of_decide_eq_true hcovered
  have hlisted : ∀ r'' ∈ [r, r'], r''.listed.db ∈ [tradedAt growing openingClocks, grown] := by
    intro r'' hr''
    rcases List.mem_pair.mp hr'' with rfl | rfl
    · simp [hdb]
    · simp [hdb']
  refine (hreads.runs_once heldDecimal_holds (by decide) hs).1 period (hfound ▸ hperiod) hcovered r
    List.mem_cons_self (settledKey, run) ?_ rfl (decide_eq_true hin) ?_
  · rw [hdb]
    exact OrdMap.get?_eq_some.mp hrun
  · intro _
    exact ⟨fun r'' hr'' e he => hheld _ (hlisted r'' hr'') e (List.mem_filter.mp he).1, 10,
      fun r'' hr'' => hsame _ (hlisted r'' hr'')⟩

/-- A period not covered has no page; a run that grows across the cursor is missed; and one is
missed when the cursor rounds another's volume. -/
theorem runs_missed :
    (∃ (s : AnalyticState Unit Pubkey) (r : PageRead Unit), AnalyticReachable s ∧
      Reads heldDecimal dayRequest none s [r] ∧ misses dayRequest [r.found] r.listed.db) ∧
    (∃ (s : AnalyticState Unit Pubkey) (r r' : PageRead Unit), AnalyticReachable s ∧
      Reads heldDecimal hourRequest none s [r, r'] ∧
      (∀ db ∈ [r.listed.db, r'.listed.db], ∀ e ∈ db.runs.runs.entries, Entry.Held e) ∧
      misses hourRequest [r.found, r'.found] r.listed.db) ∧
    ∃ (s : AnalyticState Unit Pubkey) (r r' : PageRead Unit), AnalyticReachable s ∧
      Reads heldDecimal hourRequest none s [r, r'] ∧ r.listed = r'.listed ∧
      misses hourRequest [r.found, r'.found] r.listed.db := by
  refine ⟨?_, ?_, ?_⟩
  · obtain ⟨s, hs, hdb⟩ := AnalyticReachable.cyclesAt (markedContents growing) () openingClocks
    have hdb : s.db = tradedAt growing openingClocks := hdb
    have hpage : (pageOf dayRequest none (tradedAt growing openingClocks)).toOption.isSome := by
      decide +kernel
    have hend : (foundOf dayRequest none (tradedAt growing openingClocks)).items.nextCursor =
        none := by decide +kernel
    have hmisses : misses dayRequest [foundOf dayRequest none (tradedAt growing openingClocks)]
        (tradedAt growing openingClocks) := by decide +kernel
    rw [← hdb] at hpage hend hmisses
    exact ⟨s, ⟨s, s, s, noNames, _⟩, hs, Reads.last ⟨Relation.ReflTransGen.refl,
      Relation.ReflTransGen.refl, Relation.ReflTransGen.refl, foundOf_eq hpage⟩ hend, hmisses⟩
  · obtain ⟨s, r, r', hs, hreads, hdb, hdb', hfound, hfound'⟩ := growing_reads
    have hheld : ∀ db ∈ [tradedAt growing openingClocks, grown], ∀ e ∈ db.runs.runs.entries,
        (roundAt 6 e.2.volumeUsd).natAbs < 2 ^ 96 := by decide +kernel
    have hmisses : misses hourRequest [foundOf hourRequest none (tradedAt growing openingClocks),
        foundOf hourRequest (nextOf (foundOf hourRequest none (tradedAt growing openingClocks)))
          grown] (tradedAt growing openingClocks) := by decide +kernel
    refine ⟨s, r, r', hs, hreads, ?_, ?_⟩
    · rw [hdb, hdb']
      exact hheld
    · rw [hdb, hfound', hfound]
      exact hmisses
  · obtain ⟨s, hs, hdb⟩ := AnalyticReachable.cyclesAt (markedContents huge) () openingClocks
    have hdb : s.db = tradedAt huge openingClocks := hdb
    have hpages : twoPages hourRequest (tradedAt huge openingClocks)
        (tradedAt huge openingClocks) := by decide +kernel
    have hmisses : misses hourRequest [foundOf hourRequest none (tradedAt huge openingClocks),
        foundOf hourRequest (nextOf (foundOf hourRequest none (tradedAt huge openingClocks)))
          (tradedAt huge openingClocks)] (tradedAt huge openingClocks) := by decide +kernel
    rw [← hdb] at hpages hmisses
    obtain ⟨found, found', rfl, rfl, hreads⟩ :=
      twoPages_reads (Relation.ReflTransGen.refl (a := s)) hpages
    exact ⟨s, _, _, hs, hreads, rfl, hmisses⟩

end Traded

end YogSothoth.RotationRunService
