import Mathlib.Algebra.Order.Group.Int
import Mathlib.Data.List.Induction
import YogSothoth.Framework.Escalation
import YogSothoth.Signals.Engine

namespace YogSothoth.Signals

open Context (seconds)

/-- The stored signals of a detector and a pool. -/
def storedOf (d : Detector) (pool : Pubkey) (rows : List Signal) : List Signal :=
  rows.filter (fun r => r.poolAddress = pool ∧ r.detector = d.name)

theorem mem_storedOf {d : Detector} {pool : Pubkey} {rows : List Signal} {r : Signal} :
    r ∈ storedOf d pool rows ↔ r ∈ rows ∧ r.poolAddress = pool ∧ r.detector = d.name := by
  rw [storedOf, List.mem_filter, decide_eq_true_iff]

theorem storedOf_other {d : Detector} {signals : List Signal}
    (h : ∀ s ∈ signals, s.detector ≠ d.name) (pool : Pubkey) : storedOf d pool signals = [] := by
  apply List.filter_eq_nil_iff.mpr
  intro s hs hmem
  exact h s hs (of_decide_eq_true hmem).2

theorem storedOf_append (d : Detector) (pool : Pubkey) (rows signals : List Signal) :
    storedOf d pool (rows ++ signals) = storedOf d pool rows ++ storedOf d pool signals :=
  List.filter_append rows signals

theorem latestSeverityByPool_eq (rows : List Signal) (d : Detector) (since : Instant)
    (pool : Pubkey) : latestSeverityByPool rows d.name since pool =
      (latestSince Signal.triggeredAt (columnInstant since) (storedOf d pool rows)).map
        Signal.severity := by
  have hrows : rows.filter (fun r => r.poolAddress = pool ∧ r.detector = d.name ∧
      columnInstant since < r.triggeredAt) =
      (storedOf d pool rows).filter (fun r => columnInstant since < r.triggeredAt) := by
    rw [storedOf, List.filter_filter]
    apply List.filter_congr
    intro r _
    rw [← Bool.decide_and, decide_eq_decide]
    tauto
  rw [latestSeverityByPool, hrows, latestSince]

/-- Distinct instants leave the lookup one answer, in whatever order it finds the rows. -/
theorem latestSeverityByPool_perm {rows found : List Signal} {d : Detector} {pool : Pubkey}
    (hperm : found.Perm rows)
    (hrows : Escalates (seconds d.cooldownSecs) Signal.triggeredAt Signal.severity
      (storedOf d pool rows)) (since : Instant) :
    latestSeverityByPool found d.name since pool = latestSeverityByPool rows d.name since pool := by
  have hstored : (storedOf d pool found).Perm (storedOf d pool rows) := hperm.filter _
  have hsince := hstored.filter (fun r => columnInstant since < r.triggeredAt)
  have hkeys : ((storedOf d pool found).filter (fun r => columnInstant since < r.triggeredAt)).map
      (fun r => OrderDual.toDual r.triggeredAt) |>.Nodup := by
    apply (hsince.map _).nodup_iff.mpr
    exact (hrows.filter _).nodup
  rw [latestSeverityByPool_eq, latestSeverityByPool_eq, latestSince, latestSince,
    orderBy_eq_of_perm hsince hkeys]

/-- Ticks whose instants stand apart in the column, past the instant it counts from. -/
structure Clocked (ticks : List Tick) : Prop where
  later : ticks.Pairwise (fun s t => columnInstant s.evaluatedAt < columnInstant t.evaluatedAt)
  counted : ∀ t ∈ ticks, TIMESTAMPTZ_EPOCH < columnInstant t.evaluatedAt

theorem Clocked.init {ticks : List Tick} {t : Tick} (h : Clocked (ticks ++ [t])) :
    Clocked ticks :=
  ⟨(List.pairwise_append.mp h.later).1, fun s hs => h.counted s (List.mem_append_left _ hs)⟩

theorem Clocked.last {ticks : List Tick} {t : Tick} (h : Clocked (ticks ++ [t])) :
    (∀ s ∈ ticks, columnInstant s.evaluatedAt < columnInstant t.evaluatedAt) ∧
      TIMESTAMPTZ_EPOCH < columnInstant t.evaluatedAt := by
  refine ⟨?_, h.counted t (List.mem_append_right _ List.mem_cons_self)⟩
  intro s hs
  exact (List.pairwise_append.mp h.later).2.2 s hs t List.mem_cons_self

theorem tdiv_nonpos {t : Int} (h : t ≤ 0) : t.tdiv 1000 ≤ 0 := by
  have hneg : 0 ≤ (-t).tdiv 1000 := Int.tdiv_nonneg (by omega) (by decide)
  rw [Int.neg_tdiv] at hneg
  omega

/-- Cut towards an epoch, an instant moved by whole cuts passes the same marks past the epoch. -/
theorem cut_sub_lt_iff {epoch t s : Int} (k : Int)
    (hs : epoch < epoch + (s - epoch).tdiv 1000 * 1000)
    (ht : epoch < epoch + (t - epoch).tdiv 1000 * 1000) :
    (epoch + (t - k * 1000 - epoch).tdiv 1000 * 1000 < epoch + (s - epoch).tdiv 1000 * 1000 ↔
      epoch + (t - epoch).tdiv 1000 * 1000 - k * 1000 < epoch + (s - epoch).tdiv 1000 * 1000) ∧
    (epoch + (t - k * 1000 - epoch).tdiv 1000 * 1000 < epoch + (s - epoch).tdiv 1000 * 1000 ↔
      t - k * 1000 < epoch + (s - epoch).tdiv 1000 * 1000) := by
  generalize (s - epoch).tdiv 1000 = mark at hs ⊢
  have hnonneg : 0 ≤ t - epoch := by
    by_contra hneg
    have hcut : (t - epoch).tdiv 1000 ≤ 0 := tdiv_nonpos (by omega)
    omega
  have hcut : (t - epoch).tdiv 1000 = (t - epoch) / 1000 := Int.tdiv_eq_ediv_of_nonneg hnonneg
  rw [hcut] at ht ⊢
  by_cases hmoved : 0 ≤ t - k * 1000 - epoch
  · rw [Int.tdiv_eq_ediv_of_nonneg hmoved]
    omega
  · have hcut' : (t - k * 1000 - epoch).tdiv 1000 ≤ 0 := tdiv_nonpos (by omega)
    omega

theorem cut_le {epoch t : Int} (ht : epoch < epoch + (t - epoch).tdiv 1000 * 1000) :
    epoch + (t - epoch).tdiv 1000 * 1000 ≤ t := by
  have hnonneg : 0 ≤ t - epoch := by
    by_contra hneg
    have hcut : (t - epoch).tdiv 1000 ≤ 0 := tdiv_nonpos (by omega)
    omega
  rw [Int.tdiv_eq_ediv_of_nonneg hnonneg]
  omega

/-- Against a stored instant, the cut start of a window is the start, and the cut instant's. -/
theorem columnInstant_sub_lt_iff {t s : Instant} (c : Nat)
    (hs : TIMESTAMPTZ_EPOCH < columnInstant s) (ht : TIMESTAMPTZ_EPOCH < columnInstant t) :
    (columnInstant (t - seconds c) < columnInstant s ↔
      columnInstant t - seconds c < columnInstant s) ∧
    (columnInstant (t - seconds c) < columnInstant s ↔ t - seconds c < columnInstant s) := by
  have hmicros : (c : Int) * 10 ^ 9 = c * 10 ^ 6 * 1000 := by omega
  have hseconds : seconds c = (c * 10 ^ 6 : Int) * 1000 := hmicros
  rw [hseconds]
  exact cut_sub_lt_iff (c * 10 ^ 6) hs ht

/-- What the rows hold of the detector: an escalating list a pool, at the clocks of its ticks. -/
structure StoredInv (d : Detector) (ticks : List Tick) (rows : List Signal) : Prop where
  escalates : ∀ pool, Escalates (seconds d.cooldownSecs) Signal.triggeredAt Signal.severity
    (storedOf d pool rows)
  clocks : ∀ r ∈ rows, r.detector = d.name → ∃ t ∈ ticks, r.triggeredAt = columnInstant t.evaluatedAt

theorem StoredInv.clock {d : Detector} {ticks : List Tick} {rows : List Signal}
    (hinv : StoredInv d ticks rows) {pool : Pubkey} {r : Signal} (hr : r ∈ storedOf d pool rows) :
    ∃ s ∈ ticks, r.triggeredAt = columnInstant s.evaluatedAt := by
  obtain ⟨hrow, -, hdetector⟩ := mem_storedOf.mp hr
  exact hinv.clocks r hrow hdetector

theorem Detector.since_eq {d : Detector} {t since : Instant}
    (hcooldown : d.cooldownSecs * 1000 < 2 ^ 63) (h : d.since t = some since) :
    since = t - seconds d.cooldownSecs := by
  have hd : d.cooldown = seconds d.cooldownSecs := if_pos hcooldown
  unfold Detector.since at h
  rw [hd] at h
  split at h
  · exact (Option.some.inj h).symm
  · cases h

/-- A candidate is dropped when the last of its pool's rows in the window is as severe. -/
theorem mem_emittable {candidates : List Signal} {recent : Pubkey → Option Severity} {c : Signal} :
    c ∈ emittable candidates recent ↔
      c ∈ candidates ∧ ∀ last, recent c.poolAddress = some last → last < c.severity := by
  rw [emittable, List.mem_filter]
  cases hrecent : recent c.poolAddress with
  | none => simp
  | some last => simp

section Tick

variable {d : Detector} {ticks : List Tick} {rows : List Signal} {t : Tick}
variable {candidates : List Signal} {since : Instant}

/-- What a tick that reaches the filter looks up. -/
theorem StoredInv.latest (hinv : StoredInv d ticks rows) (hclock : Clocked (ticks ++ [t]))
    (hcooldown : d.cooldownSecs * 1000 < 2 ^ 63) (meets : t.Meets d rows)
    (hsince : d.since t.evaluatedAt = some since) (pool : Pubkey) :
    latestSeverityByPool t.found d.name since pool =
      (latestSince Signal.triggeredAt (columnInstant t.evaluatedAt - seconds d.cooldownSecs)
        (storedOf d pool rows)).map Signal.severity := by
  rw [latestSeverityByPool_perm meets.found (hinv.escalates pool), latestSeverityByPool_eq,
    Detector.since_eq hcooldown hsince, latestSince, latestSince]
  have hfilter : (storedOf d pool rows).filter (fun r =>
      columnInstant (t.evaluatedAt - seconds d.cooldownSecs) < r.triggeredAt) =
      (storedOf d pool rows).filter (fun r =>
        columnInstant t.evaluatedAt - seconds d.cooldownSecs < r.triggeredAt) := by
    apply List.filter_congr
    intro r hr
    obtain ⟨s, hs, hat⟩ := hinv.clock hr
    rw [decide_eq_decide, hat]
    exact (columnInstant_sub_lt_iff d.cooldownSecs (hclock.init.counted s hs) hclock.last.2).1
  rw [hfilter]

/-- A candidate is dropped exactly for a stored signal of its pool as severe, in the window. -/
theorem StoredInv.suppressed_iff (hinv : StoredInv d ticks rows) (hclock : Clocked (ticks ++ [t]))
    (hcooldown : d.cooldownSecs * 1000 < 2 ^ 63) (meets : t.Meets d rows)
    (hsince : d.since t.evaluatedAt = some since) {c : Signal} (hc : c ∈ candidates) :
    c ∉ t.toEmit d candidates since ↔ ∃ r ∈ storedOf d c.poolAddress rows,
      c.severity ≤ r.severity ∧ t.evaluatedAt - seconds d.cooldownSecs < r.triggeredAt ∧
        r.triggeredAt ≤ t.evaluatedAt := by
  have hlast := hclock.last
  have hwindow : ∀ r ∈ storedOf d c.poolAddress rows,
      (columnInstant t.evaluatedAt - seconds d.cooldownSecs < r.triggeredAt ↔
        t.evaluatedAt - seconds d.cooldownSecs < r.triggeredAt) ∧
      r.triggeredAt ≤ columnInstant t.evaluatedAt := by
    intro r hr
    obtain ⟨s, hs, hat⟩ := hinv.clock hr
    have hiff := columnInstant_sub_lt_iff d.cooldownSecs (hclock.init.counted s hs) hlast.2
    rw [hat]
    exact ⟨hiff.1.symm.trans hiff.2, (hlast.1 s hs).le⟩
  rw [Tick.toEmit, mem_emittable, hinv.latest hclock hcooldown meets hsince]
  cases hlatest : latestSince Signal.triggeredAt
      (columnInstant t.evaluatedAt - seconds d.cooldownSecs) (storedOf d c.poolAddress rows) with
  | none =>
    constructor
    · intro hdropped
      exact absurd ⟨hc, fun last h => nomatch h⟩ hdropped
    · intro hstored
      obtain ⟨r, hr, -, hin, -⟩ := hstored
      exact absurd ((hwindow r hr).1.mpr hin) (not_lt.mpr (latestSince_none hlatest hr))
  | some last =>
    obtain ⟨hmem, hin⟩ := latestSince_mem hlatest
    constructor
    · intro hdropped
      refine ⟨last, hmem, ?_, (hwindow last hmem).1.mp hin,
        (hwindow last hmem).2.trans (cut_le hlast.2)⟩
      apply not_lt.mp
      intro hlower
      apply hdropped
      refine ⟨hc, ?_⟩
      intro severity h
      rw [← Option.some.inj h]
      exact hlower
    · intro hstored hemitted
      obtain ⟨r, hr, hsevere, hin', -⟩ := hstored
      have hlower := hemitted.2 last.severity rfl
      have hle := (hinv.escalates c.poolAddress).latest_ge hlatest hr ((hwindow r hr).1.mpr hin')
        (sub_sub_cancel _ _).le (hwindow last hmem).2
      exact absurd (hsevere.trans hle) (not_le.mpr hlower)

/-- A tick leaves the rows as they are, or adds what passes the filter. -/
theorem runTick_rows (d : Detector) (rows : List Signal) (t : Tick) :
    (runTick d rows t).1 = rows ∨ ∃ candidates since, t.evaluated = .ok candidates ∧
      d.since t.evaluatedAt = some since ∧
      (runTick d rows t).1 = rows ++ (t.toEmit d candidates since).map Signal.stored := by
  unfold runTick
  cases hevaluated : t.evaluated with
  | error e => exact .inl rfl
  | ok candidates =>
    simp only
    split
    · exact .inl rfl
    · cases hsince : d.since t.evaluatedAt with
      | none => exact .inl rfl
      | some since =>
        simp only
        split
        · exact .inl rfl
        · split
          · exact .inl rfl
          · split
            · exact .inl rfl
            · exact .inr ⟨candidates, since, rfl, rfl, rfl⟩

/-- Of a pool a tick emits at most one signal. -/
theorem storedOf_toEmit (meets : t.Meets d rows) (hevaluated : t.evaluated = .ok candidates)
    (since : Instant) (pool : Pubkey) :
    storedOf d pool ((t.toEmit d candidates since).map Signal.stored) = [] ∨
      ∃ c ∈ t.toEmit d candidates since, c.poolAddress = pool ∧
        storedOf d pool ((t.toEmit d candidates since).map Signal.stored) = [c.stored] := by
  obtain ⟨hpools, hcandidates⟩ := meets.candidates candidates hevaluated
  have hfilter : storedOf d pool ((t.toEmit d candidates since).map Signal.stored) =
      ((t.toEmit d candidates since).filter (fun c => c.poolAddress = pool)).map
        Signal.stored := by
    rw [storedOf, List.filter_map]
    apply congrArg
    apply List.filter_congr
    intro c hc
    change decide (c.poolAddress = pool ∧ c.detector = d.name) = _
    rw [decide_eq_decide, (hcandidates c (mem_emittable.mp hc).1).1]
    exact and_iff_left rfl
  have hnodup : ((t.toEmit d candidates since).map Signal.poolAddress).Nodup :=
    nodup_map_filter hpools _
  rw [hfilter]
  by_cases hemits : ∃ c ∈ t.toEmit d candidates since, c.poolAddress = pool
  · obtain ⟨c, hc, hpool⟩ := hemits
    refine .inr ⟨c, hc, hpool, ?_⟩
    rw [← hpool, filter_key_eq hnodup hc, List.map_singleton]
  · refine .inl ?_
    rw [List.filter_eq_nil_iff.mpr (fun c hc h => hemits ⟨c, hc, of_decide_eq_true h⟩),
      List.map_nil]

theorem StoredInv.tick (hinv : StoredInv d ticks rows) (hclock : Clocked (ticks ++ [t]))
    (hcooldown : d.cooldownSecs * 1000 < 2 ^ 63) (meets : t.Meets d rows) :
    StoredInv d (ticks ++ [t]) (runTick d rows t).1 := by
  cases runTick_rows d rows t with
  | inl hrows =>
    rw [hrows]
    refine ⟨hinv.escalates, ?_⟩
    intro r hr hdetector
    obtain ⟨s, hs, hat⟩ := hinv.clocks r hr hdetector
    exact ⟨s, List.mem_append_left _ hs, hat⟩
  | inr h =>
    obtain ⟨candidates, since, hevaluated, hsince, hrows⟩ := h
    have hcandidates := (meets.candidates candidates hevaluated).2
    rw [hrows]
    constructor
    · intro pool
      rw [storedOf_append]
      cases storedOf_toEmit meets hevaluated since pool with
      | inl hnone =>
        rw [hnone, List.append_nil]
        exact hinv.escalates pool
      | inr hone =>
        obtain ⟨c, hc, hpool, hone⟩ := hone
        obtain ⟨hmem, hhigher⟩ := mem_emittable.mp hc
        have hat : c.stored.triggeredAt = columnInstant t.evaluatedAt :=
          congrArg columnInstant (hcandidates c hmem).2
        rw [hone]
        apply (hinv.escalates pool).append
        · intro a ha
          obtain ⟨s, hs, has⟩ := hinv.clock ha
          rw [hat, has]
          exact hclock.last.1 s hs
        · intro a hlatest
          apply hhigher
          rw [hinv.latest hclock hcooldown meets hsince, hpool, ← hat, hlatest]
          rfl
    · intro r hr hdetector
      cases List.mem_append.mp hr with
      | inl hr =>
        obtain ⟨s, hs, hat⟩ := hinv.clocks r hr hdetector
        exact ⟨s, List.mem_append_left _ hs, hat⟩
      | inr hr =>
        obtain ⟨c, hc, hcr⟩ := List.mem_map.mp hr
        refine ⟨t, List.mem_append_right _ List.mem_cons_self, ?_⟩
        rw [← hcr]
        exact congrArg columnInstant (hcandidates c (mem_emittable.mp hc).1).2

end Tick

theorem Reaches.storedInv {d : Detector} {ticks : List Tick} {rows : List Signal}
    (h : Reaches d ticks rows) (hcooldown : d.cooldownSecs * 1000 < 2 ^ 63)
    (hclock : Clocked ticks) : StoredInv d ticks rows := by
  induction h with
  | start rows hrows =>
    refine ⟨?_, fun r hr hdetector => absurd hdetector (hrows r hr)⟩
    intro pool
    rw [storedOf_other hrows]
    exact List.Pairwise.nil
  | tick h t meets ih => exact (ih hclock.init).tick hclock hcooldown meets
  | other h signals hother ih =>
    have hinv := ih hclock
    refine ⟨?_, ?_⟩
    · intro pool
      rw [storedOf_append, storedOf_other hother, List.append_nil]
      exact hinv.escalates pool
    · intro r hr hdetector
      cases List.mem_append.mp hr with
      | inl hr => exact hinv.clocks r hr hdetector
      | inr hr => exact absurd hdetector (hother r hr)

/-- Stored signals only escalate within a cooldown, the last of a window is its highest, and a
candidate is dropped exactly for a stored one as severe. -/
theorem stored_only_escalate {d : Detector} {ticks : List Tick} {rows : List Signal}
    (h : Reaches d ticks rows) (hcooldown : d.cooldownSecs * 1000 < 2 ^ 63)
    (hclock : Clocked ticks) (pool : Pubkey) :
    (storedOf d pool rows).Pairwise (fun a b => a.triggeredAt < b.triggeredAt ∧
      (b.triggeredAt - a.triggeredAt < seconds d.cooldownSecs → a.severity < b.severity)) ∧
    (∀ start finish : Instant, finish - start ≤ seconds d.cooldownSecs →
      (∀ a ∈ storedOf d pool rows, ∀ b ∈ storedOf d pool rows, start < a.triggeredAt →
        a.triggeredAt ≤ b.triggeredAt → b.triggeredAt ≤ finish → a.severity ≤ b.severity) ∧
      (((storedOf d pool rows).filter (fun a =>
        start < a.triggeredAt ∧ a.triggeredAt ≤ finish)).map Signal.severity).Nodup) ∧
    ∀ (t : Tick) (candidates : List Signal) (since : Instant), Clocked (ticks ++ [t]) →
      t.Meets d rows → t.evaluated = .ok candidates → d.since t.evaluatedAt = some since →
      t.lookupFailure = none → ∀ c ∈ candidates, c.poolAddress = pool →
      (c ∉ t.toEmit d candidates since ↔ ∃ r ∈ storedOf d pool rows, c.severity ≤ r.severity ∧
        t.evaluatedAt - seconds d.cooldownSecs < r.triggeredAt ∧
        r.triggeredAt ≤ t.evaluatedAt) := by
  have hinv := h.storedInv hcooldown hclock
  have hescalates := hinv.escalates pool
  refine ⟨hescalates, ?_, ?_⟩
  · intro start finish hwindow
    refine ⟨?_, hescalates.levels_nodup start finish hwindow⟩
    intro a ha b hb hstart hab hfinish
    apply hescalates.level_le ha hb hab
    calc b.triggeredAt - a.triggeredAt ≤ finish - a.triggeredAt := sub_le_sub_right hfinish _
      _ < finish - start := sub_lt_sub_left hstart finish
      _ ≤ seconds d.cooldownSecs := hwindow
  · intro t candidates since hnext meets _ hsince _ c hc hpool
    rw [← hpool]
    exact hinv.suppressed_iff hnext hcooldown meets hsince hc

def sampledSignal (d : Detector) (clock : Instant × Severity) : Signal :=
  ⟨d.name, .meteoraDammV2, zeroPubkey, clock.2, ⟨0, 0, Nat.two_pow_pos 96, wholeDigits⟩, none,
    none, clock.1⟩

def sampledTick (d : Detector) (rows : List Signal) (clock : Instant × Severity) : Tick :=
  ⟨clock.1, .ok [sampledSignal d clock], none, rows, none⟩

/-- The rows after ticks of one candidate each. -/
def sampledRows (d : Detector) (clocks : List (Instant × Severity)) : List Signal :=
  clocks.foldl (fun rows clock => (runTick d rows (sampledTick d rows clock)).1) []

theorem sampledTick_meets (d : Detector) (rows : List Signal) (clock : Instant × Severity) :
    (sampledTick d rows clock).Meets d rows := by
  refine ⟨List.Perm.refl rows, ?_⟩
  intro candidates h
  have hone : [sampledSignal d clock] = candidates := Except.ok.inj h
  subst hone
  refine ⟨List.nodup_singleton _, ?_⟩
  intro c hc
  rw [List.mem_singleton.mp hc]
  exact ⟨rfl, rfl⟩

theorem sampledRows_reaches (d : Detector) (clocks : List (Instant × Severity)) :
    ∃ ticks, Reaches d ticks (sampledRows d clocks) ∧
      ticks.map Tick.evaluatedAt = clocks.map Prod.fst := by
  induction clocks using List.reverseRecOn with
  | nil => exact ⟨[], Reaches.start [] (fun r hr => nomatch hr), rfl⟩
  | append_singleton clocks clock ih =>
    obtain ⟨ticks, hreaches, hclocks⟩ := ih
    refine ⟨ticks ++ [sampledTick d (sampledRows d clocks) clock], ?_, ?_⟩
    · have hrows : sampledRows d (clocks ++ [clock]) = (runTick d (sampledRows d clocks)
          (sampledTick d (sampledRows d clocks) clock)).1 := by
        rw [sampledRows, List.foldl_append]
        rfl
      rw [hrows]
      exact hreaches.tick _ (sampledTick_meets d (sampledRows d clocks) clock)
    · rw [List.map_append, List.map_append, hclocks]
      rfl

/-- Instants that rise, and stored signals that do not. -/
def Repeats (d : Detector) (clocks : List (Instant × Severity)) : Prop :=
  (clocks.map Prod.fst).Pairwise (· < ·) ∧
    (∃ ticks, Reaches d ticks (sampledRows d clocks) ∧
      ticks.map Tick.evaluatedAt = clocks.map Prod.fst) ∧
    ¬ (storedOf d zeroPubkey (sampledRows d clocks)).Pairwise (fun a b =>
      a.triggeredAt < b.triggeredAt ∧
        (b.triggeredAt - a.triggeredAt < seconds d.cooldownSecs → a.severity < b.severity))

/-- Two ticks in one microsecond, ticks on both sides of the column's epoch, and a cooldown past
`i64::MAX` milliseconds. -/
theorem stored_repeats :
    Repeats ⟨"flow_imbalance", 3600⟩ [(seconds 1700000000, .info),
      (seconds 1700000000 + 1, .warning), (seconds 1700000001, .warning)] ∧
    Repeats ⟨"flow_imbalance", 3600⟩ [(TIMESTAMPTZ_EPOCH - seconds 10, .warning),
      (TIMESTAMPTZ_EPOCH + seconds 3590 - 500, .warning)] ∧
    Repeats ⟨"flow_imbalance", 2 ^ 63⟩ [(seconds 1700000000, .warning),
      (seconds 1700000001, .warning)] :=
  ⟨⟨by decide +kernel, sampledRows_reaches _ _, by decide +kernel⟩,
    ⟨by decide +kernel, sampledRows_reaches _ _, by decide +kernel⟩,
    ⟨by decide +kernel, sampledRows_reaches _ _, by decide +kernel⟩⟩

/-- A signal repeated within the hour is dropped, and one that escalates is kept. -/
theorem stored_only_escalate_hour : ∃ ticks, Reaches ⟨"flow_imbalance", 3600⟩ ticks
      (sampledRows ⟨"flow_imbalance", 3600⟩ [(seconds 1700000000, .info),
        (seconds 1700000060, .info), (seconds 1700000120, .critical)]) ∧
    (storedOf ⟨"flow_imbalance", 3600⟩ zeroPubkey (sampledRows ⟨"flow_imbalance", 3600⟩
      [(seconds 1700000000, .info), (seconds 1700000060, .info),
        (seconds 1700000120, .critical)])).length = 2 ∧
    (storedOf ⟨"flow_imbalance", 3600⟩ zeroPubkey (sampledRows ⟨"flow_imbalance", 3600⟩
      [(seconds 1700000000, .info), (seconds 1700000060, .info),
        (seconds 1700000120, .critical)])).Pairwise (fun a b => a.triggeredAt < b.triggeredAt ∧
      (b.triggeredAt - a.triggeredAt < seconds 3600 → a.severity < b.severity)) := by
  obtain ⟨ticks, hreaches, hclocks⟩ := sampledRows_reaches ⟨"flow_imbalance", 3600⟩
    [(seconds 1700000000, .info), (seconds 1700000060, .info), (seconds 1700000120, .critical)]
  have hcolumns : ticks.map (fun t => columnInstant t.evaluatedAt) =
      [seconds 1700000000, seconds 1700000060, seconds 1700000120] := by
    change ticks.map (columnInstant ∘ Tick.evaluatedAt) = _
    rw [← List.map_map, hclocks]
    decide +kernel
  have hclock : Clocked ticks := by
    refine ⟨List.pairwise_map.mp (hcolumns ▸ by decide +kernel), ?_⟩
    intro t ht
    have hmem := List.mem_map_of_mem (f := fun t => columnInstant t.evaluatedAt) ht
    rw [hcolumns] at hmem
    revert hmem
    generalize columnInstant t.evaluatedAt = column
    have hall : ∀ column ∈ [seconds 1700000000, seconds 1700000060, seconds 1700000120],
        TIMESTAMPTZ_EPOCH < column := by decide +kernel
    exact hall column
  exact ⟨ticks, hreaches, by decide +kernel,
    (stored_only_escalate hreaches (by decide) hclock zeroPubkey).1⟩

end YogSothoth.Signals
