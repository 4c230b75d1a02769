import YogSothoth.Analytic.RunDrawing

namespace YogSothoth.Analytic

variable {P : Type*}

theorem series_count (start : Int) (n : Nat) :
    series start (start + (n : Int) * tranche) tranche =
      (List.range (n + 1)).map (fun k : Nat => start + (k : Int) * tranche) := by
  have hcount : ((start + (n : Int) * tranche - start) / tranche + 1).toNat = n + 1 := by
    simp only [tranche_eq]
    omega
  rw [series, if_neg (by simp only [tranche_eq]; omega), hcount]

section Facts

variable (contents : Int → List (PoolTranche P))

theorem mem_writtenFacts {start through : Int} {f : PoolFact P}
    (hf : f ∈ writtenFacts contents start through) :
    start ≤ f.bucket ∧ f.bucket ≤ through ∧ (f.bucket - start) % tranche = 0 := by
  obtain ⟨b, hb, hf⟩ := List.mem_flatMap.mp hf
  obtain ⟨c, -, rfl⟩ := List.mem_map.mp hf
  exact (mem_series (by decide)).mp hb

theorem writtenFacts_count (start : Int) (n : Nat) :
    writtenFacts contents start (start + (n : Int) * tranche) =
      (List.range (n + 1)).flatMap (fun k : Nat => trancheFacts contents (start + (k : Int) * tranche)) := by
  rw [writtenFacts, series_count, List.flatMap_map]

/-- The facts of the first `m` tranches from `first`. -/
def firstFacts (first : Int) (m : Nat) : List (PoolFact P) :=
  (List.range m).flatMap (fun k : Nat => trancheFacts contents (first + (k : Int) * tranche))

theorem firstFacts_append (first : Int) (m n : Nat) :
    firstFacts contents first m ++ writtenFacts contents (first + (m : Int) * tranche)
      (first + (m : Int) * tranche + (n : Int) * tranche) =
      firstFacts contents first (m + (n + 1)) := by
  have hrange : List.range (m + (n + 1)) = List.range m ++ (List.range (n + 1)).map (m + ·) :=
    List.range_add
  rw [writtenFacts_count, firstFacts, firstFacts, hrange, List.flatMap_append, List.flatMap_map]
  have hbucket : ∀ k : Nat, first + (m : Int) * tranche + (k : Int) * tranche =
      first + ((m + k : Nat) : Int) * tranche := by
    intro k
    push_cast
    ring
  simp only [hbucket]

/-- A cycle's tranches come after those written so far. -/
theorem added_writtenFacts {facts : List (PoolFact P)} {next : Int} (hnext : next % tranche = 0)
    (hw : Written facts (next - tranche)) {through : Int} (hle : next - tranche ≤ through) :
    Added facts (next - tranche) (writtenFacts contents next through) through := by
  refine ⟨hw, ?_, ?_, ?_, hle⟩
  · intro f hf
    obtain ⟨-, -, hmod⟩ := mem_writtenFacts contents hf
    simp only [tranche_eq] at *
    omega
  · intro f hf
    obtain ⟨hstart, -, -⟩ := mem_writtenFacts contents hf
    simp only [tranche_eq] at *
    omega
  · intro f hf
    exact (mem_writtenFacts contents hf).2.1

end Facts

variable [LinearOrder P]

/-- The facts of the tranches before `next`, and the runs drawn from them. -/
structure Drawing (P : Type*) [LinearOrder P] where
  next : Int
  facts : List (PoolFact P)
  runs : RunTables P

namespace Drawing

def start (first : Int) : Drawing P := ⟨first, [], .empty⟩

/-- A cycle that writes `n + 1` tranches, then the runs. -/
def cycle (contents : Int → List (PoolTranche P)) (d : Drawing P) (n : Nat) : Drawing P :=
  let through := d.next + (n : Int) * tranche
  let facts := d.facts ++ writtenFacts contents d.next through
  ⟨through + tranche, facts, d.runs.writeRotationRuns facts d.next through⟩

def cycles (contents : Int → List (PoolTranche P)) (d : Drawing P) (counts : List Nat) :
    Drawing P := counts.foldl (cycle contents) d

structure Ok (d : Drawing P) : Prop where
  aligned : d.next % tranche = 0
  written : Written d.facts (d.next - tranche)
  drawn : Drawn d.facts (d.next - tranche) d.runs

theorem Ok.start {first : Int} (h : first % tranche = 0) : (Drawing.start first : Drawing P).Ok :=
  ⟨h, ⟨by simp [Drawing.start], by simp [Drawing.start]⟩, Drawn.empty⟩

variable (contents : Int → List (PoolTranche P)) {d : Drawing P}

theorem Ok.added (h : d.Ok) (n : Nat) : Added d.facts (d.next - tranche)
    (writtenFacts contents d.next (d.next + (n : Int) * tranche)) (d.next + (n : Int) * tranche) := by
  apply added_writtenFacts contents h.aligned h.written
  simp only [tranche_eq]
  omega

theorem Ok.cycle (h : d.Ok) (n : Nat) : (d.cycle contents n).Ok := by
  have hadded := h.added contents n
  have hthrough : (d.cycle contents n).next - tranche = d.next + (n : Int) * tranche := by
    simp only [Drawing.cycle]
    omega
  have hdrawn := h.drawn.writeRotationRuns hadded
  rw [Int.sub_add_cancel] at hdrawn
  refine ⟨?_, ?_, ?_⟩
  · have := h.aligned
    simp only [Drawing.cycle, tranche_eq] at *
    omega
  · rw [hthrough]
    exact hadded.written'
  · rw [hthrough]
    exact hdrawn

theorem Ok.cycles (h : d.Ok) (counts : List Nat) : (d.cycles contents counts).Ok := by
  induction counts generalizing d with
  | nil => exact h
  | cons n counts ih => exact ih (h.cycle contents n)

/-- The tranches `counts` writes. -/
def written (counts : List Nat) : Nat := (counts.map (· + 1)).sum

/-- The first `m` tranches from `first` are written. -/
structure At (first : Int) (m : Nat) (d : Drawing P) : Prop where
  next : d.next = first + (m : Int) * tranche
  facts : d.facts = firstFacts contents first m

variable {contents}

theorem At.cycle {first : Int} {m : Nat} (h : At contents first m d) (n : Nat) :
    At contents first (m + (n + 1)) (d.cycle contents n) := by
  constructor
  · simp only [Drawing.cycle, h.next]
    push_cast
    ring
  · simp only [Drawing.cycle]
    rw [h.facts, h.next, firstFacts_append]

theorem At.cycles {first : Int} {m : Nat} (h : At contents first m d) (counts : List Nat) :
    At contents first (m + written counts) (d.cycles contents counts) := by
  induction counts generalizing d m with
  | nil => exact h
  | cons n counts ih =>
    have hwritten : m + written (n :: counts) = m + (n + 1) + written counts := by
      simp only [written, List.map_cons, List.sum_cons]
      omega
    rw [hwritten]
    exact ih (h.cycle n)

theorem At.start (first : Int) : At contents first 0 (Drawing.start first) :=
  ⟨by simp [Drawing.start], rfl⟩

/-- Where the tranches go and that the runs are drawn tell the whole state. -/
theorem At.unique {first : Int} {m : Nat} {d' : Drawing P} (h : At contents first m d) (hok : d.Ok)
    (h' : At contents first m d') (hok' : d'.Ok) : d = d' := by
  have hnext : d.next = d'.next := h.next.trans h'.next.symm
  have hfacts : d.facts = d'.facts := h.facts.trans h'.facts.symm
  have hdrawn := hok'.drawn
  rw [← hnext, ← hfacts] at hdrawn
  have hruns := hok.drawn.unique hdrawn
  cases d
  cases d'
  simp_all

/-- A settled run's row stays, and its hours. -/
theorem Ok.settled_cycle (h : d.Ok) (n : Nat) {pool : P} {startedAt : Int} {r : RotationRun}
    (hr : d.runs.runs.get? (toLex (pool, startedAt)) = some r) (hs : r.settled) :
    (d.cycle contents n).runs.runs.get? (toLex (pool, startedAt)) = some r ∧
      ∀ b, (d.cycle contents n).runs.hours.get? (toLex (pool, toLex (startedAt, b))) =
        d.runs.hours.get? (toLex (pool, toLex (startedAt, b))) := by
  have hadded := h.added contents n
  have hnext := (h.cycle contents n).drawn
  have hthrough : (d.cycle contents n).next - tranche = d.next + (n : Int) * tranche := by
    simp only [Drawing.cycle]
    omega
  rw [hthrough] at hnext
  obtain ⟨i, hi, hkey, rfl⟩ := (h.drawn.runs _ _).mp hr
  have hs := settled_run.mp hs
  have hin := hadded.settled_in hi hs
  constructor
  · exact (hnext.runs _ _).mpr ⟨i, hin, hkey, hadded.run_eq hs⟩
  · intro b
    have hhour : (toLex (pool, toLex (startedAt, b)) : P ×ₗ Int ×ₗ Int) = i.hourKey b := by
      have hpair : (i.pool, i.startedAt) = (pool, startedAt) := toLex.injective hkey
      rw [Island.hourKey, ← (Prod.mk.inj hpair).1, ← (Prod.mk.inj hpair).2]
    rw [hhour]
    apply Option.ext
    intro v
    rw [hnext.hours, h.drawn.hours]
    constructor
    · rintro ⟨j, hj, b', hb', hk, rfl⟩
      obtain ⟨hij, rfl⟩ := hourKey_eq.mp hk
      obtain rfl := Island.In.eq_of_key hj hin hij
      exact ⟨j, hi, b', hadded.hourBuckets_eq hs ▸ hb', rfl, (hadded.hourVolume_eq hs b').symm⟩
    · rintro ⟨j, hj, b', hb', hk, rfl⟩
      obtain ⟨hij, rfl⟩ := hourKey_eq.mp hk
      obtain rfl := Island.In.eq_of_key hj hi hij
      exact ⟨j, hin, b', (hadded.hourBuckets_eq hs).symm ▸ hb', rfl, hadded.hourVolume_eq hs b'⟩

theorem Ok.settled_cycles (h : d.Ok) (counts : List Nat) {pool : P} {startedAt : Int}
    {r : RotationRun} (hr : d.runs.runs.get? (toLex (pool, startedAt)) = some r) (hs : r.settled) :
    (d.cycles contents counts).runs.runs.get? (toLex (pool, startedAt)) = some r ∧
      ∀ b, (d.cycles contents counts).runs.hours.get? (toLex (pool, toLex (startedAt, b))) =
        d.runs.hours.get? (toLex (pool, toLex (startedAt, b))) := by
  induction counts generalizing d with
  | nil => exact ⟨hr, fun b => rfl⟩
  | cons n counts ih =>
    obtain ⟨hrun, hhours⟩ := h.settled_cycle n hr hs
    obtain ⟨hrun', hhours'⟩ := ih (h.cycle contents n) hrun
    exact ⟨hrun', fun b => (hhours' b).trans (hhours b)⟩

/-- However the tranches are split into cycles, the runs are those drawn from all of them at once,
one a maximal island, and a settled run with its hours is final. -/
theorem cycles_draw_once (contents : Int → List (PoolTranche P)) (k : Int) (n : Nat)
    (counts : List Nat) :
    let d := (start (k * tranche)).cycles contents (n :: counts)
    d = (start (k * tranche)).cycle contents (n + written counts) ∧
      d.facts = firstFacts contents (k * tranche) (n + 1 + written counts) ∧
      Drawn d.facts (d.next - tranche) d.runs ∧
      ∀ pool startedAt r, d.runs.runs.get? (toLex (pool, startedAt)) = some r → r.settled →
        ∀ later, (d.cycles contents later).runs.runs.get? (toLex (pool, startedAt)) = some r ∧
          ∀ b, (d.cycles contents later).runs.hours.get? (toLex (pool, toLex (startedAt, b))) =
            d.runs.hours.get? (toLex (pool, toLex (startedAt, b))) := by
  intro d
  have hstart : (start (k * tranche) : Drawing P).Ok := Ok.start (Int.mul_emod_left k tranche)
  have hok : d.Ok := hstart.cycles contents (n :: counts)
  have hat : At contents (k * tranche) (0 + written (n :: counts)) d :=
    (At.start _).cycles (n :: counts)
  have honce : At contents (k * tranche) (0 + (n + written counts + 1))
      ((start (k * tranche)).cycle contents (n + written counts)) := (At.start _).cycle _
  have hcount : 0 + written (n :: counts) = n + 1 + written counts := by
    simp only [written, List.map_cons, List.sum_cons]
    omega
  have hcount' : 0 + (n + written counts + 1) = n + 1 + written counts := by omega
  rw [hcount] at hat
  rw [hcount'] at honce
  exact ⟨hat.unique hok honce (hstart.cycle contents _), hat.facts, hok.drawn,
    fun pool startedAt r hr hs later => hok.settled_cycles later hr hs⟩

end Drawing

end YogSothoth.Analytic
