import YogSothoth.Live.Poller

namespace YogSothoth.Live

variable {R : Type*} {idOf : R → Int}

/-- The visible rows of a live table, each under its own positive id. -/
structure Table (R : Type*) (idOf : R → Int) where
  rows : OrdMap Int R
  keyed : ∀ e ∈ rows.entries, idOf e.2 = e.1
  positive : ∀ e ∈ rows.entries, 0 < e.1

/-- The `limit` smallest visible ids above `floor`, in ascending order. -/
def Table.after (t : Table R idOf) (floor limit : Int) : List R :=
  ((t.rows.entries.filter (fun e => floor < e.1)).take limit.toNat).map Prod.snd

theorem pollBatchLimit_pos : 0 < pollBatchLimit := by decide

/-- What a poll finds: the rows visible then, whether the read succeeds, and the clock. -/
structure Reading (R : Type*) (idOf : R → Int) where
  table : Table R idOf
  answers : Bool
  now : Nat

def Reading.source (r : Reading R idOf) : Source R :=
  ⟨none, fun floor limit => if r.answers then some (r.table.after floor limit) else none, r.now⟩

/-- Rows become visible in any order, and stay. -/
def Growing (readings : List (Reading R idOf)) : Prop :=
  readings.Pairwise (fun a b => a.table.rows.keys ⊆ b.table.rows.keys)

/-- The id was first read at least `gapSettle` before `now`. -/
def Aged (idOf : R → Int) (log : List (Tick R)) (now : Nat) (id : Int) : Prop :=
  ∃ first, firstRead idOf log id = some first ∧ first + gapSettle ≤ now

/-- The floor left is just under every aged id whose delivered ids below are all aged. -/
def Tick.Passes (idOf : R → Int) (log : List (Tick R)) (t : Tick R) : Prop :=
  ∀ d, Aged idOf (log ++ [t]) t.now d →
    (∀ d' ∈ handedIds idOf (log ++ [t]), d' < d → Aged idOf (log ++ [t]) t.now d') → d - 1 ≤ t.settled

/-- The floor left is not under a hole whose id above has aged. -/
def Tick.Unheld (idOf : R → Int) (log : List (Tick R)) (t : Tick R) : Prop :=
  ∀ k, IsLeast {id | id ∈ handedIds idOf (log ++ [t]) ∧ t.settled < id} k →
    ¬ Aged idOf (log ++ [t]) t.now k

/-- The id was read within `gapSettle`, this poll's read included, and lies over an id above the
floor that was never read. -/
def Tick.Waits (idOf : R → Int) (log : List (Tick R)) (t : Tick R) (id : Int) : Prop :=
  t.floor + 1 < id ∧ lastRead idOf (log ++ [t]) (id - 1) = none ∧
    ∃ last, lastRead idOf (log ++ [t]) id = some last ∧ t.now < last + gapSettle

/-- The least id that waits is aged: it was read again since. -/
def Tick.Held (idOf : R → Int) (log : List (Tick R)) (t : Tick R) : Prop :=
  ∃ k, IsLeast {id | t.Waits idOf log id} k ∧ Aged idOf (log ++ [t]) t.now k

section Aged

variable {log : List (Tick R)} {t : Tick R} {id : Int}

theorem Aged.concat (h : Aged idOf log t.now id) : Aged idOf (log ++ [t]) t.now id := by
  obtain ⟨first, hf, hle⟩ := h
  exact ⟨first, by simp [firstRead_concat, hf], hle⟩

/-- An aged id was read before this tick. -/
theorem Aged.before (h : Aged idOf (log ++ [t]) t.now id) : Aged idOf log t.now id := by
  obtain ⟨first, hf, hle⟩ := h
  rw [firstRead_concat, Option.or_eq_some_iff] at hf
  rcases hf with hf | ⟨-, hf⟩
  · exact ⟨first, hf, hle⟩
  · split_ifs at hf
    simp only [Option.some.injEq] at hf
    simp only [gapSettle] at hle
    omega

/-- What was last read at some time is in that tick's read. -/
theorem lastRead_mem {last : Nat} (h : lastRead idOf log id = some last) :
    ∃ u ∈ log, id ∈ u.records.map idOf := by
  obtain ⟨u, hu, -⟩ := Option.map_eq_some_iff.mp h
  exact ⟨u, List.mem_reverse.mp (List.mem_of_find?_eq_some hu), by simpa using List.find?_some hu⟩

theorem Aged.read (h : Aged idOf log t.now id) : ∃ u ∈ log, ∃ record ∈ u.records, idOf record = id := by
  obtain ⟨first, hf, -⟩ := h
  obtain ⟨u, hu, -⟩ := Option.map_eq_some_iff.mp hf
  have hin : id ∈ u.records.map idOf := by simpa using List.find?_some hu
  obtain ⟨record, hrecord, hid⟩ := List.mem_map.mp hin
  exact ⟨u, List.mem_of_find?_eq_some hu, record, hrecord, hid⟩

end Aged

namespace Table

variable (t : Table R idOf) {floor : Int}

theorem mem_after {limit : Int} {record : R} (h : record ∈ t.after floor limit) :
    idOf record ∈ t.rows.keys ∧ floor < idOf record := by
  obtain ⟨e, he, rfl⟩ := List.mem_map.mp h
  obtain ⟨he, hfloor⟩ := List.mem_filter.mp (List.mem_of_mem_take he)
  rw [t.keyed e he]
  exact ⟨List.mem_map_of_mem he, by simpa using hfloor⟩

/-- The read returns the least visible id above the floor. -/
theorem exists_least_after {limit : Int} (hlimit : 0 < limit) {id : Int}
    (hid : id ∈ t.rows.keys) (hfloor : floor < id) :
    ∃ record ∈ t.after floor limit, ∀ id' ∈ t.rows.keys, floor < id' → idOf record ≤ id' := by
  obtain ⟨e, he, rfl⟩ := List.mem_map.mp hid
  have hmem : e ∈ t.rows.entries.filter (fun e => floor < e.1) :=
    List.mem_filter.mpr ⟨he, by simpa using hfloor⟩
  have hsorted := t.rows.sorted.filter (fun e => decide (floor < e.1))
  cases habove : t.rows.entries.filter (fun e => floor < e.1) with
  | nil => simp [habove] at hmem
  | cons least rest =>
    have hleast : least ∈ t.rows.entries := by
      have h : least ∈ t.rows.entries.filter (fun e => floor < e.1) := by simp [habove]
      exact (List.mem_filter.mp h).1
    obtain ⟨n, hn⟩ : ∃ n, limit.toNat = n + 1 := ⟨limit.toNat - 1, by omega⟩
    refine ⟨least.2, by simp [after, habove, hn], ?_⟩
    intro id' hid' hfloor'
    obtain ⟨e', he', rfl⟩ := List.mem_map.mp hid'
    have hmem' : e' ∈ least :: rest := by
      rw [← habove]
      exact List.mem_filter.mpr ⟨he', by simpa using hfloor'⟩
    rw [t.keyed least hleast]
    rw [habove] at hsorted
    rcases List.mem_cons.mp hmem' with rfl | hmem'
    · exact le_refl _
    · exact ((List.pairwise_cons.mp hsorted).1 e' hmem').le

end Table

namespace PollRun.Inv

variable {r : PollRun R} {now : Nat} {records : List R}

/-- Once the batch is in, what is kept is what was read above the floor, dated by its last read. -/
theorem mem_fresh_iff (hr : r.Inv idOf) {e : Int × Nat} :
    e ∈ (r.watermark.fresh idOf now records).2.delivered.entries ↔ r.watermark.floor < e.1 ∧
      lastRead idOf (r.log ++ [r.watermark.tick idOf now records]) e.1 = some e.2 := by
  rw [← OrdMap.get?_eq_some]
  constructor
  · intro h
    have habove := hr.above.fresh idOf now records e (OrdMap.get?_eq_some.mp h)
    rw [LiveWatermark.fresh_floor] at habove
    exact ⟨habove, hr.redated_fresh h⟩
  · rintro ⟨hfloor, hlast⟩
    have hkept : ((r.watermark.fresh idOf now records).2.delivered.get? e.1).isSome := by
      rw [LiveWatermark.fresh_delivered]
      rw [lastRead_concat] at hlast
      split_ifs at hlast with hin
      · rw [if_pos ⟨hfloor, hin⟩]
        rfl
      · have hout : ¬ (r.watermark.floor < e.1 ∧ e.1 ∈ records.map idOf) := fun h => hin h.2
        obtain ⟨u, hu, hread⟩ := lastRead_mem hlast
        obtain ⟨record, hrecord, hid⟩ := List.mem_map.mp hread
        rw [if_neg hout, hr.kept hfloor, ← hid]
        exact (hr.seen u hu record hrecord).resolve_left (by omega)
    obtain ⟨date, hdate⟩ := Option.isSome_iff_exists.mp hkept
    rw [hdate, ← hlast, hr.redated_fresh hdate]

theorem lastRead_none_iff (hr : r.Inv idOf) {id : Int} (hid : r.watermark.floor < id) :
    lastRead idOf (r.log ++ [r.watermark.tick idOf now records]) id = none ↔
      id ∉ (r.watermark.fresh idOf now records).2.delivered.entries.map Prod.fst := by
  constructor
  · intro hnone hmem
    obtain ⟨e, he, rfl⟩ := List.mem_map.mp hmem
    have hlast := (hr.mem_fresh_iff.mp he).2
    rw [hnone] at hlast
    cases hlast
  · intro hout
    rw [Option.eq_none_iff_forall_ne_some]
    intro date hlast
    exact hout (List.mem_map_of_mem (hr.mem_fresh_iff (e := (id, date)).mpr ⟨hid, hlast⟩))

/-- The loop stops under an entry exactly when its id waits, dated by its last read. -/
theorem stops_iff (hr : r.Inv idOf) {e : Int × Nat} :
    Stops now r.watermark.floor (r.watermark.fresh idOf now records).2.delivered.entries e ↔
      (r.watermark.tick idOf now records).Waits idOf r.log e.1 ∧
        lastRead idOf (r.log ++ [r.watermark.tick idOf now records]) e.1 = some e.2 := by
  rw [Stops, hr.mem_fresh_iff]
  change _ ↔ (r.watermark.floor + 1 < e.1 ∧ _ ∧ ∃ last, _ ∧ now < last + gapSettle) ∧ _
  constructor
  · rintro ⟨⟨-, hlast⟩, hgap, hout, hyoung⟩
    refine ⟨⟨hgap, (hr.lastRead_none_iff (by omega)).mpr hout, e.2, hlast, ?_⟩, hlast⟩
    simp only [gapSettle] at *
    omega
  · rintro ⟨⟨hgap, hnone, last, hl, hyoung⟩, hlast⟩
    obtain rfl : last = e.2 := Option.some.inj (hl.symm.trans hlast)
    refine ⟨⟨by omega, hlast⟩, hgap, (hr.lastRead_none_iff (by omega)).mp hnone, ?_⟩
    simp only [gapSettle] at *
    omega

/-- What is kept after the tick is what was handed on above the floor it leaves. -/
theorem mem_settled_iff (hr : r.Inv idOf) {id : Int} :
    id ∈ ((r.watermark.fresh idOf now records).2.settle now).delivered.keys ↔
      id ∈ handedIds idOf (r.log ++ [r.watermark.tick idOf now records]) ∧
        (r.watermark.tick idOf now records).settled < id := by
  have habove := hr.above.fresh idOf now records
  have hmono := LiveWatermark.settle_floor habove now
  rw [LiveWatermark.fresh_floor] at hmono
  rw [OrdMap.mem_keys]
  simp only [OrdMap.get?_eq_some, LiveWatermark.mem_settle habove]
  constructor
  · rintro ⟨date, hdate, hlt⟩
    have hfloor : r.watermark.floor < id := lt_of_le_of_lt hmono hlt
    exact ⟨(hr.kept_fresh hfloor).mp (by rw [OrdMap.get?_eq_some.mpr hdate]; rfl), hlt⟩
  · rintro ⟨hin, hlt⟩
    have hfloor : r.watermark.floor < id := lt_of_le_of_lt hmono hlt
    obtain ⟨date, hdate⟩ := Option.isSome_iff_exists.mp ((hr.kept_fresh hfloor).mpr hin)
    exact ⟨date, OrdMap.get?_eq_some.mp hdate, hlt⟩

/-- The floor stops under the least id that waits. -/
theorem isLeast_settled_iff (hr : r.Inv idOf) {k : Int} :
    IsLeast {id | id ∈ handedIds idOf (r.log ++ [r.watermark.tick idOf now records]) ∧
        (r.watermark.tick idOf now records).settled < id} k ↔
      IsLeast {id | (r.watermark.tick idOf now records).Waits idOf r.log id} k := by
  have hfloor := hr.above.fresh idOf now records
  rw [LiveWatermark.Above, LiveWatermark.fresh_floor] at hfloor
  simp only [← hr.mem_settled_iff]
  rw [OrdMap.isLeast_keys_iff]
  change (∃ date, (settleEntries now (r.watermark.fresh idOf now records).2.floor
    (r.watermark.fresh idOf now records).2.delivered.entries).2.head? = some (k, date)) ↔ _
  rw [LiveWatermark.fresh_floor]
  simp only [settleEntries_head_iff (LiveWatermark.delivered _).sorted hfloor, hr.stops_iff]
  constructor
  · rintro ⟨date, ⟨hwaits, -⟩, hleast⟩
    refine ⟨hwaits, ?_⟩
    intro id hid
    obtain ⟨last, hlast, -⟩ := hid.2.2
    exact hleast (id, last) ⟨hid, hlast⟩
  · rintro ⟨hwaits, hleast⟩
    obtain ⟨last, hlast, -⟩ := hwaits.2.2
    exact ⟨last, ⟨hwaits, hlast⟩, fun e he => hleast he.1⟩

theorem unheld_iff (hr : r.Inv idOf) :
    (r.watermark.tick idOf now records).Unheld idOf r.log ↔
      ¬ (r.watermark.tick idOf now records).Held idOf r.log := by
  simp only [Tick.Unheld, Tick.Held, hr.isLeast_settled_iff, not_exists, not_and]

/-- An aged id above the floor was delivered before the tick. -/
theorem aged_handed (hr : r.Inv idOf) {id : Int}
    (h : Aged idOf (r.log ++ [r.watermark.tick idOf now records]) now id)
    (hid : r.watermark.floor < id) : id ∈ handedIds idOf r.log := by
  have hbefore : Aged idOf r.log (r.watermark.tick idOf now records).now id := h.before
  obtain ⟨u, hu, record, hrecord, rfl⟩ := hbefore.read
  exact (hr.seen u hu record hrecord).resolve_left (not_le.mpr hid)

/-- An id handed on above the floor left has a least one with it, which holds the floor. -/
theorem exists_least_settled (hr : r.Inv idOf) {d : Int}
    (hd : d ∈ handedIds idOf (r.log ++ [r.watermark.tick idOf now records]))
    (hlt : (r.watermark.tick idOf now records).settled < d) :
    ∃ k, IsLeast {id | id ∈ handedIds idOf (r.log ++ [r.watermark.tick idOf now records]) ∧
        (r.watermark.tick idOf now records).settled < id} k := by
  simp only [← hr.mem_settled_iff]
  have hmem := hr.mem_settled_iff.mpr ⟨hd, hlt⟩
  cases hfirst : ((r.watermark.fresh idOf now records).2.settle now).delivered.first? with
  | none =>
    rw [OrdMap.keys, OrdMap.first?_none.mp hfirst] at hmem
    cases hmem
  | some e => exact ⟨e.1, OrdMap.isLeast_keys_iff.mpr ⟨e.2, hfirst⟩⟩

theorem passes_of_unheld (hr : r.Inv idOf)
    (h : (r.watermark.tick idOf now records).Unheld idOf r.log) :
    (r.watermark.tick idOf now records).Passes idOf r.log := by
  intro d hd hbelow
  by_contra hlt
  have hmono := LiveWatermark.settle_floor (hr.above.fresh idOf now records) now
  rw [LiveWatermark.fresh_floor] at hmono
  change r.watermark.floor ≤ (r.watermark.tick idOf now records).settled at hmono
  have hdh : d ∈ handedIds idOf (r.log ++ [r.watermark.tick idOf now records]) := by
    rw [handedIds_concat]
    exact List.mem_append_left _ (hr.aged_handed hd (by omega))
  obtain ⟨k, hk⟩ := hr.exists_least_settled hdh (by omega)
  refine h k hk ?_
  rcases (hk.2 ⟨hdh, by omega⟩).lt_or_eq with hlt | rfl
  · exact hbelow k hk.1.1 hlt
  · exact hd

end PollRun.Inv

end YogSothoth.Live
