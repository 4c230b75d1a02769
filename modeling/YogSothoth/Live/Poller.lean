import YogSothoth.Live.Watermark
import Mathlib.Data.List.Induction
import Mathlib.Order.Bounds.Defs

namespace YogSothoth.Live

/-- Rows read per tick. -/
def pollBatchLimit : Int := 200

/-- What the source answers during one tick, and the clock after the read; `none` is a failed query. -/
structure Source (R : Type*) where
  tip : Option (Option Int)
  after : Int → Int → Option (List R)
  now : Nat

/-- A tick whose read succeeded: the floor it read past, what it read and when, what it handed to
`prepare` and the floor it left. -/
structure Tick (R : Type*) where
  floor : Int
  now : Nat
  records : List R
  handed : List R
  settled : Int
  deriving DecidableEq

variable {R : Type*}

/-- One tick: anchor if needed, read past the floor, hand on what is new. -/
def pollOnce (idOf : R → Int) (source : Source R) (watermark : Option LiveWatermark) :
    Option (Tick R) × Option LiveWatermark :=
  match watermark.or (source.tip.map (fun tip => .anchored (tip.getD 0))) with
  | none => (none, none)
  | some w =>
    match source.after w.floor pollBatchLimit with
    | none => (none, some w)
    | some records =>
      let (fresh, w') := w.fresh idOf source.now records
      let w' := w'.settle source.now
      (some ⟨w.floor, source.now, records, fresh, w'.floor⟩, some w')

/-- A poller since its anchor, with the ticks that read. -/
structure PollRun (R : Type*) where
  watermark : LiveWatermark
  log : List (Tick R)

namespace PollRun

def step (idOf : R → Int) (r : PollRun R) (source : Source R) : PollRun R :=
  let (tick, w) := pollOnce idOf source (some r.watermark)
  ⟨w.getD r.watermark, r.log ++ tick.toList⟩

def exec (idOf : R → Int) (tip : Int) (polls : List (Source R)) : PollRun R :=
  polls.foldl (step idOf) ⟨.anchored tip, []⟩

end PollRun

/-- The ids handed to `prepare`, in order. -/
def handedIds (idOf : R → Int) (log : List (Tick R)) : List Int :=
  log.flatMap (fun t => t.handed.map idOf)

/-- When an id was first read. -/
def firstRead (idOf : R → Int) (log : List (Tick R)) (id : Int) : Option Nat :=
  (log.find? (fun t => id ∈ t.records.map idOf)).map Tick.now

/-- When an id was last read. -/
def lastRead (idOf : R → Int) (log : List (Tick R)) (id : Int) : Option Nat :=
  (log.reverse.find? (fun t => id ∈ t.records.map idOf)).map Tick.now

/-- A tick that reads `records` at `now`. -/
def LiveWatermark.tick (w : LiveWatermark) (idOf : R → Int) (now : Nat) (records : List R) : Tick R :=
  ⟨w.floor, now, records, (w.fresh idOf now records).1, ((w.fresh idOf now records).2.settle now).floor⟩

/-- A poll that fails changes nothing; one that reads adds its tick. -/
theorem PollRun.step_cases (idOf : R → Int) (r : PollRun R) (source : Source R) :
    r.step idOf source = r ∨
      ∃ records, source.after r.watermark.floor pollBatchLimit = some records ∧
        r.step idOf source =
          ⟨(r.watermark.fresh idOf source.now records).2.settle source.now,
            r.log ++ [r.watermark.tick idOf source.now records]⟩ := by
  cases h : source.after r.watermark.floor pollBatchLimit with
  | none =>
    left
    simp [step, pollOnce, h]
  | some records =>
    right
    exact ⟨records, rfl, by simp [step, pollOnce, h, LiveWatermark.tick]⟩

section Log

variable {idOf : R → Int}

theorem handedIds_concat (log : List (Tick R)) (t : Tick R) :
    handedIds idOf (log ++ [t]) = handedIds idOf log ++ t.handed.map idOf := by
  simp [handedIds]

theorem firstRead_concat (log : List (Tick R)) (t : Tick R) (id : Int) :
    firstRead idOf (log ++ [t]) id =
      (firstRead idOf log id).or (if id ∈ t.records.map idOf then some t.now else none) := by
  unfold firstRead
  rw [List.find?_append]
  cases h : log.find? (fun t => decide (id ∈ t.records.map idOf)) with
  | some u => simp
  | none =>
    by_cases hid : id ∈ t.records.map idOf <;> simp [hid, -List.mem_map]

theorem lastRead_concat (log : List (Tick R)) (t : Tick R) (id : Int) :
    lastRead idOf (log ++ [t]) id =
      if id ∈ t.records.map idOf then some t.now else lastRead idOf log id := by
  unfold lastRead
  rw [List.reverse_append, List.reverse_singleton, List.singleton_append, List.find?_cons]
  by_cases hid : id ∈ t.records.map idOf <;> simp [hid, -List.mem_map]

end Log

/-- What is known after some polls. -/
structure PollRun.Inv (idOf : R → Int) (r : PollRun R) : Prop where
  above : r.watermark.Above
  gap : ∀ e, r.watermark.delivered.first? = some e → r.watermark.floor + 1 < e.1
  kept : ∀ {id}, r.watermark.floor < id →
    ((r.watermark.delivered.get? id).isSome ↔ id ∈ handedIds idOf r.log)
  read : ∀ t ∈ r.log, t.handed ⊆ t.records
  seen : ∀ t ∈ r.log, ∀ record ∈ t.records,
    idOf record ≤ r.watermark.floor ∨ idOf record ∈ handedIds idOf r.log
  nodup : (handedIds idOf r.log).Nodup
  dates : ∀ {id date}, r.watermark.delivered.get? id = some date →
    ∃ first, firstRead idOf r.log id = some first ∧ first ≤ date
  redated : ∀ {id date}, r.watermark.delivered.get? id = some date → lastRead idOf r.log id = some date

namespace PollRun.Inv

variable {idOf : R → Int} {r : PollRun R} {now : Nat} {records : List R}

/-- An id read above the floor and not kept was never read before. -/
theorem unread (hr : r.Inv idOf) {id : Int} (hid : r.watermark.floor < id)
    (h : ∀ u ∈ r.log, id ∉ u.records.map idOf) : r.watermark.delivered.get? id = none := by
  rw [← Option.not_isSome_iff_eq_none, hr.kept hid]
  intro hmem
  obtain ⟨u, hu, hin⟩ := List.mem_flatMap.mp hmem
  obtain ⟨record, hrecord, rfl⟩ := List.mem_map.mp hin
  exact h u hu (List.mem_map_of_mem (hr.read u hu hrecord))

/-- Once the batch is in, the ids delivered above the floor are those handed so far. -/
theorem kept_fresh (hr : r.Inv idOf) {id : Int} (hid : r.watermark.floor < id) :
    ((r.watermark.fresh idOf now records).2.delivered.get? id).isSome ↔
      id ∈ handedIds idOf (r.log ++ [r.watermark.tick idOf now records]) := by
  rw [LiveWatermark.fresh_delivered, handedIds_concat, List.mem_append, ← hr.kept hid]
  constructor
  · intro h
    split_ifs at h with hread
    · cases hold : r.watermark.delivered.get? id with
      | some date => exact Or.inl rfl
      | none =>
        obtain ⟨record, hrecord, hrid⟩ := List.mem_map.mp hread.2
        cases hfind : records.find? (fun x => idOf x = id) with
        | none =>
          have hnone := List.find?_eq_none.mp hfind record hrecord
          simp [hrid] at hnone
        | some first =>
          have hfid : idOf first = id := by simpa using List.find?_some hfind
          subst hfid
          exact Or.inr (List.mem_map_of_mem (LiveWatermark.mem_fresh _ idOf now hfind hid hold))
    · exact Or.inl h
  · rintro (h | h)
    · split_ifs <;> simp [h]
    · obtain ⟨record, hrecord, rfl⟩ := List.mem_map.mp h
      obtain ⟨hin, hfloor, -⟩ := LiveWatermark.of_mem_fresh _ idOf now hrecord
      rw [if_pos ⟨hfloor, List.mem_map_of_mem hin⟩]
      rfl

/-- Once the batch is in, each date is at or after the first read. -/
theorem dates_fresh (hr : r.Inv idOf) (hnow : ∀ t ∈ r.log, t.now ≤ now) {id : Int} {date : Nat}
    (h : (r.watermark.fresh idOf now records).2.delivered.get? id = some date) :
    ∃ first, firstRead idOf (r.log ++ [r.watermark.tick idOf now records]) id = some first ∧
      first ≤ date := by
  rw [LiveWatermark.fresh_delivered] at h
  rw [firstRead_concat]
  split_ifs at h with hread
  · obtain rfl : now = date := by simpa using h
    cases hf : firstRead idOf r.log id with
    | none => exact ⟨now, by simp [LiveWatermark.tick, hread.2, -List.mem_map], le_refl _⟩
    | some first =>
      obtain ⟨t, ht, rfl⟩ := Option.map_eq_some_iff.mp hf
      exact ⟨t.now, rfl, hnow t (List.mem_of_find?_eq_some ht)⟩
  · obtain ⟨first, hf, hle⟩ := hr.dates h
    exact ⟨first, by simp [hf], hle⟩

/-- Once the batch is in, each date is that of the last read. -/
theorem redated_fresh (hr : r.Inv idOf) {id : Int} {date : Nat}
    (h : (r.watermark.fresh idOf now records).2.delivered.get? id = some date) :
    lastRead idOf (r.log ++ [r.watermark.tick idOf now records]) id = some date := by
  rw [LiveWatermark.fresh_delivered] at h
  rw [lastRead_concat]
  split_ifs at h with hread
  · rw [if_pos (show id ∈ (r.watermark.tick idOf now records).records.map idOf from hread.2), ← h]
    rfl
  · have hfloor : r.watermark.floor < id := hr.above _ (OrdMap.get?_eq_some.mp h)
    have hout : id ∉ (r.watermark.tick idOf now records).records.map idOf :=
      fun hin => hread ⟨hfloor, hin⟩
    rw [if_neg hout, hr.redated h]

theorem nodup_tick (hr : r.Inv idOf) :
    (handedIds idOf (r.log ++ [r.watermark.tick idOf now records])).Nodup := by
  rw [handedIds_concat, List.nodup_append]
  refine ⟨hr.nodup, LiveWatermark.fresh_nodup _ idOf now records, ?_⟩
  rintro id hold id' hnew rfl
  obtain ⟨record, hrecord, rfl⟩ := List.mem_map.mp hnew
  obtain ⟨-, hfloor, hnone⟩ := LiveWatermark.of_mem_fresh _ idOf now hrecord
  rw [← hr.kept hfloor, hnone] at hold
  simp at hold

/-- A tick keeps the invariant. -/
theorem tick (hr : r.Inv idOf) (hnow : ∀ t ∈ r.log, t.now ≤ now) (records : List R) :
    PollRun.Inv idOf ⟨(r.watermark.fresh idOf now records).2.settle now,
      r.log ++ [r.watermark.tick idOf now records]⟩ := by
  have habove : (r.watermark.fresh idOf now records).2.Above := hr.above.fresh idOf now records
  have hfloor := LiveWatermark.settle_floor habove now
  rw [LiveWatermark.fresh_floor] at hfloor
  refine ⟨habove.settle, ?_, ?_, ?_, ?_, hr.nodup_tick, ?_, ?_⟩
  · intro e he
    exact settleEntries_head (LiveWatermark.delivered _).sorted habove he
  · intro id hid
    change ((r.watermark.fresh idOf now records).2.settle now).floor < id at hid
    rw [LiveWatermark.settle_get? habove, if_pos hid]
    exact hr.kept_fresh (by omega)
  · intro t ht
    rcases List.mem_append.mp ht with ht | ht
    · exact hr.read t ht
    · rw [List.mem_singleton.mp ht]
      exact fun record hrecord => (LiveWatermark.of_mem_fresh _ idOf now hrecord).1
  · intro t ht record hrecord
    change idOf record ≤ ((r.watermark.fresh idOf now records).2.settle now).floor ∨
      idOf record ∈ handedIds idOf (r.log ++ [r.watermark.tick idOf now records])
    by_cases hid : r.watermark.floor < idOf record
    · right
      rcases List.mem_append.mp ht with ht | ht
      · rw [handedIds_concat]
        exact List.mem_append_left _ ((hr.seen t ht record hrecord).resolve_left (by omega))
      · rw [List.mem_singleton.mp ht] at hrecord
        rw [← hr.kept_fresh hid, LiveWatermark.fresh_delivered,
          if_pos ⟨hid, List.mem_map_of_mem hrecord⟩]
        rfl
    · left
      omega
  · intro id date h
    rw [LiveWatermark.settle_get? habove] at h
    split_ifs at h
    exact hr.dates_fresh hnow h
  · intro id date h
    rw [LiveWatermark.settle_get? habove] at h
    split_ifs at h
    exact hr.redated_fresh h

end PollRun.Inv

/-- What one tick does, given the ticks before it. -/
structure Tick.Sound (idOf : R → Int) (log : List (Tick R)) (t : Tick R) : Prop where
  floor_le : t.floor ≤ t.settled
  first : ∀ record, t.records.find? (fun x => idOf x = idOf record) = some record →
    t.floor < idOf record → (∀ u ∈ log, idOf record ∉ u.records.map idOf) → record ∈ t.handed
  hole : ∀ x, t.floor < x → x ≤ t.settled → x ∉ handedIds idOf (log ++ [t]) →
    ∃ y, IsLeast {id | id ∈ handedIds idOf (log ++ [t]) ∧ x < id} y ∧
      ∃ first, firstRead idOf (log ++ [t]) y = some first ∧ first + gapSettle ≤ t.now

theorem PollRun.Inv.tick_sound {idOf : R → Int} {r : PollRun R} (hr : r.Inv idOf) {now : Nat}
    (hnow : ∀ t ∈ r.log, t.now ≤ now) (records : List R) :
    (r.watermark.tick idOf now records).Sound idOf r.log := by
  have habove : (r.watermark.fresh idOf now records).2.Above := hr.above.fresh idOf now records
  refine ⟨?_, ?_, ?_⟩
  · have hfloor := LiveWatermark.settle_floor habove now
    rwa [LiveWatermark.fresh_floor] at hfloor
  · intro record hfind hfloor hnew
    exact LiveWatermark.mem_fresh _ idOf now hfind hfloor (hr.unread hfloor hnew)
  · intro x hx hx' hout
    have hfresh : x ∉ (r.watermark.fresh idOf now records).2.delivered.entries.map Prod.fst := by
      intro hmem
      obtain ⟨date, hdate⟩ := OrdMap.mem_keys.mp hmem
      exact hout ((hr.kept_fresh hx).mp (by simp [hdate]))
    have hx'' : (r.watermark.fresh idOf now records).2.floor < x := by
      rw [LiveWatermark.fresh_floor]
      exact hx
    obtain ⟨e, he, hlt, hleast, hdate⟩ :=
      settleEntries_hole (LiveWatermark.delivered _).sorted hx'' hx' hfresh
    have hget := OrdMap.get?_eq_some.mpr he
    have hfloor : r.watermark.floor < e.1 := lt_trans hx hlt
    refine ⟨e.1, ⟨⟨(hr.kept_fresh hfloor).mp (by simp [hget]), hlt⟩, ?_⟩, ?_⟩
    · rintro id ⟨hid, hxid⟩
      have hsome := (hr.kept_fresh (lt_trans hx hxid)).mpr hid
      obtain ⟨date, hd⟩ := Option.isSome_iff_exists.mp hsome
      exact hleast (id, date) (OrdMap.get?_eq_some.mp hd) hxid
    · obtain ⟨first, hf, hle⟩ := hr.dates_fresh hnow hget
      exact ⟨first, hf, by change _ ≤ now; omega⟩

namespace PollRun

variable {idOf : R → Int}

theorem log_now (tip : Int) (polls : List (Source R)) :
    ∀ t ∈ (exec idOf tip polls).log, ∃ p ∈ polls, p.now = t.now := by
  induction polls using List.reverseRecOn with
  | nil => simp [exec]
  | append_singleton polls p ih =>
    rw [exec, List.foldl_append]
    change ∀ t ∈ ((exec idOf tip polls).step idOf p).log, _
    have hlift : ∀ t ∈ (exec idOf tip polls).log, ∃ q ∈ polls ++ [p], q.now = t.now := by
      intro t ht
      obtain ⟨q, hq, hnow⟩ := ih t ht
      exact ⟨q, List.mem_append_left _ hq, hnow⟩
    rcases step_cases idOf (exec idOf tip polls) p with h | ⟨records, -, h⟩
    · rwa [h]
    · rw [h]
      intro t ht
      rcases List.mem_append.mp ht with ht | ht
      · exact hlift t ht
      · rw [List.mem_singleton.mp ht]
        exact ⟨p, by simp, rfl⟩

/-- Along a run with clocks that do not go back, the invariant holds and every tick is sound. -/
theorem exec_inv (idOf : R → Int) (tip : Int) (polls : List (Source R))
    (hclock : (polls.map Source.now).Pairwise (· ≤ ·)) :
    (exec idOf tip polls).Inv idOf ∧
      ∀ log t rest, (exec idOf tip polls).log = log ++ t :: rest → t.Sound idOf log := by
  induction polls using List.reverseRecOn with
  | nil =>
    refine ⟨⟨?_, ?_, ?_, ?_, ?_, ?_, ?_, ?_⟩, ?_⟩
    · simp [exec, LiveWatermark.Above, LiveWatermark.anchored]
    · simp [exec, LiveWatermark.anchored, OrdMap.first?]
    · simp [exec, LiveWatermark.anchored, handedIds]
    · simp [exec]
    · simp [exec]
    · simp [exec, handedIds]
    · simp [exec, LiveWatermark.anchored]
    · simp [exec, LiveWatermark.anchored]
    · simp [exec]
  | append_singleton polls p ih =>
    rw [List.map_append, List.pairwise_append] at hclock
    obtain ⟨hbefore, -, hlast⟩ := hclock
    obtain ⟨hinv, hsound⟩ := ih hbefore
    have hnow : ∀ t ∈ (exec idOf tip polls).log, t.now ≤ p.now := by
      intro t ht
      obtain ⟨q, hq, hqn⟩ := log_now tip polls t ht
      rw [← hqn]
      exact hlast q.now (List.mem_map_of_mem hq) p.now (by simp)
    rw [exec, List.foldl_append]
    change ((exec idOf tip polls).step idOf p).Inv idOf ∧
      ∀ log t rest, ((exec idOf tip polls).step idOf p).log = log ++ t :: rest → _
    rcases step_cases idOf (exec idOf tip polls) p with h | ⟨records, -, h⟩
    · rw [h]
      exact ⟨hinv, hsound⟩
    · rw [h]
      refine ⟨hinv.tick hnow records, ?_⟩
      intro log t rest hlog
      rcases List.eq_nil_or_concat rest with rfl | ⟨rest, u, rfl⟩
      · obtain ⟨rfl, rfl⟩ : (exec idOf tip polls).log = log ∧ _ = t := by
          simpa using List.append_inj' hlog rfl
        exact hinv.tick_sound hnow records
      · have hcons : log ++ t :: rest.concat u = (log ++ t :: rest) ++ [u] := by simp
        rw [hcons] at hlog
        exact hsound log t rest (List.append_inj' hlog rfl).1

theorem Inv.step_floor {r : PollRun R} (hr : r.Inv idOf) (source : Source R) :
    r.watermark.floor ≤ (r.step idOf source).watermark.floor := by
  rcases step_cases idOf r source with h | ⟨records, -, h⟩
  · rw [h]
  · rw [h]
    have hfloor := LiveWatermark.settle_floor (hr.above.fresh idOf source.now records) source.now
    rwa [LiveWatermark.fresh_floor] at hfloor

/-- Live delivery is exactly once per anchor, whatever the source answers: no id is handed on twice,
what is read above the floor is handed on by the first tick that reads it, the floor never goes
back and stays under what is kept, and it passes an id never delivered only under one first read
`gapSettle` before. -/
theorem exec_delivers_once (tip : Int) (polls : List (Source R))
    (hclock : (polls.map Source.now).Pairwise (· ≤ ·)) :
    let r := exec idOf tip polls
    (handedIds idOf r.log).Nodup ∧
    (∀ log t rest, r.log = log ++ t :: rest → ∀ record ∈ t.records, t.floor < idOf record →
      (∀ u ∈ log, idOf record ∉ u.records.map idOf) →
      (∃ first, t.records.find? (fun x => idOf x = idOf record) = some first ∧ first ∈ t.handed) ∧
      ((t.records.map idOf).Nodup → record ∈ t.handed)) ∧
    ((∀ source, r.watermark.floor ≤ (r.step idOf source).watermark.floor) ∧
      ∀ id ∈ r.watermark.delivered.keys, r.watermark.floor < id) ∧
    ∀ log t rest, r.log = log ++ t :: rest → ∀ x, t.floor < x → x ≤ t.settled →
      x ∉ handedIds idOf (log ++ [t]) →
      ∃ y, IsLeast {id | id ∈ handedIds idOf (log ++ [t]) ∧ x < id} y ∧
        ∃ first, firstRead idOf (log ++ [t]) y = some first ∧ first + gapSettle ≤ t.now := by
  intro r
  obtain ⟨hinv, hsound⟩ := exec_inv idOf tip polls hclock
  refine ⟨hinv.nodup, ?_, ⟨hinv.step_floor, ?_⟩, fun log t rest hlog => (hsound log t rest hlog).hole⟩
  · intro log t rest hlog record hrecord hfloor hnew
    obtain ⟨first, hfind⟩ : ∃ first, t.records.find? (fun x => idOf x = idOf record) = some first := by
      rw [← Option.isSome_iff_exists, List.find?_isSome]
      exact ⟨record, hrecord, by simp⟩
    have hid : idOf first = idOf record := by simpa using List.find?_some hfind
    have hhanded : first ∈ t.handed :=
      (hsound log t rest hlog).first first (by rw [hid]; exact hfind) (hid ▸ hfloor) (hid ▸ hnew)
    refine ⟨⟨first, hfind, hhanded⟩, ?_⟩
    intro hnodup
    rwa [← List.inj_on_of_nodup_map hnodup (List.mem_of_find?_eq_some hfind) hrecord hid]
  · intro id hid
    obtain ⟨e, he, rfl⟩ := List.mem_map.mp hid
    exact hinv.above e he

/-- The row 2 becomes visible after the row 3, past a failed read. -/
def lateRow : List (Source Int) :=
  [⟨none, fun _ _ => some [1, 3], 0⟩, ⟨none, fun _ _ => none, 1⟩, ⟨none, fun _ _ => some [2, 3], 2⟩]

theorem exec_delivers_once_lateRow :
    handedIds id (exec id 0 lateRow).log = [1, 3, 2] ∧ (handedIds id (exec id 0 lateRow).log).Nodup :=
  ⟨by decide, (exec_delivers_once 0 lateRow (by decide)).1⟩

end PollRun

end YogSothoth.Live
