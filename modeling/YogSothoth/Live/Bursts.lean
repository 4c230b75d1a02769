import YogSothoth.Live.Holes
import Mathlib.Data.Int.Interval
import Mathlib.Order.Lattice.Nat

namespace YogSothoth.Live

/-- A bounded count that only grows ends up constant. -/
theorem exists_settled_count {f : Nat → Nat} (hf : Monotone f) {b : Nat} (hb : ∀ n, f n ≤ b) :
    ∃ n, ∀ m, n ≤ m → f m = f n := by
  have hbdd : BddAbove (Set.range f) := ⟨b, by rintro _ ⟨n, rfl⟩; exact hb n⟩
  obtain ⟨n, hn⟩ := Nat.sSup_mem (Set.range_nonempty f) hbdd
  refine ⟨n, ?_⟩
  intro m hm
  have hle : f m ≤ f n := hn ▸ le_csSup hbdd (Set.mem_range_self m)
  exact le_antisymm hle (hf hm)

/-- Distinct ids strictly between two bounds are at most as many as there are. -/
theorem length_le_of_between {ids : List Int} (hnodup : ids.Nodup) {low high : Int}
    (h : ∀ id ∈ ids, low < id ∧ id < high) : ids.length ≤ (high - low - 1).toNat := by
  rw [← Int.card_Ioo, ← List.toFinset_card_of_nodup hnodup]
  apply Finset.card_le_card
  intro id hid
  exact Finset.mem_Ioo.mpr (h id (List.mem_toFinset.mp hid))

variable {R : Type*} {idOf : R → Int}

/-- A batch that reaches past a visible id returns it. -/
theorem Table.after_of_le (t : Table R idOf) {floor limit id : Int} {record : R}
    (hrecord : record ∈ t.after floor limit) (hid : id ∈ t.rows.keys) (hfloor : floor < id)
    (hle : id ≤ idOf record) : id ∈ (t.after floor limit).map idOf := by
  obtain ⟨e, he, rfl⟩ := List.mem_map.mp hrecord
  obtain ⟨e', he', rfl⟩ := List.mem_map.mp hid
  have hsorted := t.rows.sorted.filter (fun e => decide (floor < e.1))
  have hmem : e' ∈ t.rows.entries.filter (fun e => floor < e.1) :=
    List.mem_filter.mpr ⟨he', by simpa using hfloor⟩
  rw [← List.take_append_drop limit.toNat (t.rows.entries.filter _)] at hsorted hmem
  rw [t.keyed e (List.mem_filter.mp (List.mem_of_mem_take he)).1] at hle
  rcases List.mem_append.mp hmem with hin | hout
  · rw [← t.keyed e' he']
    exact List.mem_map_of_mem (List.mem_map_of_mem hin)
  · exact absurd ((List.pairwise_append.mp hsorted).2.2 e he e' hout) (not_lt.mpr hle)

/-- What is first read stays so. -/
theorem firstRead_mono {log log' : List (Tick R)} (h : log <+: log') {id : Int} {first : Nat}
    (hf : firstRead idOf log id = some first) : firstRead idOf log' id = some first := by
  obtain ⟨t, ht, rfl⟩ := Option.map_eq_some_iff.mp hf
  rw [firstRead, h.find?_eq_some ht]
  rfl

namespace PollRun

namespace Inv

variable {r : PollRun R} {now : Nat} {records : List R}

/-- An id the batch returns above the floor is handed on by then. -/
theorem handed_of_read (hr : r.Inv idOf) {id : Int} (hid : id ∈ records.map idOf)
    (hfloor : r.watermark.floor < id) :
    id ∈ handedIds idOf (r.log ++ [r.watermark.tick idOf now records]) := by
  rw [← hr.kept_fresh hfloor, LiveWatermark.fresh_delivered, if_pos ⟨hfloor, hid⟩]
  rfl

/-- The floor stays, or stops on an id handed on. -/
theorem settled_handed (hr : r.Inv idOf) :
    (r.watermark.tick idOf now records).settled = r.watermark.floor ∨
      (r.watermark.tick idOf now records).settled ∈
        handedIds idOf (r.log ++ [r.watermark.tick idOf now records]) := by
  have habove := hr.above.fresh idOf now records
  rcases settleEntries_floor_mem now (r.watermark.fresh idOf now records).2.floor
    (r.watermark.fresh idOf now records).2.delivered.entries with h | h
  · left
    exact h.trans (LiveWatermark.fresh_floor _ idOf now records)
  · right
    obtain ⟨e, he, hid⟩ := List.mem_map.mp h
    have hfloor := habove e he
    rw [LiveWatermark.fresh_floor] at hfloor
    change (settleEntries _ _ _).1 ∈ _
    rw [← hid, ← hr.kept_fresh hfloor, OrdMap.get?_eq_some.mpr he]
    rfl

/-- What was handed on was first read by then. -/
theorem firstRead_of_handed (hr : r.Inv idOf) {bound : Nat} (hbound : ∀ t ∈ r.log, t.now ≤ bound)
    {id : Int} (hid : id ∈ handedIds idOf r.log) :
    ∃ first, firstRead idOf r.log id = some first ∧ first ≤ bound := by
  obtain ⟨t, ht, hin⟩ := List.mem_flatMap.mp hid
  obtain ⟨record, hrecord, rfl⟩ := List.mem_map.mp hin
  have hread : idOf record ∈ t.records.map idOf := List.mem_map_of_mem (hr.read t ht hrecord)
  obtain ⟨u, hu⟩ : ∃ u, r.log.find? (fun t => idOf record ∈ t.records.map idOf) = some u := by
    rw [← Option.isSome_iff_exists, List.find?_isSome]
    exact ⟨t, ht, by simpa using hread⟩
  exact ⟨u.now, by rw [firstRead, hu]; rfl, hbound u (List.mem_of_find?_eq_some hu)⟩

/-- A poll that leaves no hole under an aged id has its floor past all that has aged. -/
theorem le_settled_of_unheld (hr : r.Inv idOf)
    (h : (r.watermark.tick idOf now records).Unheld idOf r.log)
    (haged : ∀ id ∈ handedIds idOf (r.log ++ [r.watermark.tick idOf now records]),
      Aged idOf (r.log ++ [r.watermark.tick idOf now records]) now id) :
    ∀ id ∈ handedIds idOf (r.log ++ [r.watermark.tick idOf now records]),
      id ≤ (r.watermark.tick idOf now records).settled := by
  intro id hid
  by_contra hlt
  obtain ⟨k, hk⟩ := hr.exists_least_settled hid (by omega)
  exact h k hk (haged k hk.1.1)

/-- A poll that keeps nothing leaves no hole. -/
theorem unheld_of_empty (hr : r.Inv idOf)
    (h : ((r.watermark.fresh idOf now records).2.settle now).delivered.entries = []) :
    (r.watermark.tick idOf now records).Unheld idOf r.log := by
  intro k hk
  have hin := hr.mem_settled_iff.mpr hk.1
  rw [OrdMap.keys, h] at hin
  cases hin

end Inv

/-- At every poll that reads, whatever the source answers, the floor gets past what has aged and is
not under a hole whose id above has aged, exactly when the poll does not find it held. -/
theorem passes_unheld_iff (tip : Int) (polls : List (Source R))
    (hclock : (polls.map Source.now).Pairwise (· ≤ ·)) :
    ∀ log t rest, (exec idOf tip polls).log = log ++ t :: rest →
      (t.Passes idOf log ∧ t.Unheld idOf log ↔ ¬ t.Held idOf log) := by
  induction polls using List.reverseRecOn with
  | nil => simp [exec]
  | append_singleton polls p ih =>
    rw [List.map_append, List.pairwise_append] at hclock
    obtain ⟨hbefore, -, -⟩ := hclock
    obtain ⟨hinv, -⟩ := exec_inv idOf tip polls hbefore
    intro log t rest hlog
    rw [exec, List.foldl_append] at hlog
    change ((exec idOf tip polls).step idOf p).log = _ at hlog
    rcases step_cases idOf (exec idOf tip polls) p with hs | ⟨records, -, hs⟩
    · rw [hs] at hlog
      exact ih hbefore log t rest hlog
    · rw [hs] at hlog
      rcases List.eq_nil_or_concat rest with rfl | ⟨rest, u, rfl⟩
      · obtain ⟨rfl, rfl⟩ : (exec idOf tip polls).log = log ∧ _ = t := by
          simpa using List.append_inj' hlog rfl
        rw [← hinv.unheld_iff]
        exact ⟨And.right, fun h => ⟨hinv.passes_of_unheld h, h⟩⟩
      · have hcons : log ++ t :: rest.concat u = (log ++ t :: rest) ++ [u] := by simp
        rw [hcons] at hlog
        exact ih hbefore log t rest (List.append_inj' hlog rfl).1

end PollRun

/-- Polls that keep succeeding, over rows that become visible in any order and stay. -/
structure Endless (readings : Nat → Reading R idOf) : Prop where
  clock : Monotone (fun n => (readings n).now)
  goesOn : ∀ now, ∃ n, now ≤ (readings n).now
  succeeds : ∀ n, ∃ m, n ≤ m ∧ (readings m).answers = true
  grows : ∀ m n, m ≤ n → (readings m).table.rows.keys ⊆ (readings n).table.rows.keys

namespace PollRun

/-- The poller after the first `n` polls. -/
def afterPolls (tip : Int) (readings : Nat → Reading R idOf) (n : Nat) : PollRun R :=
  exec idOf tip ((List.range n).map (fun i => (readings i).source))

/-- The tick of poll `n`, when it reads. -/
def tickAt (tip : Int) (readings : Nat → Reading R idOf) (n : Nat) : Tick R :=
  (afterPolls tip readings n).watermark.tick idOf (readings n).now
    ((readings n).table.after (afterPolls tip readings n).watermark.floor pollBatchLimit)

section Endless

variable {tip : Int} {readings : Nat → Reading R idOf}

theorem afterPolls_succ (n : Nat) :
    afterPolls tip readings (n + 1) =
      (afterPolls tip readings n).step idOf (readings n).source := by
  simp [afterPolls, exec, List.range_succ]

theorem afterPolls_failed {n : Nat} (h : (readings n).answers = false) :
    afterPolls tip readings (n + 1) = afterPolls tip readings n := by
  rw [afterPolls_succ]
  rcases step_cases idOf (afterPolls tip readings n) (readings n).source with hs | ⟨records, hread, -⟩
  · exact hs
  · simp [Reading.source, h] at hread

theorem afterPolls_read {n : Nat} (h : (readings n).answers = true) :
    (afterPolls tip readings (n + 1)).log = (afterPolls tip readings n).log ++ [tickAt tip readings n] ∧
      (afterPolls tip readings (n + 1)).watermark =
        ((afterPolls tip readings n).watermark.fresh idOf (readings n).now
          (tickAt tip readings n).records).2.settle (readings n).now := by
  rw [afterPolls_succ]
  simp [step, pollOnce, Reading.source, h, tickAt, LiveWatermark.tick]

theorem afterPolls_settled {n : Nat} (h : (readings n).answers = true) :
    (afterPolls tip readings (n + 1)).watermark.floor = (tickAt tip readings n).settled := by
  rw [(afterPolls_read h).2]
  rfl

theorem log_mono {m n : Nat} (h : m ≤ n) :
    (afterPolls tip readings m).log <+: (afterPolls tip readings n).log := by
  induction n, h using Nat.le_induction with
  | base => exact List.prefix_refl _
  | succ n _ ih =>
    cases hread : (readings n).answers with
    | false => rwa [afterPolls_failed hread]
    | true =>
      rw [(afterPolls_read hread).1]
      exact ih.trans (List.prefix_append _ _)

theorem handed_mono {m n : Nat} (h : m ≤ n) :
    handedIds idOf (afterPolls tip readings m).log <+:
      handedIds idOf (afterPolls tip readings n).log := by
  have hlog : (afterPolls tip readings m).log <+: (afterPolls tip readings n).log := log_mono h
  obtain ⟨rest, hrest⟩ := hlog
  rw [← hrest, handedIds, handedIds, List.flatMap_append]
  exact List.prefix_append _ _

end Endless

end PollRun

namespace Endless

open PollRun

variable {tip : Int} {readings : Nat → Reading R idOf} (h : Endless readings)

include h

theorem clocked (n : Nat) :
    (((List.range n).map (fun i => (readings i).source)).map Source.now).Pairwise (· ≤ ·) := by
  rw [List.map_map, List.pairwise_map]
  exact List.pairwise_lt_range.imp (fun hlt => h.clock hlt.le)

theorem inv (n : Nat) : (afterPolls tip readings n).Inv idOf :=
  (exec_inv idOf tip _ (h.clocked n)).1

theorem log_now_le (n : Nat) : ∀ t ∈ (afterPolls tip readings n).log, t.now ≤ (readings n).now := by
  intro t ht
  obtain ⟨p, hp, hnow⟩ := log_now tip _ t ht
  obtain ⟨i, hi, rfl⟩ := List.mem_map.mp hp
  rw [← hnow]
  exact h.clock (List.mem_range.mp hi).le

theorem floor_mono {m n : Nat} (hmn : m ≤ n) :
    (afterPolls tip readings m).watermark.floor ≤ (afterPolls tip readings n).watermark.floor := by
  induction n, hmn using Nat.le_induction with
  | base => exact le_refl _
  | succ n _ ih =>
    rw [afterPolls_succ]
    exact ih.trans ((h.inv n).step_floor _)

/-- The floor is the anchor, or an id handed on. -/
theorem floor_handed (n : Nat) :
    (afterPolls tip readings n).watermark.floor = tip ∨
      (afterPolls tip readings n).watermark.floor ∈ handedIds idOf (afterPolls tip readings n).log := by
  induction n with
  | zero => exact Or.inl rfl
  | succ n ih =>
    cases hread : (readings n).answers with
    | false => rwa [afterPolls_failed hread]
    | true =>
      rw [(afterPolls_read hread).1, afterPolls_settled hread, tickAt]
      rcases (h.inv n).settled_handed with hs | hs
      · rw [hs]
        refine ih.imp_right ?_
        intro hin
        rw [handedIds_concat]
        exact List.mem_append_left _ hin
      · exact Or.inr hs

/-- Only ids over the anchor are handed on. -/
theorem tip_lt_handed (n : Nat) :
    ∀ id ∈ handedIds idOf (afterPolls tip readings n).log, tip < id := by
  induction n with
  | zero => simp [afterPolls, exec, handedIds]
  | succ n ih =>
    cases hread : (readings n).answers with
    | false => rwa [afterPolls_failed hread]
    | true =>
      rw [(afterPolls_read hread).1, handedIds_concat]
      intro id hid
      rcases List.mem_append.mp hid with hid | hid
      · exact ih id hid
      · obtain ⟨record, hrecord, rfl⟩ := List.mem_map.mp hid
        obtain ⟨-, hfloor, -⟩ := LiveWatermark.of_mem_fresh _ _ _ hrecord
        exact lt_of_le_of_lt (h.floor_mono (Nat.zero_le n)) hfloor

section Undelivered

variable {n : Nat} {id : Int} (hid : id ∈ (readings n).table.rows.keys) (htip : tip < id)
  (hbelow : ∀ d ∈ handedIds idOf (afterPolls tip readings n).log, d < id)
  (hnever : ∀ m, id ∉ handedIds idOf (afterPolls tip readings m).log)

include hid htip hbelow hnever

/-- While a visible id is not delivered, nothing over it is, and the floor stays under it. -/
theorem handed_lt {m : Nat} (hm : n ≤ m) :
    (∀ d ∈ handedIds idOf (afterPolls tip readings m).log, d < id) ∧
      (afterPolls tip readings m).watermark.floor < id := by
  have hfloor (m : Nat) (hlt : ∀ d ∈ handedIds idOf (afterPolls tip readings m).log, d < id) :
      (afterPolls tip readings m).watermark.floor < id := by
    have hor : (afterPolls tip readings m).watermark.floor = tip ∨ _ := h.floor_handed m
    rcases hor with hf | hf
    · rwa [hf]
    · exact hlt _ hf
  suffices hlt : ∀ d ∈ handedIds idOf (afterPolls tip readings m).log, d < id from
    ⟨hlt, hfloor m hlt⟩
  induction m, hm using Nat.le_induction with
  | base => exact hbelow
  | succ m hm ih =>
    cases hread : (readings m).answers with
    | false => rwa [afterPolls_failed hread]
    | true =>
      rw [(afterPolls_read hread).1, handedIds_concat]
      intro d hd
      rcases List.mem_append.mp hd with hd | hd
      · exact ih d hd
      · -- a batch that reaches past the id returns it, and it would be handed on
        by_contra hge
        obtain ⟨record, hrecord, rfl⟩ := List.mem_map.mp hd
        obtain ⟨hin, -, -⟩ := LiveWatermark.of_mem_fresh _ _ _ hrecord
        have hbatch := (readings m).table.after_of_le hin (h.grows n m hm hid) (hfloor m ih)
          (not_lt.mp hge)
        refine hnever (m + 1) ?_
        rw [(afterPolls_read hread).1]
        exact (h.inv m).handed_of_read hbatch (hfloor m ih)

/-- A poll that reads with every delivered id under the floor delivers one more. -/
theorem handed_grows {m : Nat} (hm : n ≤ m) (hread : (readings m).answers = true)
    (hsettled : ∀ d ∈ handedIds idOf (afterPolls tip readings m).log,
      d ≤ (afterPolls tip readings m).watermark.floor) :
    (handedIds idOf (afterPolls tip readings m).log).length <
      (handedIds idOf (afterPolls tip readings (m + 1)).log).length := by
  have hfloor := (h.handed_lt hid htip hbelow hnever hm).2
  obtain ⟨record, hrecord, -⟩ := (readings m).table.exists_least_after pollBatchLimit_pos
    (h.grows n m hm hid) hfloor
  have habove := ((readings m).table.mem_after hrecord).2
  have hhanded : idOf record ∈ handedIds idOf (afterPolls tip readings (m + 1)).log := by
    rw [(afterPolls_read hread).1]
    exact (h.inv m).handed_of_read (List.mem_map_of_mem hrecord) habove
  have hnew : idOf record ∉ handedIds idOf (afterPolls tip readings m).log :=
    fun hin => absurd (hsettled _ hin) (not_le.mpr habove)
  have hgrown : handedIds idOf (afterPolls tip readings m).log <+:
      handedIds idOf (afterPolls tip readings (m + 1)).log := handed_mono (Nat.le_succ m)
  refine lt_of_le_of_ne hgrown.length_le ?_
  intro heq
  rw [hgrown.eq_of_length heq] at hnew
  exact hnew hhanded

/-- Past some poll nothing more is delivered. -/
theorem exists_settled_handed : ∃ last, n ≤ last ∧ ∀ m, last ≤ m →
    handedIds idOf (afterPolls tip readings m).log =
      handedIds idOf (afterPolls tip readings last).log := by
  have hmono : Monotone (fun i => (handedIds idOf (afterPolls tip readings (n + i)).log).length) :=
    fun i j hij => (handed_mono (Nat.add_le_add_left hij n)).length_le
  have hbound (i : Nat) : (handedIds idOf (afterPolls tip readings (n + i)).log).length ≤
      (id - tip - 1).toNat := by
    refine length_le_of_between (h.inv (n + i)).nodup ?_
    intro d hd
    exact ⟨h.tip_lt_handed _ d hd,
      (h.handed_lt hid htip hbelow hnever (Nat.le_add_right n i)).1 d hd⟩
  obtain ⟨last, hlast⟩ := exists_settled_count hmono hbound
  refine ⟨n + last, Nat.le_add_right n last, ?_⟩
  intro m hm
  obtain ⟨i, rfl⟩ := Nat.exists_eq_add_of_le hm
  have hlen := hlast (last + i) (Nat.le_add_right last i)
  rw [← Nat.add_assoc] at hlen
  exact ((handed_mono hm).eq_of_length hlen.symm).symm

end Undelivered

/-- Where no poll is held, all that is visible over what has been delivered is delivered. -/
theorem delivers
    (hfree : ∀ n, (readings n).answers = true →
      ¬ (tickAt tip readings n).Held idOf (afterPolls tip readings n).log)
    {n : Nat} {id : Int} (hid : id ∈ (readings n).table.rows.keys) (htip : tip < id)
    (hbelow : ∀ d ∈ handedIds idOf (afterPolls tip readings n).log, d < id) :
    ∃ m, id ∈ handedIds idOf (afterPolls tip readings m).log := by
  by_contra hnone
  have hnever (m : Nat) : id ∉ handedIds idOf (afterPolls tip readings m).log :=
    fun hin => hnone ⟨m, hin⟩
  obtain ⟨last, hn, hlast⟩ := h.exists_settled_handed hid htip hbelow hnever
  -- a poll `gapSettle` later gets its floor past all that is delivered, and the next one delivers
  obtain ⟨later, hlater⟩ := h.goesOn ((readings last).now + gapSettle)
  obtain ⟨m, hm, hread⟩ := h.succeeds (max last later)
  obtain ⟨m', hm', hread'⟩ := h.succeeds (m + 1)
  have hlog : (afterPolls tip readings (m + 1)).log =
      (afterPolls tip readings m).log ++ [tickAt tip readings m] := (afterPolls_read hread).1
  have hunheld : (tickAt tip readings m).Unheld idOf (afterPolls tip readings m).log :=
    (h.inv m).unheld_iff.mpr (hfree m hread)
  have hsame : handedIds idOf ((afterPolls tip readings m).log ++ [tickAt tip readings m]) =
      handedIds idOf (afterPolls tip readings last).log := by
    rw [← hlog]
    exact hlast (m + 1) (by omega)
  have hnow : (readings last).now + gapSettle ≤ (readings m).now := hlater.trans (h.clock (by omega))
  have hsettled : ∀ d ∈ handedIds idOf (afterPolls tip readings last).log,
      d ≤ (tickAt tip readings m).settled := by
    rw [← hsame]
    refine (h.inv m).le_settled_of_unheld hunheld ?_
    intro d hd
    change d ∈ handedIds idOf ((afterPolls tip readings m).log ++ [tickAt tip readings m]) at hd
    rw [hsame] at hd
    obtain ⟨first, hf, hle⟩ := (h.inv last).firstRead_of_handed (h.log_now_le last) hd
    exact ⟨first, firstRead_mono ((log_mono (by omega)).trans (List.prefix_append _ _)) hf, by omega⟩
  have hpassed : ∀ d ∈ handedIds idOf (afterPolls tip readings m').log,
      d ≤ (afterPolls tip readings m').watermark.floor := by
    rw [hlast m' (by omega)]
    intro d hd
    refine (hsettled d hd).trans ?_
    rw [← afterPolls_settled hread]
    exact h.floor_mono hm'
  have hgrown := h.handed_grows hid htip hbelow hnever (by omega) hread' hpassed
  rw [hlast m' (by omega), hlast (m' + 1) (by omega)] at hgrown
  exact lt_irrefl _ hgrown

end Endless

namespace PollRun

/-- At every poll that reads, whatever the source answers, the floor gets past what has aged and is
not left under a hole whose id above has aged, exactly when the poll does not find the floor held.
Where none does and polls keep succeeding, all that is visible over what has been delivered is
delivered: a burst over the batch limit too, whatever the holes under it. -/
theorem exec_passes_iff (tip : Int) :
    (∀ polls : List (Source R), (polls.map Source.now).Pairwise (· ≤ ·) →
      ∀ log t rest, (exec idOf tip polls).log = log ++ t :: rest →
        (t.Passes idOf log ∧ t.Unheld idOf log ↔ ¬ t.Held idOf log)) ∧
    ∀ readings : Nat → Reading R idOf, Endless readings →
      (∀ n, (readings n).answers = true →
        ¬ (tickAt tip readings n).Held idOf (afterPolls tip readings n).log) →
      ∀ n, ∀ id ∈ (readings n).table.rows.keys, tip < id →
        (∀ d ∈ handedIds idOf (afterPolls tip readings n).log, d < id) →
        ∃ m, id ∈ handedIds idOf (afterPolls tip readings m).log :=
  ⟨passes_unheld_iff tip,
    fun _ hrun hfree _ _ hid htip hbelow => hrun.delivers hfree hid htip hbelow⟩

/-- The rows of a table that only ever holds the id 2: the id 1 was never committed. -/
def rolledBack : Table Int id := ⟨OrdMap.insert ∅ 2 2, by decide, by decide⟩

def rolledBackReadings : List (Reading Int id) :=
  [⟨rolledBack, true, 0⟩, ⟨rolledBack, true, gapSettle⟩]

/-- The hole at 1 is not passed `gapSettle` after the 2 above it was first read. -/
theorem exec_rolledBack :
    (rolledBackReadings.map Reading.now).Pairwise (· ≤ ·) ∧ Growing rolledBackReadings ∧
      (exec id 0 (rolledBackReadings.map Reading.source)).log =
        [⟨0, 0, [2], [2], 0⟩] ++ [⟨0, gapSettle, [2], [], 0⟩] ∧
      ¬ Tick.Passes id [⟨0, 0, [2], [2], 0⟩] ⟨0, gapSettle, [2], [], 0⟩ := by
  refine ⟨by decide, ?_, by decide, ?_⟩
  · simp [Growing, rolledBackReadings]
  · intro h
    have hbelow : ∀ d' ∈ handedIds id [(⟨0, 0, [2], [2], 0⟩ : Tick Int), ⟨0, gapSettle, [2], [], 0⟩],
        ¬ d' < 2 := by decide
    have hfloor := h 2 ⟨0, by decide, by decide⟩ (fun d' hd' hlt => absurd hlt (hbelow d' hd'))
    exact absurd hfloor (by decide)

/-- A hole right above the anchor, under a row that is always read, is never passed: not after any
number of polls, whatever their clocks. -/
theorem exec_held (tip k : Int) (hk : tip + 1 < k) (readings : List (Reading R idOf))
    (hrows : ∀ reading ∈ readings,
      k ∈ reading.table.rows.keys ∧ ∀ id ∈ reading.table.rows.keys, tip < id → k ≤ id) :
    (exec idOf tip (readings.map Reading.source)).watermark.floor = tip := by
  suffices h : (exec idOf tip (readings.map Reading.source)).watermark.floor = tip ∧
      ∀ e ∈ (exec idOf tip (readings.map Reading.source)).watermark.delivered.entries, k ≤ e.1 from h.1
  induction readings using List.reverseRecOn with
  | nil => simp [exec, LiveWatermark.anchored]
  | append_singleton readings p ih =>
    obtain ⟨hfloor, hkept⟩ := ih (fun q hq => hrows q (List.mem_append_left _ hq))
    obtain ⟨hin, hnone⟩ := hrows p (by simp)
    rw [List.map_append, exec, List.foldl_append]
    change ((exec idOf tip (readings.map Reading.source)).step idOf p.source).watermark.floor = tip ∧
      ∀ e ∈
        ((exec idOf tip (readings.map Reading.source)).step idOf p.source).watermark.delivered.entries,
        k ≤ e.1
    rcases step_cases idOf (exec idOf tip (readings.map Reading.source)) p.source with
      hs | ⟨records, hread, hs⟩
    · rw [hs]
      exact ⟨hfloor, hkept⟩
    · rw [hs]
      simp only [Reading.source] at hread
      split_ifs at hread
      obtain rfl := Option.some.inj hread
      rw [hfloor]
      have hrecords : ∀ record ∈ p.table.after tip pollBatchLimit, k ≤ idOf record := by
        intro record hrecord
        obtain ⟨hkey, hrf⟩ := p.table.mem_after hrecord
        exact hnone _ hkey hrf
      have htip : tip < k := by omega
      obtain ⟨least, hmem, hmin⟩ := p.table.exists_least_after pollBatchLimit_pos hin htip
      have hlk : idOf least = k := le_antisymm (hmin k hin htip) (hrecords least hmem)
      have hlow := LiveWatermark.fresh_le _ idOf p.source.now hrecords hkept
      have hfirst := LiveWatermark.fresh_first _ idOf p.source.now (by rw [hfloor]; exact htip)
        (hlk ▸ List.mem_map_of_mem hmem) hrecords hkept
      refine ⟨?_, fun e he => hlow e ((settleEntries_suffix _ _ _).subset he)⟩
      rw [LiveWatermark.settle_held hfirst (by rw [LiveWatermark.fresh_floor, hfloor]; exact hk),
        LiveWatermark.fresh_floor, hfloor]

section Burst

/-- `count` rows with consecutive ids. -/
def rowsFrom (first : Int) (count : Nat) : List (Int × Int) :=
  (List.range count).map (fun i : Nat => (first + i, first + i))

theorem rowsFrom_sorted (first : Int) (count : Nat) :
    (rowsFrom first count).Pairwise (fun a b => a.1 < b.1) := by
  rw [rowsFrom, List.pairwise_map]
  exact List.pairwise_lt_range.imp (fun h => by simpa using h)

theorem mem_rowsFrom {first : Int} {count : Nat} {e : Int × Int} (h : e ∈ rowsFrom first count) :
    first ≤ e.1 ∧ e.1 < first + count ∧ e.2 = e.1 := by
  obtain ⟨i, hi, rfl⟩ := List.mem_map.mp h
  have := List.mem_range.mp hi
  exact ⟨by change first ≤ first + i; omega, by change first + i < first + count; omega, rfl⟩

/-- 301 rows over the hole 1 to 499. -/
def burst : Table Int id :=
  ⟨⟨rowsFrom 500 301, rowsFrom_sorted 500 301⟩, fun _ he => (mem_rowsFrom he).2.2,
    fun _ he => lt_of_lt_of_le (by decide) (mem_rowsFrom he).1⟩

theorem burstLate_sorted :
    (rowsFrom 1 200 ++ rowsFrom 500 301).Pairwise (fun a b => a.1 < b.1) := by
  refine List.pairwise_append.mpr ⟨rowsFrom_sorted 1 200, rowsFrom_sorted 500 301, ?_⟩
  intro a ha b hb
  have hlt := (mem_rowsFrom ha).2.1
  have hle := (mem_rowsFrom hb).1
  omega

theorem mem_burstLate {e : Int × Int} (h : e ∈ rowsFrom 1 200 ++ rowsFrom 500 301) :
    e.2 = e.1 ∧ 0 < e.1 := by
  rcases List.mem_append.mp h with h | h
  · exact ⟨(mem_rowsFrom h).2.2, lt_of_lt_of_le (by decide) (mem_rowsFrom h).1⟩
  · exact ⟨(mem_rowsFrom h).2.2, lt_of_lt_of_le (by decide) (mem_rowsFrom h).1⟩

/-- The ids 1 to 200 committed late, those up to 499 never. -/
def burstLate : Table Int id :=
  ⟨⟨rowsFrom 1 200 ++ rowsFrom 500 301, burstLate_sorted⟩, fun _ he => (mem_burstLate he).1,
    fun _ he => (mem_burstLate he).2⟩

/-- A poll every `gapSettle`; the late rows show at the second. -/
def burstReadings : Nat → Reading Int id
  | 0 => ⟨burst, true, 0⟩
  | n + 1 => ⟨burstLate, true, (n + 1) * gapSettle⟩

theorem burst_answers (n : Nat) : (burstReadings n).answers = true := by
  cases n <;> rfl

theorem burst_now (n : Nat) : (burstReadings n).now = n * gapSettle := by
  cases n with
  | zero => simp [burstReadings]
  | succ n => rfl

theorem burst_endless : Endless burstReadings where
  clock := by
    intro m n h
    simp only [burst_now]
    exact Nat.mul_le_mul_right _ h
  goesOn now := ⟨now, by rw [burst_now]; exact Nat.le_mul_of_pos_right _ (by decide)⟩
  succeeds n := ⟨n, le_refl n, burst_answers n⟩
  grows m n h := by
    cases n with
    | zero =>
      obtain rfl : m = 0 := by omega
      exact List.Subset.refl _
    | succ n =>
      cases m with
      | zero =>
        change (rowsFrom 500 301).map Prod.fst ⊆ (rowsFrom 1 200 ++ rowsFrom 500 301).map Prod.fst
        exact List.map_subset _ (List.subset_append_right _ _)
      | succ m => exact List.Subset.refl _

/-- The floor and what is kept after `n` polls. -/
def burstKept (n : Nat) : Int × List (Int × Nat) :=
  ((afterPolls 0 burstReadings n).watermark.floor,
    (afterPolls 0 burstReadings n).watermark.delivered.entries)

/-- A poll that reads consecutive ids, under all that is kept. -/
theorem burst_step {n count : Nat} {floor first : Int} {kept : List (Int × Nat)}
    (hkept : burstKept n = (floor, kept))
    (hread : (burstReadings n).table.after floor pollBatchLimit = (rowsFrom first count).map Prod.fst)
    (hfirst : floor < first) (habove : ∀ e ∈ kept, first + count ≤ e.1) :
    burstKept (n + 1) = settleEntries (n * gapSettle) floor
      ((rowsFrom first count).map (fun e => (e.1, n * gapSettle)) ++ kept) := by
  obtain ⟨hfloor, hentries⟩ := Prod.mk.inj hkept
  have hrecords : (tickAt 0 burstReadings n).records = (rowsFrom first count).map Prod.fst := by
    rw [← hread, ← hfloor]
    rfl
  have hfresh : ((afterPolls 0 burstReadings n).watermark.fresh id (n * gapSettle)
      ((rowsFrom first count).map Prod.fst)).2.delivered.entries =
        [] ++ ((rowsFrom first count).map Prod.fst).map (fun i => (i, n * gapSettle)) ++ kept := by
    refine LiveWatermark.fresh_between _ id _ hentries ?_ ?_ (by simp) ?_
    · intro record hrecord
      obtain ⟨e, he, rfl⟩ := List.mem_map.mp hrecord
      rw [hfloor]
      exact lt_of_lt_of_le hfirst (mem_rowsFrom he).1
    · rw [List.pairwise_map]
      exact rowsFrom_sorted first count
    · intro e he record hrecord
      obtain ⟨e', he', rfl⟩ := List.mem_map.mp hrecord
      exact lt_of_lt_of_le (mem_rowsFrom he').2.1 (habove e he)
  rw [burstKept, (afterPolls_read (burst_answers n)).2, hrecords, burst_now]
  simp only [LiveWatermark.settle, LiveWatermark.fresh_floor, hfloor, hfresh, List.map_map,
    List.nil_append]
  rfl

/-- The second poll gets the floor past the hole, the third delivers the last of the burst. -/
theorem burst_kept : burstKept 1 = (0, (rowsFrom 500 200).map (fun e => (e.1, 0))) ∧
    burstKept 2 = (699, []) ∧ ∀ n, burstKept (n + 3) = (800, []) := by
  have h1 : burstKept 1 = (0, (rowsFrom 500 200).map (fun e => (e.1, 0))) :=
    (burst_step (show burstKept 0 = (0, []) from rfl)
      (show burst.after 0 _ = (rowsFrom 500 200).map _ by decide +kernel)
      (by decide) (by simp)).trans (by decide +kernel)
  have h2 : burstKept 2 = (699, []) :=
    (burst_step h1 (show burstLate.after 0 _ = (rowsFrom 1 200).map _ by decide +kernel)
      (by decide) (by decide +kernel)).trans (by decide +kernel)
  have h3 : burstKept 3 = (800, []) :=
    (burst_step h2 (show burstLate.after 699 _ = (rowsFrom 700 101).map _ by decide +kernel)
      (by decide) (by simp)).trans (by decide +kernel)
  refine ⟨h1, h2, ?_⟩
  intro n
  induction n with
  | zero => exact h3
  | succ n ih =>
    exact burst_step ih (show burstLate.after 800 _ = (rowsFrom 801 0).map _ by decide +kernel)
      (by decide) (by simp)

theorem burst_settled (n : Nat) : (burstKept (n + 2)).2 = [] := by
  cases n with
  | zero => rw [Nat.zero_add, burst_kept.2.1]
  | succ n => rw [burst_kept.2.2 n]

theorem burst_free (n : Nat) :
    ¬ (tickAt 0 burstReadings n).Held id (afterPolls 0 burstReadings n).log := by
  refine (burst_endless.inv n).unheld_iff.mp ?_
  cases n with
  | zero =>
    -- nothing has aged at the start
    rintro k - ⟨first, -, hle⟩
    have hnow : first + gapSettle ≤ 0 := hle
    simp only [gapSettle] at hnow
    omega
  | succ n =>
    have hempty := burst_settled n
    rw [burstKept, (afterPolls_read (burst_answers (n + 1))).2] at hempty
    exact (burst_endless.inv (n + 1)).unheld_of_empty hempty

theorem exec_passes_iff_burst :
    (afterPolls 0 burstReadings 2).watermark.floor = 699 ∧
      (tickAt 0 burstReadings 1).Passes id (afterPolls 0 burstReadings 1).log ∧
      ∃ m, 800 ∈ handedIds id (afterPolls 0 burstReadings m).log := by
  refine ⟨?_, ?_, ?_⟩
  · have hkept := burst_kept.2.1
    rw [burstKept] at hkept
    exact (Prod.mk.inj hkept).1
  · have hlog : (afterPolls 0 burstReadings 2).log =
        (afterPolls 0 burstReadings 1).log ++ [tickAt 0 burstReadings 1] :=
      (afterPolls_read (burst_answers 1)).1
    exact (((exec_passes_iff 0).1 _ (burst_endless.clocked 2) _ _ [] hlog).mpr (burst_free 1)).1
  · exact (exec_passes_iff 0).2 burstReadings burst_endless (fun n _ => burst_free n) 0 800
      (by decide +kernel) (by decide) (by simp [afterPolls, exec, handedIds])

end Burst

end PollRun

end YogSothoth.Live
