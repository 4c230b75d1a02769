import YogSothoth.Framework.OrdMap

namespace YogSothoth.Live

/-- How long a hole under an id already read is waited for, in nanoseconds. -/
def gapSettle : Nat := 10000000000

/-- Every id up to `floor` is settled; those above it already delivered are kept, with when they
were read. -/
structure LiveWatermark where
  floor : Int
  delivered : OrdMap Int Nat
  deriving DecidableEq

/-- The loop of `settle`, on what is delivered above the floor: the floor it leaves and what is
kept. A hole passed leaves the floor just under the id above it, which the next turn pops. -/
def settleEntries (now : Nat) (floor : Int) : List (Int × Nat) → Int × List (Int × Nat)
  | [] => (floor, [])
  | (id, readAt) :: rest =>
    if id = floor + 1 then settleEntries now id rest
    else if now - readAt < gapSettle then (floor, (id, readAt) :: rest)
    else settleEntries now id rest

theorem settleEntries_suffix (now : Nat) (floor : Int) (entries : List (Int × Nat)) :
    (settleEntries now floor entries).2 <:+ entries := by
  induction entries generalizing floor with
  | nil => exact List.suffix_refl _
  | cons e rest ih =>
    obtain ⟨id, readAt⟩ := e
    unfold settleEntries
    split_ifs
    · exact (ih id).trans (List.suffix_cons _ _)
    · exact List.suffix_refl _
    · exact (ih id).trans (List.suffix_cons _ _)

section SettleEntries

variable {now : Nat} {floor : Int} {entries : List (Int × Nat)}

theorem settleEntries_floor (hs : entries.Pairwise (fun a b => a.1 < b.1))
    (hfloor : ∀ e ∈ entries, floor < e.1) : floor ≤ (settleEntries now floor entries).1 := by
  induction entries generalizing floor with
  | nil => exact le_refl _
  | cons e rest ih =>
    obtain ⟨id, readAt⟩ := e
    obtain ⟨hhead, htail⟩ := List.pairwise_cons.mp hs
    have hid : floor < id := hfloor _ List.mem_cons_self
    have hrec : id ≤ (settleEntries now id rest).1 := ih htail hhead
    unfold settleEntries
    split_ifs
    · omega
    · exact le_refl _
    · omega

theorem settleEntries_kept (hs : entries.Pairwise (fun a b => a.1 < b.1))
    (hfloor : ∀ e ∈ entries, floor < e.1) :
    ∀ e ∈ (settleEntries now floor entries).2, (settleEntries now floor entries).1 < e.1 := by
  induction entries generalizing floor with
  | nil => simp [settleEntries]
  | cons e rest ih =>
    obtain ⟨id, readAt⟩ := e
    obtain ⟨hhead, htail⟩ := List.pairwise_cons.mp hs
    unfold settleEntries
    split_ifs
    · exact ih htail hhead
    · exact hfloor
    · exact ih htail hhead

/-- An id popped is at or below the floor. -/
theorem settleEntries_popped (now : Nat) (floor : Int)
    (hs : entries.Pairwise (fun a b => a.1 < b.1)) :
    ∀ e ∈ entries, e.1 ≤ (settleEntries now floor entries).1 ∨
      e ∈ (settleEntries now floor entries).2 := by
  induction entries generalizing floor with
  | nil => simp
  | cons e rest ih =>
    obtain ⟨id, readAt⟩ := e
    obtain ⟨hhead, htail⟩ := List.pairwise_cons.mp hs
    have hle : id ≤ (settleEntries now id rest).1 := settleEntries_floor htail hhead
    unfold settleEntries
    split_ifs
    · rintro e (_ | ⟨_, he⟩)
      · exact Or.inl hle
      · exact ih id htail e he
    · exact fun e he => Or.inr he
    · rintro e (_ | ⟨_, he⟩)
      · exact Or.inl hle
      · exact ih id htail e he

/-- A hole is passed under the id above it, read `gapSettle` ago. -/
theorem settleEntries_hole (hs : entries.Pairwise (fun a b => a.1 < b.1)) {x : Int} (hx : floor < x)
    (hx' : x ≤ (settleEntries now floor entries).1) (hout : x ∉ entries.map Prod.fst) :
    ∃ e ∈ entries, x < e.1 ∧ (∀ e' ∈ entries, x < e'.1 → e.1 ≤ e'.1) ∧ e.2 + gapSettle ≤ now := by
  induction entries generalizing floor with
  | nil => simp only [settleEntries] at hx'; omega
  | cons e rest ih =>
    obtain ⟨id, readAt⟩ := e
    obtain ⟨hhead, htail⟩ := List.pairwise_cons.mp hs
    simp only [List.map_cons, List.mem_cons, not_or] at hout
    have hpast (hidx : id < x) (hfloor : x ≤ (settleEntries now id rest).1) :
        ∃ e ∈ (id, readAt) :: rest, x < e.1 ∧
          (∀ e' ∈ (id, readAt) :: rest, x < e'.1 → e.1 ≤ e'.1) ∧ e.2 + gapSettle ≤ now := by
      obtain ⟨e, he, hlt, hleast, hdate⟩ := ih htail hidx hfloor hout.2
      refine ⟨e, List.mem_cons_of_mem _ he, hlt, ?_, hdate⟩
      rintro e' (_ | ⟨_, he'⟩) hxe
      · exact absurd hidx (by omega)
      · exact hleast e' he' hxe
    unfold settleEntries at hx'
    split_ifs at hx' with hnext hyoung
    · exact hpast (by omega) hx'
    · exact absurd hx' (by omega)
    · by_cases hidx : id < x
      · exact hpast hidx hx'
      · refine ⟨(id, readAt), List.mem_cons_self, ?_, ?_, ?_⟩
        · have := hout.1
          change x < id
          omega
        · rintro e' (_ | ⟨_, he'⟩) -
          · exact le_refl _
          · exact (hhead e' he').le
        · simp only [gapSettle] at *
          omega

/-- What is kept starts above a hole. -/
theorem settleEntries_head {e : Int × Nat} (hs : entries.Pairwise (fun a b => a.1 < b.1))
    (hfloor : ∀ e ∈ entries, floor < e.1) (he : (settleEntries now floor entries).2.head? = some e) :
    (settleEntries now floor entries).1 + 1 < e.1 := by
  induction entries generalizing floor with
  | nil => simp [settleEntries] at he
  | cons e' rest ih =>
    obtain ⟨id, readAt⟩ := e'
    obtain ⟨hhead, htail⟩ := List.pairwise_cons.mp hs
    have hid : floor < id := hfloor _ List.mem_cons_self
    unfold settleEntries at he ⊢
    split_ifs at he ⊢
    · exact ih htail hhead he
    · rw [List.head?_cons, Option.some.injEq] at he
      rw [← he]
      change floor + 1 < id
      omega
    · exact ih htail hhead he

/-- The floor stays, or stops on an id it popped. -/
theorem settleEntries_floor_mem (now : Nat) (floor : Int) (entries : List (Int × Nat)) :
    (settleEntries now floor entries).1 = floor ∨
      (settleEntries now floor entries).1 ∈ entries.map Prod.fst := by
  induction entries generalizing floor with
  | nil => exact Or.inl rfl
  | cons e rest ih =>
    obtain ⟨id, readAt⟩ := e
    have hrec : (settleEntries now id rest).1 ∈ ((id, readAt) :: rest).map Prod.fst := by
      rcases ih id with h | h
      · rw [h]
        exact List.mem_cons_self
      · exact List.mem_cons_of_mem _ h
    unfold settleEntries
    split_ifs
    · exact Or.inr hrec
    · exact Or.inl rfl
    · exact Or.inr hrec

/-- The loop stops under an entry that is over a hole and was read within `gapSettle`. -/
def Stops (now : Nat) (floor : Int) (entries : List (Int × Nat)) (e : Int × Nat) : Prop :=
  e ∈ entries ∧ floor + 1 < e.1 ∧ e.1 - 1 ∉ entries.map Prod.fst ∧ now - e.2 < gapSettle

/-- Past the first entry, the holes are those over it. -/
theorem stops_cons {e e' : Int × Nat} (hs : (e :: entries).Pairwise (fun a b => a.1 < b.1))
    (hfloor : floor < e.1) (he' : e' ∈ entries) :
    Stops now floor (e :: entries) e' ↔ Stops now e.1 entries e' := by
  have hlt : e.1 < e'.1 := (List.pairwise_cons.mp hs).1 e' he'
  simp only [Stops, List.mem_cons, List.map_cons, not_or]
  constructor
  · rintro ⟨-, -, ⟨hne, hout⟩, hyoung⟩
    exact ⟨he', by omega, hout, hyoung⟩
  · rintro ⟨-, hgap, hout, hyoung⟩
    exact ⟨Or.inr he', by omega, ⟨by omega, hout⟩, hyoung⟩

/-- What is kept starts at the least entry the loop stops under. -/
theorem settleEntries_head_iff (hs : entries.Pairwise (fun a b => a.1 < b.1))
    (hfloor : ∀ e ∈ entries, floor < e.1) {e : Int × Nat} :
    (settleEntries now floor entries).2.head? = some e ↔
      Stops now floor entries e ∧ ∀ e', Stops now floor entries e' → e.1 ≤ e'.1 := by
  induction entries generalizing floor with
  | nil => simp [settleEntries, Stops]
  | cons first rest ih =>
    obtain ⟨hhead, htail⟩ := List.pairwise_cons.mp hs
    have hfirst := hfloor first List.mem_cons_self
    -- the loop goes on past the first entry, which nothing stops it under
    have hpast (hnot : ¬ Stops now floor (first :: rest) first) :
        ((settleEntries now first.1 rest).2.head? = some e ↔
          Stops now floor (first :: rest) e ∧
            ∀ e', Stops now floor (first :: rest) e' → e.1 ≤ e'.1) := by
      have hiff (e' : Int × Nat) : Stops now floor (first :: rest) e' ↔ Stops now first.1 rest e' := by
        constructor
        · intro h
          rcases List.mem_cons.mp h.1 with rfl | hin
          · exact absurd h hnot
          · exact (stops_cons hs hfirst hin).mp h
        · intro h
          exact (stops_cons hs hfirst h.1).mpr h
      simp only [hiff]
      exact ih htail hhead
    have hunder : first.1 - 1 ∉ (first :: rest).map Prod.fst := by
      intro hmem
      obtain ⟨e', he', heq⟩ := List.mem_map.mp hmem
      rcases List.mem_cons.mp he' with rfl | he'
      · omega
      · have := hhead e' he'
        omega
    unfold settleEntries
    split_ifs with hnext hyoung
    · exact hpast (fun h => absurd h.2.1 (by omega))
    · have hstops : Stops now floor (first :: rest) first :=
        ⟨List.mem_cons_self, by omega, hunder, hyoung⟩
      rw [List.head?_cons, Option.some.injEq]
      constructor
      · rintro rfl
        refine ⟨hstops, ?_⟩
        intro e' he'
        rcases List.mem_cons.mp he'.1 with rfl | hin
        · exact le_refl _
        · exact (hhead e' hin).le
      · rintro ⟨he, hleast⟩
        rcases List.mem_cons.mp he.1 with rfl | hin
        · rfl
        · exact absurd (hleast first hstops) (not_le.mpr (hhead e hin))
    · exact hpast (fun h => absurd h.2.2.2 hyoung)

end SettleEntries

namespace LiveWatermark

variable {R : Type*}

def anchored (tip : Int) : LiveWatermark := ⟨tip, ∅⟩

/-- The records not delivered yet, now counted as delivered, read at `now`. An id delivered before
is dated again. -/
def fresh (w : LiveWatermark) (idOf : R → Int) (now : Nat) : List R → List R × LiveWatermark
  | [] => ([], w)
  | record :: records =>
    if w.floor < idOf record then
      let (rest, w') :=
        fresh { w with delivered := w.delivered.insert (idOf record) now } idOf now records
      (if (w.delivered.get? (idOf record)).isSome then rest else record :: rest, w')
    else fresh w idOf now records

/-- Move `floor` over the ids delivered without a hole, and over a hole under an id read
`gapSettle` ago. -/
def settle (w : LiveWatermark) (now : Nat) : LiveWatermark :=
  ⟨(settleEntries now w.floor w.delivered.entries).1,
    ⟨(settleEntries now w.floor w.delivered.entries).2,
      w.delivered.sorted.sublist (settleEntries_suffix now w.floor _).sublist⟩⟩

section Fresh

variable (w : LiveWatermark) (idOf : R → Int) (now : Nat)

/-- The watermark with an id read at `now`. -/
def read (id : Int) : LiveWatermark := { w with delivered := w.delivered.insert id now }

theorem fresh_above {record : R} (records : List R) (h : w.floor < idOf record) :
    w.fresh idOf now (record :: records) =
      (if (w.delivered.get? (idOf record)).isSome
        then ((w.read now (idOf record)).fresh idOf now records).1
        else record :: ((w.read now (idOf record)).fresh idOf now records).1,
      ((w.read now (idOf record)).fresh idOf now records).2) := by
  rw [fresh, if_pos h]
  rfl

theorem fresh_below {record : R} (records : List R) (h : ¬ w.floor < idOf record) :
    w.fresh idOf now (record :: records) = w.fresh idOf now records := by
  rw [fresh, if_neg h]

theorem read_get? (id id' : Int) :
    (w.read now id).delivered.get? id' = if id' = id then some now else w.delivered.get? id' :=
  OrdMap.get?_insert _ _ _ _

@[simp] theorem fresh_floor (records : List R) : (w.fresh idOf now records).2.floor = w.floor := by
  induction records generalizing w with
  | nil => rfl
  | cons record records ih =>
    by_cases h : w.floor < idOf record
    · rw [fresh_above w idOf now records h]
      exact ih _
    · rw [fresh_below w idOf now records h]
      exact ih w

/-- Every id read above the floor is dated `now`. -/
theorem fresh_delivered (records : List R) (id : Int) :
    (w.fresh idOf now records).2.delivered.get? id =
      if w.floor < id ∧ id ∈ records.map idOf then some now else w.delivered.get? id := by
  induction records generalizing w with
  | nil => simp [fresh]
  | cons record records ih =>
    by_cases h : w.floor < idOf record
    · rw [fresh_above w idOf now records h, ih, read_get?]
      change (if w.floor < id ∧ _ then _ else _) = _
      simp only [List.map_cons, List.mem_cons]
      by_cases hid : id = idOf record
      · simp [hid, h]
      · simp [hid]
    · rw [fresh_below w idOf now records h, ih]
      simp only [List.map_cons, List.mem_cons]
      by_cases hid : w.floor < id
      · have hne : id ≠ idOf record := fun he => h (he ▸ hid)
        simp [hid, hne]
      · simp [hid]

/-- Once the batch is in, nothing kept is below `k` when nothing was and nothing read is. -/
theorem fresh_le {records : List R} {k : Int} (hrecords : ∀ record ∈ records, k ≤ idOf record)
    (hkept : ∀ e ∈ w.delivered.entries, k ≤ e.1) :
    ∀ e ∈ (w.fresh idOf now records).2.delivered.entries, k ≤ e.1 := by
  intro e he
  have hget := fresh_delivered w idOf now records e.1
  rw [OrdMap.get?_eq_some.mpr he] at hget
  split_ifs at hget with hread
  · obtain ⟨record, hrecord, hid⟩ := List.mem_map.mp hread.2
    rw [← hid]
    exact hrecords record hrecord
  · exact hkept e (OrdMap.get?_eq_some.mp hget.symm)

/-- The least id kept is dated `now` when it is read again. -/
theorem fresh_first {records : List R} {k : Int} (hfloor : w.floor < k) (hk : k ∈ records.map idOf)
    (hrecords : ∀ record ∈ records, k ≤ idOf record) (hkept : ∀ e ∈ w.delivered.entries, k ≤ e.1) :
    (w.fresh idOf now records).2.delivered.first? = some (k, now) := by
  have hnow : (k, now) ∈ (w.fresh idOf now records).2.delivered.entries := by
    rw [← OrdMap.get?_eq_some, fresh_delivered, if_pos ⟨hfloor, hk⟩]
  exact OrdMap.first?_eq_some hnow (fresh_le w idOf now hrecords hkept)

/-- Ids read in ascending order go in between what is kept below and above them. -/
theorem fresh_between {low high : List (Int × Nat)} {records : List R}
    (hkept : w.delivered.entries = low ++ high) (hfloor : ∀ record ∈ records, w.floor < idOf record)
    (hasc : records.Pairwise (fun a b => idOf a < idOf b))
    (hlow : ∀ e ∈ low, ∀ record ∈ records, e.1 < idOf record)
    (hhigh : ∀ e ∈ high, ∀ record ∈ records, idOf record < e.1) :
    (w.fresh idOf now records).2.delivered.entries =
      low ++ records.map (fun record => (idOf record, now)) ++ high := by
  induction records generalizing w low with
  | nil => simpa [fresh] using hkept
  | cons r records ih =>
    obtain ⟨hhead, htail⟩ := List.pairwise_cons.mp hasc
    have hread : (w.read now (idOf r)).delivered.entries = (low ++ [(idOf r, now)]) ++ high := by
      have hl : ∀ e ∈ low, e.1 < idOf r := fun e he => hlow e he r List.mem_cons_self
      have hh : ∀ e ∈ high, idOf r < e.1 := fun e he => hhigh e he r List.mem_cons_self
      simp only [read, OrdMap.insert, hkept, List.filter_append]
      rw [List.filter_eq_self.mpr (fun e he => by simpa using hl e he),
        List.filter_eq_nil_iff.mpr (fun e he => by simpa using (hh e he).le),
        List.filter_eq_nil_iff.mpr (fun e he => by simpa using (hl e he).le),
        List.filter_eq_self.mpr (fun e he => by simpa using hh e he)]
      simp
    rw [fresh_above w idOf now records (hfloor r List.mem_cons_self)]
    change ((w.read now (idOf r)).fresh idOf now records).2.delivered.entries = _
    rw [ih _ hread (fun record hrecord => hfloor record (List.mem_cons_of_mem _ hrecord)) htail ?_
      (fun e he record hrecord => hhigh e he record (List.mem_cons_of_mem _ hrecord))]
    · simp
    · intro e he record hrecord
      rcases List.mem_append.mp he with he | he
      · exact hlow e he record (List.mem_cons_of_mem _ hrecord)
      · rw [List.mem_singleton.mp he]
        exact hhead record hrecord

/-- What is handed out was read above the floor and had not been delivered. -/
theorem of_mem_fresh {records : List R} {record : R} (h : record ∈ (w.fresh idOf now records).1) :
    record ∈ records ∧ w.floor < idOf record ∧ w.delivered.get? (idOf record) = none := by
  induction records generalizing w with
  | nil => simp [fresh] at h
  | cons r records ih =>
    by_cases hr : w.floor < idOf r
    · rw [fresh_above w idOf now records hr] at h
      have hrest : record ∈ ((w.read now (idOf r)).fresh idOf now records).1 →
          record ∈ r :: records ∧ w.floor < idOf record ∧ w.delivered.get? (idOf record) = none := by
        intro hmem
        obtain ⟨hin, hfloor, hnew⟩ := ih _ hmem
        rw [read_get?] at hnew
        split_ifs at hnew
        exact ⟨List.mem_cons_of_mem _ hin, hfloor, hnew⟩
      split_ifs at h with hseen
      · exact hrest h
      · rcases List.mem_cons.mp h with rfl | h
        · exact ⟨List.mem_cons_self, hr, by simpa using hseen⟩
        · exact hrest h
    · rw [fresh_below w idOf now records hr] at h
      obtain ⟨hin, hrest⟩ := ih w h
      exact ⟨List.mem_cons_of_mem _ hin, hrest⟩

/-- An id is handed out once. -/
theorem fresh_nodup (records : List R) : ((w.fresh idOf now records).1.map idOf).Nodup := by
  induction records generalizing w with
  | nil => simp [fresh]
  | cons r records ih =>
    by_cases hr : w.floor < idOf r
    · rw [fresh_above w idOf now records hr]
      split_ifs
      · exact ih _
      · rw [List.map_cons, List.nodup_cons]
        refine ⟨?_, ih _⟩
        intro hmem
        obtain ⟨record, hrecord, hid⟩ := List.mem_map.mp hmem
        obtain ⟨-, -, hnew⟩ := of_mem_fresh _ idOf now hrecord
        rw [read_get?, if_pos hid] at hnew
        simp at hnew
    · rw [fresh_below w idOf now records hr]
      exact ih w

/-- The first record read of an id above the floor and not delivered is handed out. -/
theorem mem_fresh {records : List R} {record : R}
    (hfirst : records.find? (fun r => idOf r = idOf record) = some record)
    (hfloor : w.floor < idOf record) (hnew : w.delivered.get? (idOf record) = none) :
    record ∈ (w.fresh idOf now records).1 := by
  induction records generalizing w with
  | nil => simp at hfirst
  | cons r records ih =>
    by_cases hid : idOf r = idOf record
    · rw [List.find?_cons_of_pos (by simpa using hid), Option.some.injEq] at hfirst
      subst hfirst
      rw [fresh_above w idOf now records hfloor]
      simp [hnew]
    · rw [List.find?_cons_of_neg (by simpa using hid)] at hfirst
      by_cases hr : w.floor < idOf r
      · have hmem := ih (w.read now (idOf r)) hfirst hfloor (by
          rw [read_get?, if_neg (Ne.symm hid)]
          exact hnew)
        rw [fresh_above w idOf now records hr]
        split_ifs
        · exact hmem
        · exact List.mem_cons_of_mem _ hmem
      · rw [fresh_below w idOf now records hr]
        exact ih w hfirst hfloor hnew

end Fresh

section Settle

variable {w : LiveWatermark} {now : Nat}

/-- Every id kept is above the floor. -/
def Above (w : LiveWatermark) : Prop := ∀ e ∈ w.delivered.entries, w.floor < e.1

theorem settle_floor (h : w.Above) (now : Nat) : w.floor ≤ (w.settle now).floor :=
  settleEntries_floor w.delivered.sorted h

/-- `settle` keeps what is above the floor it leaves. -/
theorem mem_settle (h : w.Above) {e : Int × Nat} :
    e ∈ (w.settle now).delivered.entries ↔ e ∈ w.delivered.entries ∧ (w.settle now).floor < e.1 := by
  constructor
  · intro he
    exact ⟨(settleEntries_suffix now w.floor _).subset he,
      settleEntries_kept w.delivered.sorted h e he⟩
  · rintro ⟨he, hlt⟩
    rcases settleEntries_popped now w.floor w.delivered.sorted e he with hle | hin
    · exact absurd hle (not_le.mpr hlt)
    · exact hin

/-- An id read again at `now` above a hole holds the floor. -/
theorem settle_held {k : Int} (h : w.delivered.first? = some (k, now)) (hgap : w.floor + 1 < k) :
    (w.settle now).floor = w.floor := by
  obtain ⟨rest, hrest⟩ : ∃ rest, w.delivered.entries = (k, now) :: rest :=
    List.head?_eq_some_iff.mp h
  simp only [settle, hrest, settleEntries]
  rw [if_neg (by omega), if_pos (by simp only [gapSettle]; omega)]

theorem Above.settle (h : w.Above) : (w.settle now).Above := fun _ he => ((mem_settle h).mp he).2

theorem settle_get? (h : w.Above) (id : Int) :
    (w.settle now).delivered.get? id =
      if (w.settle now).floor < id then w.delivered.get? id else none := by
  apply Option.ext
  intro date
  rw [OrdMap.get?_eq_some, mem_settle h]
  split_ifs with hid <;> simp [hid, OrdMap.get?_eq_some]

theorem Above.fresh (h : w.Above) (idOf : R → Int) (now : Nat) (records : List R) :
    (w.fresh idOf now records).2.Above := by
  intro e he
  have hget := fresh_delivered w idOf now records e.1
  rw [OrdMap.get?_eq_some.mpr he] at hget
  rw [fresh_floor]
  split_ifs at hget with hread
  · exact hread.1
  · exact h e (OrdMap.get?_eq_some.mp hget.symm)

end Settle

end LiveWatermark

end YogSothoth.Live
