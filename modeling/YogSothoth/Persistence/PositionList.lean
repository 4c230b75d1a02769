import Mathlib.Data.String.Basic
import YogSothoth.Persistence.PositionPages

namespace YogSothoth.PositionChanges

variable {S : Type} [LinearOrder S] {Columns Fields : Type} {texts : Texts}
  {convert : PositionKind → Columns → Except RepositoryError Fields}

/-- What the list is sorted on: the instant, the signature under the collation, the index. -/
def PositionChange.key (texts : Texts) (collate : String → S) (c : PositionChange Fields) :
    Int ×ₗ (S ×ₗ Int) :=
  toLex (c.timestamp, toLex (collate (texts.signature.print c.signature), (c.eventIndex.toNat : Int)))

/-- Every DAMM v2 event is in the scope of its protocol and of its pool; no table holds another
protocol's. -/
def PositionChange.inScope (c : PositionChange Fields) (scope : EventScope) : Bool :=
  match scope with
  | .all => true
  | .protocol .meteoraDammV2 => true
  | .protocol .meteoraDlmm => false
  | .pool pool => c.poolAddress = pool

def PositionTables.events (db : PositionTables texts convert) : List (PositionChange Fields) :=
  db.stored.map Stored.change

/-- The union of the tables sorted once: the events of the scope since `from_`, cut to the column's
microsecond, newest first. -/
def plainList (texts : Texts) (collate : String → S) (events : List (PositionChange Fields))
    (scope : EventScope) (from_ : Instant) : List (PositionChange Fields) :=
  orderBy (fun c => OrderDual.toDual (c.key texts collate))
    (events.filter (fun c => c.inScope scope && columnInstant from_ ≤ c.timestamp))

omit [LinearOrder S] in
theorem Stored.key_eq (collate : String → S) (s : Stored texts convert) :
    s.change.key texts collate = s.key collate := by
  obtain ⟨_, hat, hindex⟩ := s.change_of_reads
  simp only [PositionChange.key, Stored.key, Stored.keyRow, PositionRow.keyRow, KeyRow.key, hat,
    hindex, s.signature]

theorem afterKey_cursor (collate : String → S) (s a : Stored texts convert) (scope : EventScope)
    (from_ : Instant) :
    afterKey collate (EventKey.of texts (some
      ⟨scope, from_, a.change.timestamp, a.change.signature, a.change.eventIndex⟩)) s.row =
      decide (s.key collate < a.key collate) := by
  obtain ⟨_, hat, hindex⟩ := a.change_of_reads
  have hlex : s.key collate < a.key collate ↔ s.row.timestamp < a.row.timestamp ∨
      s.row.timestamp = a.row.timestamp ∧ (collate s.row.signature < collate a.row.signature ∨
        collate s.row.signature = collate a.row.signature ∧ s.row.eventIndex < a.row.eventIndex) := by
    rw [Stored.key, Stored.key, KeyRow.key, KeyRow.key, Prod.Lex.toLex_lt_toLex,
      Prod.Lex.toLex_lt_toLex]
    rfl
  rw [Bool.eq_iff_iff, decide_eq_true_iff, hlex]
  simp only [afterKey, EventKey.of, Option.map_some, hat, hindex, ← a.signature, a.timestamp,
    Bool.and_eq_true, Bool.or_eq_true, decide_eq_true_iff]
  constructor
  · rintro ⟨hle, hlt | hsig⟩
    · exact .inl hlt
    · rcases lt_or_eq_of_le hle with hlt | heq
      · exact .inl hlt
      · exact .inr ⟨heq, hsig⟩
  · rintro (hlt | ⟨heq, hsig⟩)
    · exact ⟨le_of_lt hlt, .inl hlt⟩
    · exact ⟨le_of_eq heq, .inr hsig⟩

/-- The stored rows of a scope, in the order of the list. -/
def PositionTables.sorted (db : PositionTables texts convert) (collate : String → S)
    (scope : EventScope) (from_ : Instant) : List (Stored texts convert) :=
  orderBy (fun s => OrderDual.toDual (Stored.key collate s))
    (db.stored.filter (fun s => s.change.inScope scope && columnInstant from_ ≤ s.row.timestamp))

theorem plainList_eq (db : PositionTables texts convert) (collate : String → S) (scope : EventScope)
    (from_ : Instant) :
    plainList texts collate db.events scope from_ =
      (db.sorted collate scope from_).map Stored.change := by
  have hfilter : db.events.filter (fun c => c.inScope scope && columnInstant from_ ≤ c.timestamp) =
      (db.stored.filter
        (fun s => s.change.inScope scope && columnInstant from_ ≤ s.row.timestamp)).map
        Stored.change := by
    apply filter_map_eq
    intro s _
    rw [s.change_of_reads.2.1]
  rw [plainList, hfilter, orderBy_map]
  simp only [Stored.key_eq]
  rfl

theorem PositionTables.sorted_keySorted (db : PositionTables texts convert) {collate : String → S}
    (hcollate : Function.Injective collate) (scope : EventScope) (from_ : Instant) :
    KeySorted (fun s => OrderDual.toDual (Stored.key collate s)) (db.sorted collate scope from_) :=
  orderBy_sorted (nodup_map_filter (db.keys_nodup hcollate) _)

/-- The rows a page starts from: all of the scope's, or those after the cursor's. -/
def PositionTables.rest (db : PositionTables texts convert) (collate : String → S)
    (scope : EventScope) (from_ : Instant) (cursor : Option (Stored texts convert)) :
    List (Stored texts convert) :=
  (db.sorted collate scope from_).filter
    (fun s => cursor.all (fun a => s.key collate < a.key collate))

def cursorAt (scope : EventScope) (from_ : Instant) (c : PositionChange Fields) : EventCursor :=
  ⟨scope, from_, c.timestamp, c.signature, c.eventIndex⟩

def withoutPrev (p : Page (PositionChange Fields)) : Page (PositionChange Fields) :=
  { p with prevCursor := none }

theorem merged_rest (db : PositionTables texts convert) {collate : String → S}
    (hcollate : Function.Injective collate) (scope : EventScope) (from_ : Instant)
    (cursor : Option (Stored texts convert)) (n : Nat) {wanted : PositionRow Columns → Bool}
    (hwanted : ∀ s ∈ db.stored, wanted s.row = s.change.inScope scope) :
    merged collate db.table wanted from_
        (EventKey.of texts (cursor.map (fun a => cursorAt scope from_ a.change))) n =
      ((db.rest collate scope from_ cursor).take n).map Stored.mergedKey := by
  have hnodup : ((db.stored.filter
      (fun s => s.change.inScope scope && columnInstant from_ ≤ s.row.timestamp)).map
      (fun s => OrderDual.toDual (Stored.key collate s))).Nodup :=
    nodup_map_filter (db.keys_nodup hcollate) _
  rw [merged_eq db hcollate, PositionTables.rest, PositionTables.sorted, ← orderBy_filter hnodup,
    List.filter_filter]
  congr 3
  apply List.filter_congr
  intro s hs
  rw [hwanted s hs]
  cases cursor with
  | none => simp [afterKey, EventKey.of]
  | some a =>
    have h := afterKey_cursor collate s a scope from_
    simp only [cursorAt, Option.map_some, h, Option.all_some]
    rw [← Bool.and_assoc, Bool.and_comm]

/-- One row past the limit, where an `i64` has room for it. -/
theorem rowLimit_succ {limit : Int64} {n : Nat} (hlimit : limit.toInt = n)
    (hroom : limit.toInt + 1 < 2 ^ 63) : rowLimit (limit + 1) = .ok (n + 1) := by
  have hsucc : (limit + 1).toInt = n + 1 := by
    rw [Int64.toInt_add, Int64.toInt_one, hlimit]
    exact Int.bmod_eq_of_le (by omega) (by omega)
  rw [rowLimit, hsucc, if_neg (by omega)]
  rfl

/-- A page is cut from the rows it starts from. -/
theorem listEvents_page (db : PositionTables texts convert) {collate : String → S}
    (hcollate : Function.Injective collate) {scope : EventScope} (from_ : Instant)
    (hscope : scope ≠ .protocol .meteoraDlmm) (cursor : Option (Stored texts convert))
    (before : List (PositionChange Fields)) (hbefore : before.isEmpty = cursor.isNone)
    {limit : Int64} {n : Nat} (hlimit : limit.toInt = n) (hroom : limit.toInt + 1 < 2 ^ 63) :
    listEvents texts convert collate db.table scope from_
        (cursor.map (fun a => cursorAt scope from_ a.change)) limit =
      .ok (withoutPrev (segmentPage (cursorOf scope from_) before
        (((db.rest collate scope from_ cursor).map Stored.change).take n)
        (((db.rest collate scope from_ cursor).map Stored.change).drop n))) := by
  let taken := (db.rest collate scope from_ cursor).take (n + 1)
  have hsub : taken.Sublist (db.sorted collate scope from_) :=
    (List.take_sublist _ _).trans List.filter_sublist
  have hmem : ∀ s ∈ taken, s ∈ db.stored := by
    intro s hs
    exact (List.mem_filter.mp (mem_orderBy.mp (hsub.subset hs))).1
  have hid : (taken.map (fun s => (s.kind, s.row.id))).Nodup := by
    have hall : ((db.sorted collate scope from_).map (fun s => (s.kind, s.row.id))).Nodup :=
      ((orderBy_perm _ _).map _).nodup_iff.mpr (nodup_map_filter db.unique_id _)
    exact hall.sublist (hsub.map _)
  have hhad : (cursor.map (fun a => cursorAt scope from_ a.change)).isSome = !before.isEmpty := by
    rw [hbefore]
    cases cursor <;> rfl
  have hpage : ∀ wanted : PositionRow Columns → Bool,
      (∀ s ∈ db.stored, wanted s.row = s.change.inScope scope) →
      (do
        let keys ← (rowLimit (limit + 1)).map (merged collate db.table wanted from_
          (EventKey.of texts (cursor.map (fun a => cursorAt scope from_ a.change))))
        let events ← fetchMeteoraDammV2 texts convert db.table keys
        pure (finishEventPage events limit.toInt
          (cursor.map (fun a => cursorAt scope from_ a.change)).isSome (cursorOf scope from_))) =
      (.ok (withoutPrev (segmentPage (cursorOf scope from_) before
        (((db.rest collate scope from_ cursor).map Stored.change).take n)
        (((db.rest collate scope from_ cursor).map Stored.change).drop n))) :
        Except RepositoryError (Page (PositionChange Fields))) := by
    intro wanted hwanted
    have hkeys := merged_rest db hcollate scope from_ cursor (n + 1) hwanted
    have hfinal := finalize_forward (cursorOf scope from_) before
      ((db.rest collate scope from_ cursor).map Stored.change) n
    rw [rowLimit_succ hlimit hroom, Except.map, hkeys, hlimit]
    change (fetchMeteoraDammV2 texts convert db.table _ >>= _) = _
    rw [fetch_ok db hmem hid, hhad, List.map_take]
    exact congrArg (fun p => Except.ok (withoutPrev p)) hfinal
  cases scope with
  | all => exact hpage _ (fun s _ => rfl)
  | protocol p =>
    cases p with
    | meteoraDammV2 => exact hpage _ (fun s _ => rfl)
    | meteoraDlmm => exact absurd rfl hscope
  | pool pool =>
    apply hpage
    intro s _
    rw [s.poolAddress, Bool.eq_iff_iff]
    simp only [PositionChange.inScope, decide_eq_true_eq]
    exact ⟨fun h => texts.pubkey.print_injective h, fun h => by rw [h]⟩

def follow (c : Option Cursor) : Option (Option EventCursor) :=
  match c with
  | some (.positionChangeEvent c) => some (some c)
  | _ => none

theorem listEvents_dlmm (db : PositionTables texts convert) (collate : String → S) (from_ : Instant)
    (cursor : Option EventCursor) (limit : Int64) :
    listEvents texts convert collate db.table (.protocol .meteoraDlmm) from_ cursor limit =
      .ok (withoutPrev (segmentPage (cursorOf (.protocol .meteoraDlmm) from_) [] [] [])) := rfl

theorem plainList_dlmm (db : PositionTables texts convert) (collate : String → S) (from_ : Instant) :
    plainList texts collate db.events (.protocol .meteoraDlmm) from_ = [] := by
  have hfilter : db.events.filter
      (fun c => c.inScope (.protocol .meteoraDlmm) && columnInstant from_ ≤ c.timestamp) = [] :=
    List.filter_eq_nil_iff.mpr (fun c _ => by simp [PositionChange.inScope])
  rw [plainList, hfilter]
  rfl

theorem follows_list (db : PositionTables texts convert) {collate : String → S}
    (hcollate : Function.Injective collate) (scope : EventScope) (from_ : Instant)
    {limit : Int64} {n : Nat} (hn : 0 < n) (hlimit : limit.toInt = n)
    (hroom : limit.toInt + 1 < 2 ^ 63) :
    Follows (fun cursor => listEvents texts convert collate db.table scope from_ cursor limit)
      (fun p => follow p.nextCursor) none
      ((List.range (chunkCount n (plainList texts collate db.events scope from_))).map
        (fun i => withoutPrev (forwardPage (cursorOf scope from_)
          (plainList texts collate db.events scope from_) n i))) := by
  apply follows_forward withoutPrev (fun c => some (cursorAt scope from_ c)) (fun _ => rfl) hn rfl
    (fun _ => rfl)
  · by_cases hscope : scope = .protocol .meteoraDlmm
    · rw [hscope, listEvents_dlmm, plainList_dlmm, List.take_nil, List.drop_nil]
    · have h := listEvents_page db hcollate from_ hscope none [] rfl hlimit hroom
      have hrest : db.rest collate scope from_ none = db.sorted collate scope from_ :=
        List.filter_eq_self.mpr (fun _ _ => rfl)
      rw [hrest, ← plainList_eq] at h
      exact h
  · intro A c B hsplit
    have hscope : scope ≠ .protocol .meteoraDlmm := by
      intro hscope
      rw [hscope, plainList_dlmm] at hsplit
      simp at hsplit
    rw [plainList_eq] at hsplit
    obtain ⟨A', tail, hsorted, rfl, htail⟩ := List.map_eq_append_iff.mp hsplit
    obtain ⟨a, B', rfl, rfl, rfl⟩ := List.map_eq_cons_iff.mp htail
    have hrest : db.rest collate scope from_ (some a) = B' := by
      have hkey := db.sorted_keySorted hcollate scope from_
      rw [PositionTables.rest, hsorted]
      rw [hsorted] at hkey
      exact hkey.filter_after
    have h := listEvents_page db hcollate from_ hscope (some a)
      (A'.map Stored.change ++ [a.change]) (by simp) hlimit hroom
    rw [hrest] at h
    exact h

/-- The pages read by the next cursors are the plain list cut every `limit` rows: whole, each
event once and in order, no page too many, every page but the last full. -/
theorem list_read_whole (db : PositionTables texts convert) (collate : String → S)
    (hcollate : Function.Injective collate) (scope : EventScope) (from_ : Instant) (limit : Int64)
    (hlimit : 1 ≤ limit.toInt) (hroom : limit.toInt + 1 < 2 ^ 63) :
    (plainList texts collate db.events scope from_).Pairwise
      (fun a b => b.key texts collate < a.key texts collate) ∧
    (∀ c, c ∈ plainList texts collate db.events scope from_ ↔
      c ∈ db.events ∧ c.inScope scope = true ∧ columnInstant from_ ≤ c.timestamp) ∧
    ∃ pages : List (Page (PositionChange Fields)),
      (∀ ps, Follows
        (fun cursor => listEvents texts convert collate db.table scope from_ cursor limit)
        (fun p => follow p.nextCursor) none ps ↔ ps = pages) ∧
      (pages.map Page.items).flatten = plainList texts collate db.events scope from_ ∧
      pages.length = chunkCount limit.toInt.toNat (plainList texts collate db.events scope from_) ∧
      (∀ i p, pages[i]? = some p →
        p.items = chunk limit.toInt.toNat (plainList texts collate db.events scope from_) i) ∧
      ∀ i p, pages[i]? = some p → i + 1 < pages.length → (p.items.length : Int) = limit.toInt := by
  obtain ⟨n, hcast⟩ := Int.eq_ofNat_of_zero_le (show 0 ≤ limit.toInt by omega)
  have hn : 0 < n := by omega
  have hfollows := follows_list db hcollate scope from_ hn hcast hroom
  rw [hcast, Int.toNat_natCast]
  have hitems : ∀ i p, ((List.range (chunkCount n
      (plainList texts collate db.events scope from_))).map
        (fun i => withoutPrev (forwardPage (cursorOf scope from_)
          (plainList texts collate db.events scope from_) n i)))[i]? = some p →
      p.items = chunk n (plainList texts collate db.events scope from_) i := by
    intro i p hp
    rw [List.getElem?_map, Option.map_eq_some_iff] at hp
    obtain ⟨j, hj, rfl⟩ := hp
    obtain ⟨_, rfl⟩ := List.getElem?_eq_some_iff.mp hj
    rw [List.getElem_range]
    rfl
  refine ⟨?_, ?_, _, fun ps => hfollows.iff_eq, ?_, ?_, hitems, ?_⟩
  · rw [plainList_eq, List.pairwise_map]
    simp only [Stored.key_eq]
    exact db.sorted_keySorted hcollate scope from_
  · intro c
    rw [plainList, mem_orderBy, List.mem_filter, Bool.and_eq_true, decide_eq_true_iff]
  · rw [List.map_map]
    exact flatten_chunks hn _
  · rw [List.length_map, List.length_range]
  · intro i p hp hi
    rw [hitems i p hp, chunk, List.length_take, List.length_drop]
    rw [List.length_map, List.length_range, lt_chunkCount hn] at hi
    omega

def noColumns : PositionKind → Unit → Except RepositoryError Unit := fun _ _ => .ok ()

def secondSignature : Signature := ⟨List.replicate 63 0 ++ [1], by decide⟩

theorem convertI32ToU16_ofNat (v : UInt16) (field : String) :
    convertI32ToU16 (v.toNat : Int) field = .ok v := by
  have hv := v.toNat_lt
  rw [convertI32ToU16, if_pos ⟨by omega, by omega⟩, Int.toNat_natCast, UInt16.ofNat_toNat]

/-- A row at a whole second, in slot 7. -/
def positionRow (kind : PositionKind) (id second : Int) (signature : Signature)
    (eventIndex : UInt16) : Stored Texts.plain noColumns where
  kind := kind
  row := ⟨id, Texts.plain.pubkey.print zeroPubkey, Texts.plain.signature.print signature,
    second * 10 ^ 9, 7, none, eventIndex.toNat, ()⟩
  change := ⟨kind, zeroPubkey, signature, second * 10 ^ 9, 7, none, eventIndex, ()⟩
  reads := by
    simp only [PositionChange.tryFrom, convertStringToPubkey_print, convertStringToSignature_print,
      convertI32ToU16_ofNat]
    rfl
  poolAddress := rfl
  signature := rfl
  timestamp := columnInstant_second second

/-- The start of 2026, in seconds. -/
def newYear : Int := 1767225600

/-- Three rows of one second in three tables, two of them of one signature, and an older one. -/
def tiedRows : List (Stored Texts.plain noColumns) :=
  [positionRow .open_ 1 newYear zeroSignature 3, positionRow .close 1 newYear zeroSignature 4,
    positionRow .vestingLock 1 newYear secondSignature 3,
    positionRow .split 1 (newYear - 10) zeroSignature 0]

def tiedTables : PositionTables Texts.plain noColumns where
  stored := tiedRows
  unique_event := by decide +kernel
  unique_id := by decide +kernel

/-- A nanosecond after the oldest row. -/
def pastOldest : Instant := (newYear - 10) * 10 ^ 9 + 1

/-- The rows of one second fall on both sides of a page's end. -/
theorem list_read_whole_tied :
    ∃ pages : List (Page (PositionChange Unit)),
      (∀ ps, Follows
        (fun cursor => listEvents Texts.plain noColumns id tiedTables.table .all pastOldest cursor 2)
        (fun p => follow p.nextCursor) none ps ↔ ps = pages) ∧
      pages.map (fun p => p.items.map PositionChange.kind) =
        [[.vestingLock, .close], [.open_, .split]] := by
  obtain ⟨-, -, pages, hfollows, -, hlength, hitems, -⟩ :=
    list_read_whole tiedTables (id : String → String) Function.injective_id .all pastOldest 2
      (by decide) (by decide)
  refine ⟨pages, hfollows, ?_⟩
  have htwo : pages.length = 2 := hlength.trans (by decide +kernel)
  obtain ⟨p, q, rfl⟩ := List.length_eq_two.mp htwo
  have hp := hitems 0 p rfl
  have hq := hitems 1 q rfl
  rw [List.map_cons, List.map_cons, List.map_nil, hp, hq]
  decide +kernel

/-- A row older than `from` by less than a microsecond is read, and no `i64` is past the greatest
limit. -/
theorem list_read_early :
    ((listEvents Texts.plain noColumns id tiedTables.table .all pastOldest none 10).toOption.map
        (fun page => page.items.map PositionChange.timestamp) =
      some [newYear * 10 ^ 9, newYear * 10 ^ 9, newYear * 10 ^ 9, (newYear - 10) * 10 ^ 9]) ∧
    (newYear - 10) * 10 ^ 9 < pastOldest ∧
    listEvents Texts.plain noColumns id tiedTables.table .all pastOldest none Int64.maxValue =
      .error (.backend "error returned from database: LIMIT must not be negative") :=
  ⟨by decide +kernel, by decide, rfl⟩

end YogSothoth.PositionChanges
