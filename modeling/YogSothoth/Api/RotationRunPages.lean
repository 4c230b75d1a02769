import YogSothoth.Api.RotationRunService
import YogSothoth.Framework.KeysetWalk

namespace YogSothoth.RotationRunList

open Analytic (Analytics TranchePeriod)

variable [LinearOrder Pubkey]

def RotationRun.key (r : RotationRun) : Pubkey ×ₗ Int := toLex (r.poolAddress, r.startedAt)

/-- The runs a list pages through, whatever its order. -/
def listed (db : Analytics Pubkey) (period : TranchePeriod) (scope : RotationRunScope) :
    List Entry :=
  db.runs.runs.entries.filter (fun e : Entry => e.inScope scope ∧ e.inPeriod period)

/-- A number of six places within the 96 bits of a `Decimal` is converted exactly. -/
def HoldsSixPlaces (decimal : ℚ → String → Except RepositoryError Decimal) : Prop :=
  ∀ (m : Int) (field : String) (d : Decimal), m.natAbs < 2 ^ 96 →
    decimal ((m : ℚ) / 10 ^ 6) field = .ok d → d.value = (m : ℚ) / 10 ^ 6

/-- Whether the cursor of a run holds its volume exactly. -/
def Entry.Held (e : Entry) : Prop := (roundAt 6 e.2.volumeUsd).natAbs < 2 ^ 96

/-- What an order sorts by, on a run and on a cursor made of one that `held` lets through. -/
structure Ordered {K : Type*} [LinearOrder K]
    (decimal : ℚ → String → Except RepositoryError Decimal) (order : RotationRunOrder)
    (key : Entry → K) (cursorKey : RotationRunCursor → K) (held : Entry → Prop) : Prop where
  select : ∀ db period scope cursor limit, selectRuns db period scope order cursor limit =
    (rowsAfter key (cursor.map cursorKey) (listed db period scope)).take limit.toNat
  cursor : ∀ (e : Entry) (c : RotationRunCursor), held e →
    decimal e.volumeKey "volume_key" = .ok c.volumeUsd → c.startedAt = e.startedAt →
      c.poolAddress = e.poolAddress → cursorKey c = key e
  key_injective : ∀ a b : Entry, key a = key b → a.1 = b.1

variable {decimal : ℚ → String → Except RepositoryError Decimal}

def cursorByVolume (c : RotationRunCursor) : ℚᵒᵈ ×ₗ Pubkey ×ₗ Int :=
  toLex (OrderDual.toDual c.volumeUsd.value, toLex (c.poolAddress, c.startedAt))

def cursorByStart (c : RotationRunCursor) : Intᵒᵈ ×ₗ Pubkey :=
  toLex (OrderDual.toDual c.startedAt, c.poolAddress)

theorem pastVolume_eq (e : Entry) (c : RotationRunCursor) :
    e.pastVolume c = decide (cursorByVolume c < e.byVolume) := by
  rw [Entry.pastVolume, decide_eq_decide, cursorByVolume, Entry.byVolume, Prod.Lex.toLex_lt_toLex,
    Prod.Lex.toLex_lt_toLex]
  simp only [OrderDual.toDual_lt_toDual, OrderDual.toDual_inj, eq_comm]

theorem pastStart_eq (e : Entry) (c : RotationRunCursor) :
    e.pastStart c = decide (cursorByStart c < e.byStart) := by
  rw [Entry.pastStart, decide_eq_decide, cursorByStart, Entry.byStart, Prod.Lex.toLex_lt_toLex]
  simp only [OrderDual.toDual_lt_toDual, OrderDual.toDual_inj, eq_comm]

/-- A `WHERE` past the cursor, in order, is the keyset of the order. -/
theorem rowsAfter_listed {K : Type*} [LinearOrder K] {key : Entry → K}
    {cursorKey : RotationRunCursor → K} {past : Entry → RotationRunCursor → Bool}
    (hpast : ∀ e c, past e c = decide (cursorKey c < key e)) (db : Analytics Pubkey)
    (period : TranchePeriod) (scope : RotationRunScope) (cursor : Option RotationRunCursor) :
    orderBy key (db.runs.runs.entries.filter (fun e : Entry =>
      e.inScope scope ∧ e.inPeriod period ∧ cursor.all (past e))) =
        rowsAfter key (cursor.map cursorKey) (listed db period scope) := by
  rw [rowsAfter, listed, List.filter_filter]
  congr 1
  apply List.filter_congr
  intro e _
  have hall : cursor.all (past e) = (cursor.map cursorKey).all (fun c => decide (c < key e)) := by
    cases cursor with
    | none => rfl
    | some c => exact hpast e c
  rw [hall, Bool.eq_iff_iff]
  simp only [decide_eq_true_eq, Bool.and_eq_true]
  tauto

theorem ordered_volume (hdecimal : HoldsSixPlaces decimal) :
    Ordered decimal .volume Entry.byVolume cursorByVolume Entry.Held := by
  constructor
  · intro db period scope cursor limit
    rw [← rowsAfter_listed pastVolume_eq]
    rfl
  · intro e c hheld hvolume hstart hpool
    have hvalue : c.volumeUsd.value = e.volumeKey := hdecimal _ _ _ hheld hvolume
    rw [cursorByVolume, hvalue, hstart, hpool, Entry.byVolume]
  · intro a b hab
    have hpair := congrArg (fun k => (ofLex k).2) hab
    exact hpair

theorem ordered_start : Ordered decimal .at_ Entry.byStart cursorByStart (fun _ => True) := by
  constructor
  · intro db period scope cursor limit
    rw [← rowsAfter_listed pastStart_eq]
    rfl
  · intro e c _ _ hstart hpool
    rw [cursorByStart, hstart, hpool, Entry.byStart]
  · intro a b hab
    obtain ⟨hstart, hpool⟩ := Prod.mk.inj (toLex.injective hab)
    exact congrArg toLex (Prod.ext hpool hstart)

omit [LinearOrder Pubkey] in
theorem intoKeyed_ok {row : RotationRunRow} {r : RotationRun × Decimal}
    (h : row.intoKeyed decimal = .ok r) : decimal row.volumeKey "volume_key" = .ok r.2 ∧
      r.1.poolAddress = row.poolAddress ∧ r.1.startedAt = row.startedAt := by
  rw [RotationRunRow.intoKeyed] at h
  obtain ⟨key, hkey, h⟩ := bind_eq_ok h
  obtain ⟨volume, -, h⟩ := bind_eq_ok h
  obtain ⟨firstHour, -, h⟩ := bind_eq_ok h
  cases h
  exact ⟨hkey, rfl, rfl⟩

omit [LinearOrder Pubkey] in
theorem read_keys {names : Names} {entries : List Entry} {runs : List (RotationRun × Decimal)}
    (h : List.Forall₂ (fun e r => (Entry.toRow names e).intoKeyed decimal = .ok r) entries runs) :
    runs.map (fun r => RotationRun.key r.1) = entries.map Prod.fst := by
  induction h with
  | nil => rfl
  | cons hread _ ih =>
    obtain ⟨-, hpool, hstart⟩ := intoKeyed_ok hread
    rw [List.map_cons, List.map_cons, ih, RotationRun.key, hpool, hstart]
    rfl

/-- What a page holds: the first runs past the cursor, and a cursor at the last of them when there
are more. -/
theorem listRuns_page {K : Type*} [LinearOrder K] {order : RotationRunOrder} {key : Entry → K}
    {cursorKey : RotationRunCursor → K} {held : Entry → Prop}
    (ho : Ordered decimal order key cursorKey held) {db : Analytics Pubkey} {names : Names}
    {period : TranchePeriod} {window : Window} {scope : RotationRunScope}
    {cursor : Option RotationRunCursor} {limit : Int} (hlimit : 1 ≤ limit) {page : Page RotationRun}
    (h : listRuns decimal db names period window scope order cursor limit = .ok page) :
    page.items.map RotationRun.key =
      ((rowsAfter key (cursor.map cursorKey) (listed db period scope)).take limit.toNat).map
        Prod.fst ∧
    (page.nextCursor = none →
      (rowsAfter key (cursor.map cursorKey) (listed db period scope)).length ≤ limit.toNat) ∧
    ∀ c, page.nextCursor = some (.rotationRun c) → c.asOf = period.asOf ∧
      ∃ e : Entry, ((rowsAfter key (cursor.map cursorKey) (listed db period scope)).take
        limit.toNat).getLast? = some e ∧ decimal e.volumeKey "volume_key" = .ok c.volumeUsd ∧
          c.startedAt = e.startedAt ∧ c.poolAddress = e.poolAddress := by
  obtain ⟨n, rfl⟩ := Int.eq_ofNat_of_zero_le (show 0 ≤ limit by omega)
  have hn : 0 < n := by omega
  rw [listRuns, ho.select, show ((n : Int) + 1).toNat = n + 1 by omega] at h
  rw [Int.toNat_natCast]
  generalize rowsAfter key (cursor.map cursorKey) (listed db period scope) = rows at h ⊢
  obtain ⟨runs, hruns, h⟩ := bind_eq_ok h
  cases h
  have hall := List.forall₂_map_left_iff.mp (forall₂_of_mapM_ok hruns)
  have hlength : runs.length ≤ n + 1 := by
    rw [← hall.length_eq]
    exact List.length_take_le _ _
  have htake := List.forall₂_take n hall
  rw [List.take_take, Nat.min_eq_left (Nat.le_succ n)] at htake
  obtain ⟨hitems, hnext⟩ := finalize_next (makeCursor period window scope order) hlength
    cursor.isSome
  have hdrop : (runs.drop n).isEmpty ↔ rows.length ≤ n := by
    rw [List.isEmpty_iff, List.drop_eq_nil_iff, ← hall.length_eq, List.length_take]
    omega
  refine ⟨?_, ?_, ?_⟩
  · rw [← read_keys htake, List.map_map, hitems]
    rfl
  · intro hnone
    rw [← hdrop]
    by_contra hmore
    simp only [hnext, if_neg hmore, Option.map_eq_none_iff, List.getLast?_eq_none_iff,
      List.take_eq_nil_iff] at hnone
    rcases hnone with rfl | rfl
    · omega
    · simp at hmore
  · intro c hc
    rw [hnext] at hc
    split_ifs at hc
    obtain ⟨r, hr, hcursor⟩ := Option.map_eq_some_iff.mp hc
    obtain ⟨e, he, hread⟩ := getLast?_of_forall₂ htake hr
    obtain ⟨hkey, hpool, hstart⟩ := intoKeyed_ok hread
    rw [makeCursor, Cursor.rotationRun.injEq] at hcursor
    subst hcursor
    exact ⟨rfl, e, he, hkey, hstart, hpool⟩

end YogSothoth.RotationRunList
