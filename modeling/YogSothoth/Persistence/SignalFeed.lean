import YogSothoth.Persistence.Signals

namespace YogSothoth.Signals

/-- Whether a filter keeps a record. -/
def SignalRecord.matched (r : SignalRecord) (filter : SignalFilter) : Bool :=
  (filter.severity.all (fun s => r.signal.severity = s)) &&
  (filter.pool.all (fun p => r.signal.poolAddress = p)) &&
  (filter.protocol.all (fun p => r.signal.protocol = p))

def SignalRecord.key (r : SignalRecord) : Int ×ₗ Int := toLex (r.signal.triggeredAt, r.id.toInt)

/-- The records of a filter in display order: `(triggered_at, id)` descending. -/
def feed (records : List SignalRecord) (filter : SignalFilter) : List SignalRecord :=
  orderBy (fun r => OrderDual.toDual r.key) (records.filter (fun r => r.matched filter))

/-- What a page of the feed is asked with. -/
structure Query where
  cursor : Option SignalCursor
  direction : PageDirection
  position : Option PagePosition

def Query.follow (direction : PageDirection) (c : Option Cursor) : Option Query :=
  match c with
  | some (.signal c) => some ⟨some c, direction, none⟩
  | _ => none

theorem Severity.fromStr_asStr (s : Severity) : Severity.fromStr s.asStr = some s := by
  cases s <;> decide

theorem Severity.asStr_injective {s t : Severity} (h : s.asStr = t.asStr) : s = t := by
  have hs := Severity.fromStr_asStr s
  rw [h, Severity.fromStr_asStr, Option.some.injEq] at hs
  exact hs.symm

section Read

variable (texts : Texts)

theorem SignalRecord.tryFrom_of (r : SignalRecord) :
    SignalRecord.tryFrom texts (SignalRow.of texts r) = .ok r := by
  obtain ⟨id, detector, protocol, pool, severity, value, threshold, message, at_⟩ := r
  cases threshold <;>
    simp [SignalRecord.tryFrom, SignalRow.of, Severity.fromStr_asStr, convertOptional, bind,
      Except.bind, pure, Except.pure, Except.map]

theorem SignalRow.kept_of (r : SignalRecord) (filter : SignalFilter) :
    (SignalRow.of texts r).kept texts filter = r.matched filter := by
  have hseverity : ∀ s : Severity, (r.signal.severity.asStr = s.asStr) = (r.signal.severity = s) :=
    fun s => propext ⟨Severity.asStr_injective, fun h => by rw [h]⟩
  have hprotocol : ∀ p : Protocol, (r.signal.protocol.asStr = p.asStr) = (r.signal.protocol = p) :=
    fun p => propext ⟨Protocol.asStr_injective, fun h => by rw [h]⟩
  have hpool : ∀ p : Pubkey, (texts.pubkey.print r.signal.poolAddress = texts.pubkey.print p) =
      (r.signal.poolAddress = p) :=
    fun p => propext ⟨texts.pubkey.print_injective, fun h => by rw [h]⟩
  simp only [SignalRow.kept, SignalRecord.matched, SignalRow.of, hseverity, hprotocol, hpool]

theorem SignalRow.key_of (r : SignalRecord) : (SignalRow.of texts r).key = r.key := rfl

theorem SignalRow.beforeCursor_of (r a : SignalRecord) :
    (SignalRow.of texts r).beforeCursor (cursorOf a) = decide (r.key < a.key) := by
  rw [Bool.eq_iff_iff, decide_eq_true_iff, SignalRecord.key, SignalRecord.key,
    Prod.Lex.toLex_lt_toLex, SignalRow.beforeCursor, Bool.or_eq_true, Bool.and_eq_true,
    decide_eq_true_iff, decide_eq_true_iff, decide_eq_true_iff]
  rfl

theorem SignalRow.afterCursor_of (r a : SignalRecord) :
    (SignalRow.of texts r).afterCursor (cursorOf a) = decide (a.key < r.key) := by
  rw [Bool.eq_iff_iff, decide_eq_true_iff, SignalRecord.key, SignalRecord.key,
    Prod.Lex.toLex_lt_toLex, SignalRow.afterCursor, Bool.or_eq_true, Bool.and_eq_true,
    decide_eq_true_iff, decide_eq_true_iff, decide_eq_true_iff]
  exact or_congr Iff.rfl (and_congr eq_comm Iff.rfl)

end Read

section Pages

variable (texts : Texts) {records : List SignalRecord} (unique : (records.map SignalRecord.id).Nodup)

/-- The columns of a whole table. -/
def tableOf (records : List SignalRecord) : List SignalRow := records.map (SignalRow.of texts)

def effectiveLimit (limit : Int) : Nat := (max 1 (min limit maxPageSize)).toNat

theorem effectiveLimit_pos (limit : Int) : 0 < effectiveLimit limit := by
  unfold effectiveLimit
  omega

theorem effectiveLimit_cast (limit : Int) :
    (effectiveLimit limit : Int) = max 1 (min limit maxPageSize) := by
  unfold effectiveLimit
  omega

include unique in
theorem keys_nodup : (records.map SignalRecord.key).Nodup := by
  rw [List.Nodup, List.pairwise_map] at unique ⊢
  apply unique.imp
  intro a b hne hkey
  have hid : a.id.toInt = b.id.toInt := congrArg (fun k => (ofLex k).2) hkey
  exact hne (Int64.toInt_inj.mp hid)

include unique in
theorem feed_sorted (filter : SignalFilter) :
    KeySorted (fun r => OrderDual.toDual (SignalRecord.key r)) (feed records filter) :=
  orderBy_sorted (nodup_map_filter (keys_nodup unique) _)

theorem select_forward (filter : SignalFilter) (cursor : Option SignalRecord) (k : Nat)
    (hnodup : (records.map SignalRecord.key).Nodup) :
    selectRows texts (tableOf texts records) .forward filter (cursor.map cursorOf) k =
      (((feed records filter).filter (fun r => cursor.all (fun a => r.key < a.key))).take k).map
        (SignalRow.of texts) := by
  have hdual : ((records.filter (fun r => r.matched filter)).map
      (fun r => OrderDual.toDual (SignalRecord.key r))).Nodup := nodup_map_filter hnodup _
  have hwhere : (tableOf texts records).filter
      (fun r => r.kept texts filter && (cursor.map cursorOf).all r.beforeCursor) =
      ((records.filter (fun r => r.matched filter)).filter
        (fun r => cursor.all (fun a => r.key < a.key))).map (SignalRow.of texts) := by
    rw [tableOf, List.filter_map, List.filter_filter]
    congr 1
    apply List.filter_congr
    intro r _
    cases cursor with
    | none => simp [SignalRow.kept_of]
    | some a => simp [SignalRow.kept_of, SignalRow.beforeCursor_of, Bool.and_comm]
  simp only [selectRows, hwhere, orderBy_map, SignalRow.key_of, Int.toNat_natCast, ← List.map_take]
  rw [orderBy_filter hdual]
  rfl

theorem select_backward (filter : SignalFilter) (cursor : Option SignalRecord) (k : Nat)
    (hnodup : (records.map SignalRecord.key).Nodup) :
    selectRows texts (tableOf texts records) .backward filter (cursor.map cursorOf) k =
      (((feed records filter).filter
        (fun r => cursor.all (fun a => a.key < r.key))).reverse.take k).map (SignalRow.of texts) := by
  have hkeys : ((records.filter (fun r => r.matched filter)).map SignalRecord.key).Nodup :=
    nodup_map_filter hnodup _
  have hwhere : (tableOf texts records).filter
      (fun r => r.kept texts filter && (cursor.map cursorOf).all r.afterCursor) =
      ((records.filter (fun r => r.matched filter)).filter
        (fun r => cursor.all (fun a => a.key < r.key))).map (SignalRow.of texts) := by
    rw [tableOf, List.filter_map, List.filter_filter]
    congr 1
    apply List.filter_congr
    intro r _
    cases cursor with
    | none => simp [SignalRow.kept_of]
    | some a => simp [SignalRow.kept_of, SignalRow.afterCursor_of, Bool.and_comm]
  simp only [selectRows, hwhere, orderBy_map, SignalRow.key_of, Int.toNat_natCast, ← List.map_take]
  rw [orderBy_filter hkeys, feed, orderBy_dual hkeys, List.filter_reverse, List.reverse_reverse]

def makeCursor (r : SignalRecord) : Cursor := .signal (cursorOf r)

theorem read_records (l : List SignalRecord) :
    (l.map (SignalRow.of texts)).mapM (SignalRecord.tryFrom texts) = .ok l := by
  rw [List.mapM_map]
  have h := mapM_ok_of_forall (f := fun r => SignalRecord.tryFrom texts (SignalRow.of texts r))
    (g := id) (l := l) (fun r _ => SignalRecord.tryFrom_of texts r)
  rw [List.map_id] at h
  exact h

include unique in
/-- Forward, a page is cut from what follows its cursor. -/
theorem list_forward {filter : SignalFilter} (limit : Int) (q : Query) (cursor : Option SignalRecord)
    {before rest : List SignalRecord}
    (hmode : resolveQueryMode q.position q.cursor q.direction = .forward)
    (hcursor : (if q.position.isSome then none else q.cursor) = cursor.map cursorOf)
    (hbefore : before.isEmpty = cursor.isNone)
    (hrest : (feed records filter).filter (fun r => cursor.all (fun a => r.key < a.key)) = rest) :
    list texts (tableOf texts records) filter q.cursor q.direction q.position limit =
      .ok (segmentPage makeCursor before (rest.take (effectiveLimit limit))
        (rest.drop (effectiveLimit limit))) := by
  have hselect := select_forward texts filter cursor (effectiveLimit limit + 1) (keys_nodup unique)
  rw [hrest] at hselect
  have hhad : (cursor.map cursorOf).isSome = !before.isEmpty := by
    rw [hbefore]
    cases cursor <;> rfl
  simp only [list, hmode, hcursor, ← effectiveLimit_cast]
  rw [show (effectiveLimit limit : Int) + 1 = ((effectiveLimit limit + 1 : Nat) : Int) by simp,
    hselect, read_records, hhad]
  exact congrArg Except.ok (finalize_forward makeCursor before rest (effectiveLimit limit))

include unique in
theorem list_backward {filter : SignalFilter} (limit : Int) (q : Query) (cursor : Option SignalRecord)
    {rest after : List SignalRecord}
    (hmode : resolveQueryMode q.position q.cursor q.direction = .backward)
    (hcursor : (if q.position.isSome then none else q.cursor) = cursor.map cursorOf)
    (hafter : after.isEmpty = cursor.isNone)
    (hrest : (feed records filter).filter (fun r => cursor.all (fun a => a.key < r.key)) = rest) :
    list texts (tableOf texts records) filter q.cursor q.direction q.position limit =
      .ok (segmentPage makeCursor (rest.take (rest.length - effectiveLimit limit))
        (rest.drop (rest.length - effectiveLimit limit)) after) := by
  have hselect := select_backward texts filter cursor (effectiveLimit limit + 1) (keys_nodup unique)
  rw [hrest] at hselect
  have hhad : (cursor.map cursorOf).isSome = !after.isEmpty := by
    rw [hafter]
    cases cursor <;> rfl
  simp only [list, hmode, hcursor, ← effectiveLimit_cast]
  rw [show (effectiveLimit limit : Int) + 1 = ((effectiveLimit limit + 1 : Nat) : Int) by simp,
    hselect, read_records, hhad]
  exact congrArg Except.ok (finalize_backward makeCursor rest after (effectiveLimit limit))

include unique in
theorem list_first {filter : SignalFilter} (limit : Int) (q : Query)
    (hq : q.position = some .first ∨ q.position = none ∧ q.cursor = none) :
    list texts (tableOf texts records) filter q.cursor q.direction q.position limit =
      .ok (segmentPage makeCursor [] ((feed records filter).take (effectiveLimit limit))
        ((feed records filter).drop (effectiveLimit limit))) := by
  apply list_forward texts unique limit q none
  · rcases hq with hq | ⟨hq, hc⟩
    · rw [hq]
      rfl
    · rw [hq, hc]
      rfl
  · rcases hq with hq | ⟨hq, hc⟩
    · rw [hq]
      rfl
    · rw [hq, hc]
      rfl
  · rfl
  · exact List.filter_eq_self.mpr (fun _ _ => rfl)

include unique in
theorem list_last {filter : SignalFilter} (limit : Int) (cursor : Option SignalCursor)
    (direction : PageDirection) :
    list texts (tableOf texts records) filter cursor direction (some .last) limit =
      .ok (segmentPage makeCursor
        ((feed records filter).take ((feed records filter).length - effectiveLimit limit))
        ((feed records filter).drop ((feed records filter).length - effectiveLimit limit)) []) := by
  apply list_backward texts unique limit ⟨cursor, direction, some .last⟩ none rfl rfl rfl
  exact List.filter_eq_self.mpr (fun _ _ => rfl)

include unique in
theorem list_next {filter : SignalFilter} (limit : Int) {A B : List SignalRecord} {a : SignalRecord}
    (h : feed records filter = A ++ a :: B) :
    list texts (tableOf texts records) filter (some (cursorOf a)) .next none limit =
      .ok (segmentPage makeCursor (A ++ [a]) (B.take (effectiveLimit limit))
        (B.drop (effectiveLimit limit))) := by
  apply list_forward texts unique limit ⟨some (cursorOf a), .next, none⟩ (some a) rfl rfl
  · simp
  · have hsorted := feed_sorted unique filter
    rw [h] at hsorted ⊢
    exact hsorted.filter_after

include unique in
theorem list_prev {filter : SignalFilter} (limit : Int) {A B : List SignalRecord} {a : SignalRecord}
    (h : feed records filter = A ++ a :: B) :
    list texts (tableOf texts records) filter (some (cursorOf a)) .prev none limit =
      .ok (segmentPage makeCursor (A.take (A.length - effectiveLimit limit))
        (A.drop (A.length - effectiveLimit limit)) (a :: B)) := by
  apply list_backward texts unique limit ⟨some (cursorOf a), .prev, none⟩ (some a) rfl rfl rfl
  have hsorted := feed_sorted unique filter
  rw [h] at hsorted ⊢
  exact hsorted.filter_before

end Pages

end YogSothoth.Signals
