import YogSothoth.Framework.Keyset

namespace YogSothoth

variable {α K : Type*} [LinearOrder K]

/-- The rows past a cursor, in order. -/
def rowsAfter (key : α → K) (cursor : Option K) (rows : List α) : List α :=
  orderBy key (rows.filter (fun a => cursor.all (fun c => c < key a)))

/-- Pages of `n` rows, each read past the last row of the page before, of tables that may change in
between: the tables, and the rows of all the pages. -/
inductive KeysetReads (key : α → K) (n : Nat) : Option K → List (List α) → List α → Prop
  | last {cursor : Option K} {rows : List α} (hend : (rowsAfter key cursor rows).length ≤ n) :
    KeysetReads key n cursor [rows] (rowsAfter key cursor rows)
  | next {cursor : Option K} {rows : List α} {a : α} {tables : List (List α)} {items : List α}
    (hlast : ((rowsAfter key cursor rows).take n).getLast? = some a)
    (rest : KeysetReads key n (some (key a)) tables items) :
    KeysetReads key n cursor (rows :: tables) ((rowsAfter key cursor rows).take n ++ items)

variable {key : α → K} {n : Nat} {rows : List α}

theorem mem_rowsAfter {cursor : Option K} {a : α} :
    a ∈ rowsAfter key cursor rows ↔ a ∈ rows ∧ cursor.all (fun c => c < key a) := by
  rw [rowsAfter, mem_orderBy, List.mem_filter]

theorem rowsAfter_sorted (hkeys : (rows.map key).Nodup) (cursor : Option K) :
    KeySorted key (rowsAfter key cursor rows) :=
  orderBy_sorted (nodup_map_filter hkeys _)

/-- What a page leaves is past its last row. -/
theorem drop_rowsAfter (hkeys : (rows.map key).Nodup) {cursor : Option K} {a : α}
    (hlast : ((rowsAfter key cursor rows).take n).getLast? = some a) :
    (rowsAfter key cursor rows).drop n = rowsAfter key (some (key a)) rows := by
  obtain ⟨before, hbefore⟩ := List.getLast?_eq_some_iff.mp hlast
  have hsplit : rowsAfter key cursor rows = before ++ a :: (rowsAfter key cursor rows).drop n := by
    have h := List.take_append_drop n (rowsAfter key cursor rows)
    rw [hbefore, List.append_assoc] at h
    exact h.symm
  have hsorted := rowsAfter_sorted hkeys cursor
  have hmem : a ∈ rowsAfter key cursor rows := by
    rw [hsplit]
    simp
  have hpast := (mem_rowsAfter.mp hmem).2
  have hdrop := KeySorted.filter_after (hsplit ▸ hsorted)
  rw [← hsplit] at hdrop
  rw [← hdrop, rowsAfter, rowsAfter, ← orderBy_filter (nodup_map_filter hkeys _), List.filter_filter]
  congr 1
  apply List.filter_congr
  intro b _
  have himp : key a < key b → cursor.all (fun c => c < key b) := by
    intro hlt
    cases cursor with
    | none => rfl
    | some c =>
      have hc : c < key a := by simpa using hpast
      simpa using hc.trans hlt
  by_cases hlt : key a < key b
  · simp [hlt, himp hlt]
  · simp [hlt]

/-- A row is past the cursor or it is not. -/
theorem countP_rowsAfter {p : α → Bool} {a : α} (hrow : rows.filter p = [a]) (cursor : Option K) :
    (rowsAfter key cursor rows).countP p = if cursor.all (fun c => c < key a) then 1 else 0 := by
  rw [rowsAfter, (orderBy_perm key _).countP_eq, List.countP_eq_length_filter, List.filter_comm, hrow,
    List.filter_singleton]
  cases cursor.all (fun c => c < key a) with
  | false => rfl
  | true => rfl

/-- A row whose key stays the same is read once when the first cursor is before it, and never when
it is not, whatever becomes of the other rows. -/
theorem KeysetReads.countP_eq {cursor : Option K} {tables : List (List α)} {items : List α}
    (h : KeysetReads key n cursor tables items) {p : α → Bool} {k : K}
    (hkeys : ∀ rows ∈ tables, (rows.map key).Nodup)
    (hrow : ∀ rows ∈ tables, ∃ a, rows.filter p = [a] ∧ key a = k) :
    items.countP p = if cursor.all (fun c => c < k) then 1 else 0 := by
  induction h with
  | last hend =>
    obtain ⟨a, ha, rfl⟩ := hrow _ List.mem_cons_self
    exact countP_rowsAfter ha _
  | next hlast rest ih =>
    obtain ⟨a, ha, rfl⟩ := hrow _ List.mem_cons_self
    have hrest := ih (fun r hr => hkeys r (List.mem_cons_of_mem _ hr))
      (fun r hr => hrow r (List.mem_cons_of_mem _ hr))
    have hleft := drop_rowsAfter (hkeys _ List.mem_cons_self) hlast
    rw [← countP_rowsAfter ha, List.countP_append, hrest, ← countP_rowsAfter ha, ← hleft,
      ← List.countP_append, List.take_append_drop]

end YogSothoth
