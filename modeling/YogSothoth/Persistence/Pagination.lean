import Mathlib.Data.List.Basic
import YogSothoth.Framework.Keyset
import YogSothoth.Core.Page

namespace YogSothoth

/-- Traversal mode resolved from cursor, direction and position; a backward query walks against
the display order. -/
inductive QueryMode where
  | forward
  | backward
  deriving DecidableEq

def resolveQueryMode {C : Type} (position : Option PagePosition) (cursor : Option C)
    (direction : PageDirection) : QueryMode :=
  match position, cursor with
  | some .first, _ => .forward
  | some .last, _ => .backward
  | none, none => .forward
  | none, some _ =>
    match direction with
    | .next => .forward
    | .prev => .backward

def buildPageCursors {T : Type} (items : List T) (isFirst isLast : Bool) (makeCursor : T → Cursor) :
    Option Cursor × Option Cursor :=
  if items.isEmpty then (none, none)
  else
    (if isFirst then none else items.head?.map makeCursor,
      if isLast then none else items.getLast?.map makeCursor)

structure PageBuilder (T : Type) where
  items : List T
  effectiveLimit : Int
  mode : QueryMode
  hadCursor : Bool

def PageBuilder.finalize {T : Type} (b : PageBuilder T) (makeCursor : T → Cursor) : Page T :=
  let hasMore : Bool := b.effectiveLimit < b.items.length
  let truncated := if hasMore then b.items.take b.effectiveLimit.toNat else b.items
  let items := match b.mode with
    | .forward => truncated
    | .backward => truncated.reverse
  let flags := match b.mode with
    | .forward => (!b.hadCursor, !hasMore)
    | .backward => (!hasMore, !b.hadCursor)
  let cursors := buildPageCursors items flags.1 flags.2 makeCursor
  { items
    nextCursor := cursors.2
    prevCursor := cursors.1
    isFirst := flags.1
    isLast := flags.2 }

section Segment

variable {T : Type}

/-- The page that holds one stretch of a list, between what comes before and after it. -/
def segmentPage (makeCursor : T → Cursor) (before items after : List T) : Page T where
  items := items
  nextCursor := if after.isEmpty then none else items.getLast?.map makeCursor
  prevCursor := if before.isEmpty then none else items.head?.map makeCursor
  isFirst := before.isEmpty
  isLast := after.isEmpty

theorem buildPageCursors_eq (items : List T) (isFirst isLast : Bool) (makeCursor : T → Cursor) :
    buildPageCursors items isFirst isLast makeCursor =
      (if isFirst then none else items.head?.map makeCursor,
        if isLast then none else items.getLast?.map makeCursor) := by
  cases items with
  | nil => simp [buildPageCursors]
  | cons a as => simp [buildPageCursors]

theorem finalize_forward (makeCursor : T → Cursor) (before rest : List T) (n : Nat) :
    (PageBuilder.mk (rest.take (n + 1)) n .forward (!before.isEmpty)).finalize makeCursor =
      segmentPage makeCursor before (rest.take n) (rest.drop n) := by
  have hmore : decide ((n : Int) < ((rest.take (n + 1)).length : Int)) = !(rest.drop n).isEmpty := by
    rw [Bool.eq_iff_iff]
    simp only [decide_eq_true_eq, Bool.not_eq_true', List.isEmpty_eq_false_iff, ne_eq,
      List.drop_eq_nil_iff, List.length_take]
    omega
  have hcut : (if (!(rest.drop n).isEmpty) = true then (rest.take (n + 1)).take n
      else rest.take (n + 1)) = rest.take n := by
    rw [List.take_take, Nat.min_eq_left (Nat.le_succ n)]
    split_ifs with h
    · rfl
    · have hnil : rest.length ≤ n := by simpa using h
      rw [List.take_of_length_le hnil, List.take_of_length_le (by omega)]
  simp only [PageBuilder.finalize, segmentPage, hmore, Int.toNat_natCast, hcut, Bool.not_not,
    buildPageCursors_eq]

/-- A page read forward, whatever came before it. -/
theorem finalize_next (makeCursor : T → Cursor) {items : List T} {n : Nat}
    (hlength : items.length ≤ n + 1) (hadCursor : Bool) :
    ((PageBuilder.mk items n .forward hadCursor).finalize makeCursor).items = items.take n ∧
      ((PageBuilder.mk items n .forward hadCursor).finalize makeCursor).nextCursor =
        if (items.drop n).isEmpty then none else (items.take n).getLast?.map makeCursor := by
  have hfirst := finalize_forward makeCursor [] items n
  rw [List.take_of_length_le hlength] at hfirst
  have hitems : ((PageBuilder.mk items n .forward hadCursor).finalize makeCursor).items =
      ((PageBuilder.mk items n .forward false).finalize makeCursor).items := rfl
  have hnext : ((PageBuilder.mk items n .forward hadCursor).finalize makeCursor).nextCursor =
      ((PageBuilder.mk items n .forward false).finalize makeCursor).nextCursor := by
    simp only [PageBuilder.finalize, buildPageCursors_eq]
  rw [hitems, hnext]
  exact ⟨congrArg Page.items hfirst, congrArg Page.nextCursor hfirst⟩

theorem finalize_backward (makeCursor : T → Cursor) (rest after : List T) (n : Nat) :
    (PageBuilder.mk (rest.reverse.take (n + 1)) n .backward (!after.isEmpty)).finalize makeCursor =
      segmentPage makeCursor (rest.take (rest.length - n)) (rest.drop (rest.length - n)) after := by
  have hmore : decide ((n : Int) < ((rest.reverse.take (n + 1)).length : Int)) =
      !(rest.take (rest.length - n)).isEmpty := by
    rw [Bool.eq_iff_iff]
    simp only [decide_eq_true_eq, Bool.not_eq_true', List.isEmpty_eq_false_iff, ne_eq,
      List.length_take, List.length_reverse, ← List.length_eq_zero_iff]
    omega
  have hcut : (if (!(rest.take (rest.length - n)).isEmpty) = true
      then (rest.reverse.take (n + 1)).take n
      else rest.reverse.take (n + 1)) = rest.reverse.take n := by
    rw [List.take_take, Nat.min_eq_left (Nat.le_succ n)]
    split_ifs with h
    · rfl
    · have hnil : rest.length ≤ n := by
        simp only [Bool.not_eq_true', Bool.not_eq_false, List.isEmpty_iff,
          ← List.length_eq_zero_iff, List.length_take] at h
        omega
      have hrev : rest.reverse.length ≤ n := by simpa using hnil
      rw [List.take_of_length_le hrev, List.take_of_length_le (by omega)]
  have hitems : (rest.reverse.take n).reverse = rest.drop (rest.length - n) := by
    rw [List.take_reverse, List.reverse_reverse]
  simp only [PageBuilder.finalize, segmentPage, hmore, Int.toNat_natCast, hcut, Bool.not_not,
    buildPageCursors_eq, hitems]

/-- The `i`-th page of a list read forward, `n` items at a time. -/
def forwardPage (makeCursor : T → Cursor) (l : List T) (n i : Nat) : Page T :=
  segmentPage makeCursor (l.take (i * n)) (chunk n l i) (l.drop ((i + 1) * n))

/-- The `i`-th page of a list read backward from its end. -/
def backwardPage (makeCursor : T → Cursor) (l : List T) (n i : Nat) : Page T :=
  segmentPage makeCursor (l.take (l.length - (i + 1) * n)) (chunk n l.reverse i).reverse
    (l.drop (l.length - i * n))

theorem chunk_reverse (l : List T) (n i : Nat) :
    (chunk n l.reverse i).reverse = (l.take (l.length - i * n)).drop (l.length - (i + 1) * n) := by
  rw [chunk, List.drop_reverse, List.take_reverse, List.reverse_reverse, List.length_take,
    Nat.succ_mul]
  congr 1
  omega

theorem isLast_forwardPage (makeCursor : T → Cursor) (l : List T) {n : Nat} (hn : 0 < n) (i : Nat) :
    (forwardPage makeCursor l n i).isLast = true ↔ ¬ i + 1 < chunkCount n l := by
  rw [lt_chunkCount hn]
  simp only [forwardPage, segmentPage, List.isEmpty_iff, List.drop_eq_nil_iff, Nat.succ_mul]
  omega

theorem isFirst_backwardPage (makeCursor : T → Cursor) (l : List T) {n : Nat} (hn : 0 < n) (i : Nat) :
    (backwardPage makeCursor l n i).isFirst = true ↔ ¬ i + 1 < chunkCount n l := by
  rw [lt_chunkCount hn]
  simp only [backwardPage, segmentPage, List.isEmpty_iff, ← List.length_eq_zero_iff,
    List.length_take, Nat.succ_mul]
  omega

theorem lt_length_of_lt_chunkCount {l : List T} {n i : Nat} (hn : 0 < n) (hi : 0 < i)
    (hm : i < chunkCount n l) : i * n < l.length := by
  have h := (lt_chunkCount hn l (i - 1)).mp (by omega)
  have hmul : i * n = (i - 1) * n + n := by
    rw [← Nat.succ_mul, Nat.succ_eq_add_one, Nat.sub_add_cancel hi]
  omega

end Segment

section Walks

variable {T Q E : Type} {makeCursor : T → Cursor} {fetch : Q → Except E (Page T)} {first : Q}
  {follow : Option Cursor → Option Q} {l : List T} {n : Nat}

/-- A list whose pages are each cut after their cursor is read whole by its next cursors, whatever
a page is then given beside its items and its next cursor. -/
theorem follows_forward (wrap : Page T → Page T) (after : T → Q)
    (hwrap : ∀ p, (wrap p).nextCursor = p.nextCursor) (hn : 0 < n) (hnone : follow none = none)
    (hfollow : ∀ a, follow (some (makeCursor a)) = some (after a))
    (hfirst : fetch first = .ok (wrap (segmentPage makeCursor [] (l.take n) (l.drop n))))
    (hnext : ∀ A a B, l = A ++ a :: B →
      fetch (after a) = .ok (wrap (segmentPage makeCursor (A ++ [a]) (B.take n) (B.drop n)))) :
    Follows fetch (fun p => follow p.nextCursor) first
      ((List.range (chunkCount n l)).map (fun i => wrap (forwardPage makeCursor l n i))) := by
  let query : Nat → Q := fun i => ((l.take (i * n)).getLast?.map after).getD first
  have hquery : query 0 = first := by simp [query]
  rw [← hquery]
  apply follows_range (chunkCount_pos n l)
  · intro i hi
    rcases Nat.eq_zero_or_pos i with rfl | hpos
    · rw [hquery, hfirst]
      simp [forwardPage, chunk]
    · have hlt := lt_length_of_lt_chunkCount hn hpos hi
      have hne : l.take (i * n) ≠ [] := by
        rw [← List.length_pos_iff, List.length_take]
        have := Nat.mul_pos hpos hn
        omega
      obtain ⟨A, a, hA⟩ := (List.eq_nil_or_concat' (l.take (i * n))).resolve_left hne
      have hsplit : l = A ++ a :: l.drop (i * n) := by
        have h := List.take_append_drop (i * n) l
        rw [hA, List.append_assoc] at h
        exact h.symm
      have hq : query i = after a := by simp [query, hA]
      rw [hq, hnext A a _ hsplit, List.drop_drop, forwardPage, hA, chunk, Nat.succ_mul]
  · intro i hi
    by_cases hmore : i + 1 < chunkCount n l
    · have hlt := (lt_chunkCount hn l i).mp hmore
      have hdrop : l.drop ((i + 1) * n) ≠ [] := by
        rw [ne_eq, List.drop_eq_nil_iff, Nat.succ_mul]
        omega
      have hne : chunk n l i ≠ [] := by
        rw [← List.length_pos_iff, chunk, List.length_take, List.length_drop]
        omega
      obtain ⟨A, a, hA⟩ := (List.eq_nil_or_concat' (chunk n l i)).resolve_left hne
      have hq : query (i + 1) = after a := by
        simp only [query, ← take_chunk_succ, hA]
        simp
      rw [if_pos hmore, hq, ← hfollow a, hwrap]
      simp [forwardPage, segmentPage, hdrop, hA]
    · have hend := (isLast_forwardPage makeCursor l hn i).mpr hmore
      have hdrop : (l.drop ((i + 1) * n)).isEmpty = true := hend
      rw [if_neg hmore, ← hnone, hwrap]
      simp only [forwardPage, segmentPage, hdrop, if_true]

/-- The same, backward from the end by the previous cursors. -/
theorem follows_backward (after : T → Q) (hn : 0 < n) (hnone : follow none = none)
    (hfollow : ∀ a, follow (some (makeCursor a)) = some (after a))
    (hlast : fetch first =
      .ok (segmentPage makeCursor (l.take (l.length - n)) (l.drop (l.length - n)) []))
    (hprev : ∀ A a B, l = A ++ a :: B →
      fetch (after a) = .ok (segmentPage makeCursor (A.take (A.length - n)) (A.drop (A.length - n))
        (a :: B))) :
    Follows fetch (fun p => follow p.prevCursor) first
      ((List.range (chunkCount n l)).map (backwardPage makeCursor l n)) := by
  let query : Nat → Q := fun i => ((l.drop (l.length - i * n)).head?.map after).getD first
  have hquery : query 0 = first := by simp [query]
  rw [← hquery]
  apply follows_range (chunkCount_pos n l)
  · intro i hi
    rcases Nat.eq_zero_or_pos i with rfl | hpos
    · rw [hquery, hlast]
      simp [backwardPage, chunk_reverse]
    · have hlt := lt_length_of_lt_chunkCount hn hpos hi
      have hmul := Nat.mul_pos hpos hn
      obtain ⟨a, B, hB⟩ : ∃ a B, l.drop (l.length - i * n) = a :: B := by
        rw [← List.ne_nil_iff_exists_cons, ne_eq, List.drop_eq_nil_iff]
        omega
      have hsplit : l = l.take (l.length - i * n) ++ a :: B := by
        rw [← hB, List.take_append_drop]
      have hq : query i = after a := by
        simp only [query, hB, List.head?_cons, Option.map_some, Option.getD_some]
      have hlen : (l.take (l.length - i * n)).length - n = l.length - (i + 1) * n := by
        rw [List.length_take, Nat.succ_mul]
        omega
      have hmin : min (l.length - (i + 1) * n) (l.length - i * n) = l.length - (i + 1) * n := by
        rw [Nat.succ_mul]
        omega
      rw [hq, hprev _ a B hsplit, hlen, List.take_take, hmin, backwardPage, chunk_reverse, hB]
  · intro i hi
    by_cases hmore : i + 1 < chunkCount n l
    · have hlt := (lt_chunkCount hn l i).mp hmore
      have htake : l.take (l.length - (i + 1) * n) ≠ [] := by
        rw [← List.length_pos_iff, List.length_take, Nat.succ_mul]
        omega
      obtain ⟨a, B, hB⟩ : ∃ a B, (chunk n l.reverse i).reverse = a :: B := by
        rw [← List.ne_nil_iff_exists_cons, chunk_reverse, ← List.length_pos_iff, List.length_drop,
          List.length_take, Nat.succ_mul]
        omega
      have hq : query (i + 1) = after a := by
        have hhead : (l.drop (l.length - (i + 1) * n)).head? = some a := by
          have h := congrArg List.head? hB
          rw [chunk_reverse, List.drop_take, List.head?_take, if_neg] at h
          · exact h
          · rw [Nat.succ_mul]
            omega
        simp only [query, hhead, Option.map_some, Option.getD_some]
      rw [if_pos hmore, hq, ← hfollow a]
      simp [backwardPage, segmentPage, htake, hB]
    · have hend := (isFirst_backwardPage makeCursor l hn i).mpr hmore
      have htake : (l.take (l.length - (i + 1) * n)).isEmpty = true := hend
      rw [if_neg hmore, ← hnone]
      simp only [backwardPage, segmentPage, htake, if_true]

end Walks

end YogSothoth
