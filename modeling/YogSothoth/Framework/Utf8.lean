import Mathlib.Data.List.TakeWhile
import Mathlib.Data.String.Basic
import YogSothoth.Framework.Substrings

namespace YogSothoth

open String

/-- The text from a byte offset; none is the panic of an offset inside a character or past the end. -/
def sliceFrom : List Char → Nat → Option (List Char)
  | [], n => if n = 0 then some [] else none
  | c :: s, n =>
    if n = 0 then some (c :: s)
    else if c.utf8Size ≤ n then sliceFrom s (n - c.utf8Size) else none

/-- The text up to a byte offset. -/
def sliceTo : List Char → Nat → Option (List Char)
  | [], n => if n = 0 then some [] else none
  | c :: s, n =>
    if n = 0 then some []
    else if c.utf8Size ≤ n then (sliceTo s (n - c.utf8Size)).map (List.cons c) else none

def sliceText (s : List Char) (start stop : Nat) : Option (List Char) :=
  (sliceTo s stop).bind (sliceFrom · start)

/-- The byte offset of the first character a test accepts. -/
def findWhere (p : Char → Bool) : List Char → Option Nat
  | [] => none
  | c :: s => if p c then some 0 else (findWhere p s).map (· + c.utf8Size)

/-- The byte offset of the last occurrence of a character. -/
def findLast (c : Char) (s : List Char) : Option Nat := (splitLast c s).map (fun r => utf8Len r.1)

/-- The byte offset of the first occurrence of a text. -/
def findText (pat s : List Char) : Option Nat := (splitFirst pat s).map (fun r => utf8Len r.1)

def trimMatches (c : Char) (s : List Char) : List Char :=
  ((s.dropWhile (· == c)).reverse.dropWhile (· == c)).reverse

theorem utf8Len_pos {s : List Char} : 0 < utf8Len s ↔ s ≠ [] := by
  rw [Nat.pos_iff_ne_zero, Ne, utf8Len_eq_zero]

theorem sliceFrom_append (s t : List Char) : sliceFrom (s ++ t) (utf8Len s) = some t := by
  induction s with
  | nil => cases t <;> rfl
  | cons c s ih =>
    have hc := c.utf8Size_pos
    rw [List.cons_append, utf8Len_cons, sliceFrom, if_neg (by omega), if_pos (by omega),
      Nat.add_sub_cancel, ih]

theorem sliceTo_append (s t : List Char) : sliceTo (s ++ t) (utf8Len s) = some s := by
  induction s with
  | nil => cases t <;> rfl
  | cons c s ih =>
    have hc := c.utf8Size_pos
    rw [List.cons_append, utf8Len_cons, sliceTo, if_neg (by omega), if_pos (by omega),
      Nat.add_sub_cancel, ih, Option.map_some]

/-- A slice between two offsets that stand before and after a piece is that piece. -/
theorem sliceText_append (s t u : List Char) :
    sliceText (s ++ (t ++ u)) (utf8Len s) (utf8Len s + utf8Len t) = some t := by
  unfold sliceText
  rw [← utf8Len_append, ← List.append_assoc, sliceTo_append, Option.bind_some, sliceFrom_append]

theorem findWhere_eq (p : Char → Bool) (s : List Char) :
    findWhere p s = if s.any p then some (utf8Len (s.takeWhile (fun c => !p c))) else none := by
  induction s with
  | nil => rfl
  | cons c s ih =>
    unfold findWhere
    cases hc : p c with
    | true => simp [hc]
    | false =>
      rw [ih, List.any_cons, hc, Bool.false_or, List.takeWhile_cons_of_pos (by rw [hc]; rfl)]
      cases s.any p <;> simp [utf8Len_cons]

theorem findWhere_char (c : Char) (s : List Char) :
    findWhere (· == c) s =
      if c ∈ s then some (utf8Len (s.takeWhile (fun d => !(d == c)))) else none := by
  have hany : (s.any (· == c) = true) = (c ∈ s) := by simp
  rw [findWhere_eq]
  simp only [hany]

/-- Where no character passes the test, its prefix is the whole text. -/
theorem findWhere_getD (p : Char → Bool) (s : List Char) :
    (findWhere p s).getD (utf8Len s) = utf8Len (s.takeWhile (fun c => !p c)) := by
  rw [findWhere_eq]
  split_ifs with hany
  · rfl
  · rw [List.takeWhile_eq_self_iff.mpr]
    · rfl
    · intro c hc
      rw [Bool.not_eq_true']
      exact Bool.eq_false_iff.mpr fun hp => hany (List.any_eq_true.mpr ⟨c, hc, hp⟩)

theorem trimMatches_isEmpty (c : Char) (s : List Char) :
    (trimMatches c s).isEmpty = s.all (· == c) := by
  rw [Bool.eq_iff_iff, List.isEmpty_iff, List.all_eq_true]
  unfold trimMatches
  rw [List.reverse_eq_nil_iff, List.dropWhile_eq_nil_iff]
  constructor
  · intro h d hd
    by_contra hne
    have hnil : s.dropWhile (· == c) ≠ [] := by
      rw [Ne, List.dropWhile_eq_nil_iff]
      exact fun hall => hne (hall d hd)
    have hhead := List.head_dropWhile_not (· == c) hnil
    have hmem := h _ (List.mem_reverse.mpr (List.head_mem hnil))
    rw [hhead] at hmem
    exact Bool.false_ne_true hmem
  · intro h d hd
    exact h d (List.dropWhile_subset _ (List.mem_reverse.mp hd))

end YogSothoth
