import Mathlib.Data.List.Basic
import Mathlib.Data.List.Infix

namespace YogSothoth

variable {α : Type} [DecidableEq α]

/-- What stands before and after the first occurrence of a pattern. -/
def splitFirst (pat : List α) : List α → Option (List α × List α)
  | [] => if pat.isPrefixOf [] then some ([], []) else none
  | c :: s =>
    if pat.isPrefixOf (c :: s) then some ([], (c :: s).drop pat.length)
    else (splitFirst pat s).map (fun r => (c :: r.1, r.2))

/-- What stands before and after the last occurrence of an element. -/
def splitLast (c : α) : List α → Option (List α × List α)
  | [] => none
  | d :: s =>
    match splitLast c s with
    | some (before, after) => some (d :: before, after)
    | none => if d = c then some ([], s) else none

def piecesLoop (pat : List α) : Nat → List α → List (List α)
  | 0, s => [s]
  | n + 1, s => (splitFirst pat s).elim [s] (fun r => r.1 :: piecesLoop pat n r.2)

/-- A list cut at each occurrence of a pattern, from the left. -/
def pieces (pat s : List α) : List (List α) := piecesLoop pat s.length s

/-- Each occurrence of a pattern, from the left, replaced. -/
def replaceAll (pat new s : List α) : List α := new.intercalate (pieces pat s)

/-- The texts left out when chunks are placed in order, each as early as it can be. -/
def gaps : List (List α) → List α → Option (List (List α))
  | [], rest => some (if rest = [] then [] else [rest])
  | chunk :: chunks, rest =>
    if chunk = [] then gaps chunks rest
    else (splitFirst chunk rest).bind fun r =>
      (gaps chunks r.2).map fun left => if r.1 = [] then left else r.1 :: left

section First

variable {pat s before after : List α} {r : List α × List α}

theorem splitFirst_spec (h : splitFirst pat s = some r) :
    s = r.1 ++ (pat ++ r.2) ∧ ∀ x y, s = x ++ (pat ++ y) → r.1.length ≤ x.length := by
  induction s generalizing r with
  | nil =>
    unfold splitFirst at h
    split_ifs at h with hpat
    have hnil := List.prefix_nil.mp (List.isPrefixOf_iff_prefix.mp hpat)
    rw [← Option.some.inj h, hnil]
    exact ⟨rfl, fun _ _ _ => Nat.zero_le _⟩
  | cons c s ih =>
    unfold splitFirst at h
    split_ifs at h with hpat
    · obtain ⟨rest, hrest⟩ := List.isPrefixOf_iff_prefix.mp hpat
      rw [← Option.some.inj h, ← hrest, List.drop_left]
      exact ⟨rfl, fun _ _ _ => Nat.zero_le _⟩
    · obtain ⟨r', hr', hsplit⟩ := Option.map_eq_some_iff.mp h
      obtain ⟨hs, hfirst⟩ := ih hr'
      rw [← hsplit]
      refine ⟨congrArg (List.cons c) hs, ?_⟩
      intro x y hxy
      cases x with
      | nil =>
        apply absurd (List.isPrefixOf_iff_prefix.mpr ⟨y, _⟩) hpat
        exact hxy.symm
      | cons d x =>
        rw [List.cons_append] at hxy
        exact Nat.succ_le_succ (hfirst x y (List.cons.inj hxy).2)

theorem splitFirst_none : splitFirst pat s = none ↔ ¬ pat <:+: s := by
  induction s with
  | nil =>
    unfold splitFirst
    rw [List.infix_nil, ← List.prefix_nil, ← List.isPrefixOf_iff_prefix]
    split_ifs with hpat <;> simp [hpat]
  | cons c s ih =>
    unfold splitFirst
    rw [List.infix_cons_iff, ← List.isPrefixOf_iff_prefix]
    split_ifs with hpat
    · simp [hpat]
    · rw [Option.map_eq_none_iff, ih]
      simp [hpat]

/-- The first occurrence is the one no other comes before. -/
theorem splitFirst_eq (h : ∀ x y, before ++ (pat ++ after) = x ++ (pat ++ y) →
    before.length ≤ x.length) :
    splitFirst pat (before ++ (pat ++ after)) = some (before, after) := by
  cases hsplit : splitFirst pat (before ++ (pat ++ after)) with
  | none => exact absurd ⟨before, after, by rw [List.append_assoc]⟩ (splitFirst_none.mp hsplit)
  | some r =>
    obtain ⟨heq, hfirst⟩ := splitFirst_spec hsplit
    have hlength : before.length = r.1.length := Nat.le_antisymm (h _ _ heq) (hfirst _ _ rfl)
    obtain ⟨hbefore, hrest⟩ := List.append_inj heq hlength
    rw [hbefore, List.append_cancel_left hrest]

/-- Nothing before the first occurrence holds the pattern. -/
theorem splitFirst_before (hpat : pat ≠ []) (h : splitFirst pat s = some r) :
    ¬ pat <:+: r.1 := by
  obtain ⟨hs, hfirst⟩ := splitFirst_spec h
  intro hinside
  obtain ⟨x, y, hxy⟩ := hinside
  have hle := hfirst x (y ++ (pat ++ r.2)) (by rw [hs, ← hxy]; simp only [List.append_assoc])
  have hpos := List.length_pos_iff.mpr hpat
  rw [← hxy, List.length_append, List.length_append] at hle
  omega

omit [DecidableEq α] in
/-- An occurrence that starts before a known one, and does not end before it, overlaps it. -/
theorem exists_overlap {x y : List α} (hbefore : ¬ pat <:+: before)
    (heq : before ++ (pat ++ after) = x ++ (pat ++ y)) (hlt : x.length < before.length) :
    ∃ t u, t ≠ [] ∧ u ≠ [] ∧ before = x ++ t ∧ pat = t ++ u ∧ pat ++ after = u ++ y := by
  obtain ⟨t, hx, _⟩ | ⟨t, hx, hy⟩ := List.append_eq_append_iff.mp heq
  · rw [hx, List.length_append] at hlt
    omega
  · have ht : t ≠ [] := by
      intro hnil
      rw [hx, hnil, List.append_nil] at hlt
      omega
    obtain ⟨u, hu, _⟩ | ⟨u, hu, hrest⟩ := List.append_eq_append_iff.mp hy
    · exact absurd ⟨x, u, by rw [hx, hu, List.append_assoc]⟩ hbefore
    · refine ⟨t, u, ht, ?_, hx, hu, hrest⟩
      intro hnil
      rw [hnil, List.append_nil] at hu
      exact hbefore ⟨x, [], by rw [hx, hu, List.append_nil]⟩

/-- A pattern whose first element does not come back in it is found before it could overlap. -/
theorem splitFirst_head {c : α} {p : List α} (hc : c ∉ p) (hbefore : ¬ (c :: p) <:+: before) :
    splitFirst (c :: p) (before ++ (c :: p ++ after)) = some (before, after) := by
  apply splitFirst_eq
  intro x y hxy
  by_contra hlt
  obtain ⟨t, u, ht, hu, _, hpat, hrest⟩ := exists_overlap hbefore hxy (not_le.mp hlt)
  obtain ⟨e, u, rfl⟩ := List.exists_cons_of_ne_nil hu
  obtain ⟨d, t, rfl⟩ := List.exists_cons_of_ne_nil ht
  have he := (List.cons.inj hrest).1
  have hp := (List.cons.inj hpat).2
  apply hc
  rw [hp, he]
  exact List.mem_append_right _ List.mem_cons_self

/-- A pattern without the element that stands right before it is found there. -/
theorem splitFirst_last {z : α} (hz : z ∉ pat) (hbefore : ¬ pat <:+: before ++ [z]) :
    splitFirst pat ((before ++ [z]) ++ (pat ++ after)) = some (before ++ [z], after) := by
  apply splitFirst_eq
  intro x y hxy
  by_contra hlt
  obtain ⟨t, u, ht, _, hx, hpat, _⟩ := exists_overlap hbefore hxy (not_le.mp hlt)
  have hlast := List.mem_of_getLast? (List.getLast?_append_of_ne_nil x ht ▸
    (congrArg List.getLast? hx).symm.trans List.getLast?_concat)
  apply hz
  rw [hpat]
  exact List.mem_append_left _ hlast

theorem splitLast_none {c : α} : splitLast c s = none ↔ c ∉ s := by
  induction s with
  | nil => simp [splitLast]
  | cons d s ih =>
    unfold splitLast
    cases hsplit : splitLast c s with
    | some r =>
      have hc : c ∈ s := by
        by_contra hc
        rw [ih.mpr hc] at hsplit
        cases hsplit
      simp [hc]
    | none =>
      have hc := ih.mp hsplit
      simp [hc, eq_comm]

theorem splitLast_eq {c : α} (h : c ∉ after) :
    splitLast c (before ++ c :: after) = some (before, after) := by
  induction before with
  | nil =>
    rw [List.nil_append, splitLast, splitLast_none.mpr h]
    exact if_pos rfl
  | cons d before ih => rw [List.cons_append, splitLast, ih]

theorem splitLast_spec {c : α} (h : splitLast c s = some r) :
    s = r.1 ++ c :: r.2 ∧ c ∉ r.2 := by
  induction s generalizing r with
  | nil => cases h
  | cons d s ih =>
    unfold splitLast at h
    cases hsplit : splitLast c s with
    | some r' =>
      rw [hsplit] at h
      cases h
      obtain ⟨hs, hr⟩ := ih hsplit
      exact ⟨congrArg (List.cons d) hs, hr⟩
    | none =>
      rw [hsplit] at h
      simp only at h
      split_ifs at h with hd
      cases h
      exact ⟨congrArg (fun e => e :: s) hd, splitLast_none.mp hsplit⟩

theorem splitFirst_self (pat s : List α) : splitFirst pat (pat ++ s) = some ([], s) := by
  have heq : splitFirst pat ([] ++ (pat ++ s)) = some ([], s) :=
    splitFirst_eq fun _ _ _ => Nat.zero_le _
  exact heq

/-- The first occurrence stays the first one when a text goes on. -/
theorem splitFirst_append (hpat : pat ≠ []) (h : splitFirst pat s = some r) (t : List α) :
    splitFirst pat (s ++ t) = some (r.1, r.2 ++ t) := by
  induction s generalizing r with
  | nil =>
    have hs := (splitFirst_spec h).1
    simp [hpat] at hs
  | cons c s ih =>
    have hs := (splitFirst_spec h).1
    unfold splitFirst at h
    rw [List.cons_append]
    unfold splitFirst
    split_ifs at h with hprefix
    · obtain ⟨rest, hrest⟩ := List.isPrefixOf_iff_prefix.mp hprefix
      have happend : c :: (s ++ t) = pat ++ (rest ++ t) := by
        rw [← List.append_assoc, hrest, List.cons_append]
      rw [if_pos (List.isPrefixOf_iff_prefix.mpr ⟨rest ++ t, happend.symm⟩), happend,
        List.drop_left, ← Option.some.inj h, ← hrest, List.drop_left]
    · obtain ⟨r', hr', hsplit⟩ := Option.map_eq_some_iff.mp h
      have hlength : pat.length ≤ (c :: s).length := by
        rw [hs, List.length_append, List.length_append]
        omega
      rw [if_neg, ih hr', Option.map_some, ← hsplit]
      intro hprefix'
      apply hprefix
      rw [List.isPrefixOf_iff_prefix] at hprefix' ⊢
      exact List.prefix_of_prefix_length_le hprefix' (List.prefix_append (c :: s) t) hlength

end First

section Pieces

variable {pat new s q : List α}

theorem piecesLoop_fuel (hpat : pat ≠ []) {n m : Nat} (hn : s.length ≤ n) (hm : s.length ≤ m) :
    piecesLoop pat n s = piecesLoop pat m s := by
  have hend : ∀ k, piecesLoop pat k [] = [[]] := by
    intro k
    cases k with
    | zero => rfl
    | succ k =>
      unfold piecesLoop
      rw [splitFirst_none.mpr (fun hinside => hpat (List.infix_nil.mp hinside)), Option.elim_none]
  induction n generalizing s m with
  | zero => rw [List.length_eq_zero_iff.mp (Nat.le_zero.mp hn), hend, hend]
  | succ n ih =>
    cases m with
    | zero => rw [List.length_eq_zero_iff.mp (Nat.le_zero.mp hm), hend, hend]
    | succ m =>
      unfold piecesLoop
      cases hsplit : splitFirst pat s with
      | none => rfl
      | some r =>
        have hs := congrArg List.length (splitFirst_spec hsplit).1
        have hpos := List.length_pos_iff.mpr hpat
        rw [List.length_append, List.length_append] at hs
        rw [Option.elim_some, Option.elim_some, ih (s := r.2) (m := m) (by omega) (by omega)]

theorem pieces_of_absent (h : ¬ pat <:+: s) : pieces pat s = [s] := by
  unfold pieces
  cases s with
  | nil => rfl
  | cons c s =>
    rw [List.length_cons, piecesLoop, splitFirst_none.mpr h, Option.elim_none]

theorem pieces_of_split (hpat : pat ≠ []) {r : List α × List α}
    (h : splitFirst pat s = some r) : pieces pat s = r.1 :: pieces pat r.2 := by
  have hs := congrArg List.length (splitFirst_spec h).1
  have hpos := List.length_pos_iff.mpr hpat
  rw [List.length_append, List.length_append] at hs
  have htail : r.2.length ≤ s.length := by omega
  unfold pieces
  rw [piecesLoop_fuel hpat (le_refl _) (Nat.le_succ _), piecesLoop, h, Option.elim_some]
  exact congrArg (List.cons r.1) (piecesLoop_fuel hpat htail (le_refl _))

/-- No piece holds the pattern, and each is a part of the text. -/
theorem mem_pieces (hpat : pat ≠ []) {p : List α} (hp : p ∈ pieces pat s) :
    p <:+: s ∧ ¬ pat <:+: p := by
  induction hlength : s.length using Nat.strong_induction_on generalizing s with
  | _ n ih =>
    cases hsplit : splitFirst pat s with
    | none =>
      rw [pieces_of_absent (splitFirst_none.mp hsplit), List.mem_singleton] at hp
      rw [hp]
      exact ⟨List.infix_rfl, splitFirst_none.mp hsplit⟩
    | some r =>
      have hs := (splitFirst_spec hsplit).1
      rw [pieces_of_split hpat hsplit] at hp
      obtain hp | hp := List.mem_cons.mp hp
      · rw [hp]
        refine ⟨⟨[], pat ++ r.2, hs.symm⟩, splitFirst_before hpat hsplit⟩
      · have hlt : r.2.length < n := by
          have hsl := congrArg List.length hs
          have hpos := List.length_pos_iff.mpr hpat
          rw [List.length_append, List.length_append] at hsl
          omega
        obtain ⟨hinside, hfree⟩ := ih _ hlt hp rfl
        refine ⟨hinside.trans ⟨r.1 ++ pat, [], ?_⟩, hfree⟩
        rw [List.append_nil, List.append_assoc]
        exact hs.symm

theorem replaceAll_of_absent (h : ¬ pat <:+: s) : replaceAll pat new s = s := by
  unfold replaceAll
  rw [pieces_of_absent h, List.intercalate_singleton]

omit [DecidableEq α] in
/-- A text without an element stands on one side of it. -/
theorem infix_of_separated {z : α} {x y : List α} (hz : z ∉ q) (h : q <:+: x ++ z :: y) :
    q <:+: x ∨ q <:+: y := by
  obtain h | h | h := List.infix_append_iff_ne_nil.mp h
  · exact Or.inl h
  · right
    obtain hprefix | h := List.infix_cons_iff.mp h
    · cases q with
      | nil => exact List.nil_infix
      | cons e q =>
        have he := (List.cons_prefix_cons.mp hprefix).1
        exact absurd (he ▸ List.mem_cons_self) hz
    · exact h
  · obtain ⟨l₁, l₂, _, hne, hq, _, hprefix⟩ := h
    obtain ⟨e, l₂, rfl⟩ := List.exists_cons_of_ne_nil hne
    have he := (List.cons_prefix_cons.mp hprefix).1
    apply absurd _ hz
    rw [hq, ← he]
    exact List.mem_append_right _ List.mem_cons_self

omit [DecidableEq α] in
/-- A text without the mark at both ends of a joint is in a piece or in the joint. -/
theorem infix_intercalate {z : α} (mid : List α) (hz : z ∉ q) (ps : List (List α))
    (hne : ps ≠ []) (h : q <:+: (z :: (mid ++ [z])).intercalate ps) :
    (∃ p ∈ ps, q <:+: p) ∨ q <:+: mid := by
  induction ps with
  | nil => exact absurd rfl hne
  | cons p ps ih =>
    cases ps with
    | nil =>
      rw [List.intercalate_singleton] at h
      exact Or.inl ⟨p, List.mem_singleton_self p, h⟩
    | cons p' ps =>
      rw [List.intercalate_cons_cons, List.append_assoc, List.cons_append, List.append_assoc,
        List.singleton_append] at h
      obtain h | h := infix_of_separated hz h
      · exact Or.inl ⟨p, List.mem_cons_self, h⟩
      · obtain h | h := infix_of_separated hz h
        · exact Or.inr h
        · obtain h | h := ih (List.cons_ne_nil p' ps) h
          · obtain ⟨p'', hp, hinside⟩ := h
            exact Or.inl ⟨p'', List.mem_cons_of_mem p hp, hinside⟩
          · exact Or.inr h

end Pieces

end YogSothoth
