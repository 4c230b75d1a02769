import Mathlib.Order.Lattice
import Mathlib.Data.Nat.Basic
import Mathlib.Algebra.Group.Nat.Units
import Mathlib.Data.List.Flatten
import Mathlib.Data.List.Perm.Basic
import Mathlib.Data.List.Sort
import Mathlib.Data.Prod.Lex
import Mathlib.Order.Basic
import YogSothoth.Framework.Fallible

namespace YogSothoth

variable {α K : Type*} [LinearOrder K] {key : α → K}

/-- Rows in the order of a key: an `ORDER BY`. -/
def orderBy (key : α → K) (rows : List α) : List α :=
  rows.insertionSort (fun a b => key a ≤ key b)

/-- A list with its keys strictly increasing: each key once, in order. -/
def KeySorted (key : α → K) (l : List α) : Prop := l.Pairwise (fun a b => key a < key b)

theorem orderBy_perm (key : α → K) (rows : List α) : (orderBy key rows).Perm rows :=
  List.perm_insertionSort _ rows

theorem mem_orderBy {rows : List α} {a : α} : a ∈ orderBy key rows ↔ a ∈ rows :=
  (orderBy_perm key rows).mem_iff

theorem orderBy_pairwise (key : α → K) (rows : List α) :
    (orderBy key rows).Pairwise (fun a b => key a ≤ key b) := by
  have htrans : IsTrans α (fun a b => key a ≤ key b) := ⟨fun _ _ _ hab hbc => hab.trans hbc⟩
  have htotal : Std.Total (fun a b : α => key a ≤ key b) := ⟨fun a b => le_total (key a) (key b)⟩
  exact List.pairwise_insertionSort _ rows

/-- Unique keys leave one order. -/
theorem orderBy_sorted {rows : List α} (h : (rows.map key).Nodup) :
    KeySorted key (orderBy key rows) := by
  have hle := orderBy_pairwise key rows
  have hne : (orderBy key rows).Pairwise (fun a b => key a ≠ key b) :=
    List.pairwise_map.mp (((orderBy_perm key rows).map key).nodup_iff.mpr h)
  exact (hle.and hne).imp (fun hab => lt_of_le_of_ne hab.1 hab.2)

/-- A `LIMIT 1`: the row whose key comes before all others. -/
theorem head?_orderBy {rows : List α} {a : α} (ha : a ∈ rows)
    (hfirst : ∀ b ∈ rows, b ≠ a → key a < key b) : (orderBy key rows).head? = some a := by
  have hsorted := orderBy_pairwise key rows
  have hmem : a ∈ orderBy key rows := mem_orderBy.mpr ha
  have hall : ∀ b ∈ orderBy key rows, b ≠ a → key a < key b :=
    fun b hb => hfirst b (mem_orderBy.mp hb)
  cases horder : orderBy key rows with
  | nil =>
    rw [horder] at hmem
    cases hmem
  | cons b l =>
    rw [horder] at hmem hsorted hall
    by_cases hab : b = a
    · rw [hab, List.head?_cons]
    · have hal : a ∈ l := List.mem_of_ne_of_mem (fun h => hab h.symm) hmem
      have hle := (List.pairwise_cons.mp hsorted).1 a hal
      exact absurd (hall b List.mem_cons_self hab) (not_lt.mpr hle)

theorem orderBy_map {β : Type*} (key : β → K) (f : α → β) (rows : List α) :
    orderBy key (rows.map f) = (orderBy (fun a => key (f a)) rows).map f :=
  (List.map_insertionSort _ _ f rows (fun _ _ _ _ => Iff.rfl)).symm

namespace KeySorted

theorem nodup {l : List α} (h : KeySorted key l) : l.Nodup :=
  List.Pairwise.imp (fun hab he => absurd (he ▸ hab) (lt_irrefl _)) h

theorem filter {l : List α} (h : KeySorted key l) (p : α → Bool) : KeySorted key (l.filter p) :=
  List.Pairwise.filter p h

theorem sublist {l l' : List α} (h : KeySorted key l) (hs : l'.Sublist l) : KeySorted key l' :=
  List.Pairwise.sublist hs h

/-- Two sorted lists of the same members are one. -/
theorem ext {l l' : List α} (h : KeySorted key l) (h' : KeySorted key l')
    (hm : ∀ a, a ∈ l ↔ a ∈ l') : l = l' :=
  List.Perm.eq_of_pairwise (fun _ _ _ _ hab hba => absurd (hab.trans hba) (lt_irrefl _)) h h'
    ((List.perm_ext_iff_of_nodup h.nodup h'.nodup).mpr hm)

/-- What the order says around an element of the list. -/
theorem around {A B : List α} {a : α} (h : KeySorted key (A ++ a :: B)) :
    (∀ x ∈ A, key x < key a) ∧ (∀ x ∈ B, key a < key x) := by
  have hsplit := List.pairwise_append.mp h
  have hhead := (List.pairwise_cons.mp hsplit.2.1).1
  exact ⟨fun x hx => hsplit.2.2 x hx a List.mem_cons_self, hhead⟩

/-- Reading past a key of the list gives what follows it. -/
theorem filter_after {A B : List α} {a : α} (h : KeySorted key (A ++ a :: B)) :
    (A ++ a :: B).filter (fun x => key a < key x) = B := by
  obtain ⟨hA, hB⟩ := h.around
  have hnone : A.filter (fun x => key a < key x) = [] := by
    rw [List.filter_eq_nil_iff]
    intro x hx
    simpa using (hA x hx).le
  have hall : B.filter (fun x => key a < key x) = B := by
    rw [List.filter_eq_self]
    intro x hx
    simpa using hB x hx
  rw [List.filter_append, hnone, List.filter_cons, hall]
  simp

theorem filter_before {A B : List α} {a : α} (h : KeySorted key (A ++ a :: B)) :
    (A ++ a :: B).filter (fun x => key x < key a) = A := by
  obtain ⟨hA, hB⟩ := h.around
  have hnone : B.filter (fun x => key x < key a) = [] := by
    rw [List.filter_eq_nil_iff]
    intro x hx
    simpa using (hB x hx).le
  have hall : A.filter (fun x => key x < key a) = A := by
    rw [List.filter_eq_self]
    intro x hx
    simpa using hA x hx
  rw [List.filter_append, hall, List.filter_cons, hnone]
  simp

/-- Around a stretch of the list, a part is empty exactly when no element is on that side. -/
theorem exists_before {A M B : List α} (h : KeySorted key (A ++ M ++ B)) (hM : M ≠ []) :
    A ≠ [] ↔ ∃ r ∈ A ++ M ++ B, ∀ x ∈ M, key r < key x := by
  have hsplit := List.pairwise_append.mp h
  have hleft := List.pairwise_append.mp hsplit.1
  constructor
  · intro hA
    obtain ⟨r, hr⟩ := List.exists_mem_of_ne_nil A hA
    exact ⟨r, by simp [hr], fun x hx => hleft.2.2 r hr x hx⟩
  · rintro ⟨r, hr, hlt⟩ hA
    obtain ⟨x, hx⟩ := List.exists_mem_of_ne_nil M hM
    subst hA
    rcases List.mem_append.mp hr with hr | hr
    · exact lt_irrefl _ (hlt r (by simpa using hr))
    · exact lt_asymm (hlt x hx) (hsplit.2.2 x (by simpa using hx) r hr)

theorem exists_after {A M B : List α} (h : KeySorted key (A ++ M ++ B)) (hM : M ≠ []) :
    B ≠ [] ↔ ∃ r ∈ A ++ M ++ B, ∀ x ∈ M, key x < key r := by
  have hsplit := List.pairwise_append.mp h
  have hleft := List.pairwise_append.mp hsplit.1
  constructor
  · intro hB
    obtain ⟨r, hr⟩ := List.exists_mem_of_ne_nil B hB
    exact ⟨r, by simp [hr], fun x hx => hsplit.2.2 x (by simp [hx]) r hr⟩
  · rintro ⟨r, hr, hlt⟩ hB
    obtain ⟨x, hx⟩ := List.exists_mem_of_ne_nil M hM
    subst hB
    rw [List.append_nil] at hr
    rcases List.mem_append.mp hr with hr | hr
    · exact lt_asymm (hlt x hx) (hleft.2.2 r hr x hx)
    · exact lt_irrefl _ (hlt r hr)

end KeySorted

theorem orderBy_eq_of_perm {rows rows' : List α} (hp : rows.Perm rows') (h : (rows.map key).Nodup) :
    orderBy key rows = orderBy key rows' := by
  have h' : (rows'.map key).Nodup := (hp.map key).nodup_iff.mp h
  apply (orderBy_sorted h).ext (orderBy_sorted h')
  intro a
  rw [mem_orderBy, mem_orderBy, hp.mem_iff]

theorem filter_map_eq {β : Type*} {f : α → β} {p : β → Bool} {q : α → Bool} {l : List α}
    (h : ∀ a ∈ l, p (f a) = q a) : (l.map f).filter p = (l.filter q).map f := by
  rw [List.filter_map]
  congr 1
  exact List.filter_congr h

omit [LinearOrder K] in
theorem nodup_map_filter {rows : List α} (h : (rows.map key).Nodup) (p : α → Bool) :
    ((rows.filter p).map key).Nodup :=
  h.sublist (List.filter_sublist.map key)

/-- A unique key selects one row. -/
theorem filter_key_eq {β : Type*} [DecidableEq β] {f : α → β} {rows : List α}
    (h : (rows.map f).Nodup) {a : α} (ha : a ∈ rows) :
    rows.filter (fun b => f b = f a) = [a] := by
  induction rows with
  | nil => cases ha
  | cons b rows ih =>
    obtain ⟨hb, hrows⟩ := List.nodup_cons.mp h
    cases List.mem_cons.mp ha with
    | inl hab =>
      have hrest : rows.filter (fun c => f c = f a) = [] := by
        rw [List.filter_eq_nil_iff]
        intro c hc hca
        apply hb
        rw [← hab, ← of_decide_eq_true hca]
        exact List.mem_map_of_mem hc
      rw [← hab, List.filter_cons, hrest]
      simp
    | inr ha =>
      have hne : f b ≠ f a := by
        intro hba
        rw [hba] at hb
        exact hb (List.mem_map_of_mem ha)
      rw [List.filter_cons_of_neg (by simpa using hne), ih hrows ha]

/-- Filtering before or after the `ORDER BY` is one. -/
theorem orderBy_filter {rows : List α} (h : (rows.map key).Nodup) (p : α → Bool) :
    orderBy key (rows.filter p) = (orderBy key rows).filter p := by
  apply (orderBy_sorted (nodup_map_filter h p)).ext ((orderBy_sorted h).filter p)
  intro a
  simp only [mem_orderBy, List.mem_filter]

/-- The opposite `ORDER BY` reads the same rows backward. -/
theorem orderBy_dual {rows : List α} (h : (rows.map key).Nodup) :
    orderBy (fun a => OrderDual.toDual (key a)) rows = (orderBy key rows).reverse := by
  have hdual : (rows.map (fun a => OrderDual.toDual (key a))).Nodup := h
  have hrev : KeySorted (fun a => OrderDual.toDual (key a)) (orderBy key rows).reverse :=
    List.pairwise_reverse.mpr (orderBy_sorted h)
  apply (orderBy_sorted hdual).ext hrev
  intro a
  rw [List.mem_reverse, mem_orderBy, mem_orderBy]

theorem take_filter_of_mem_take {l : List α} {n : Nat} {p : α → Bool} {a : α} (ha : a ∈ l.take n)
    (hp : p a) : a ∈ (l.filter p).take n := by
  have hsplit : l.filter p = (l.take n).filter p ++ (l.drop n).filter p := by
    rw [← List.filter_append, List.take_append_drop]
  have hlen : ((l.take n).filter p).length ≤ n :=
    (List.length_filter_le p _).trans (List.length_take_le n l)
  rw [hsplit, List.take_append, List.take_of_length_le hlen]
  exact List.mem_append_left _ (List.mem_filter.mpr ⟨ha, hp⟩)

theorem take_filter_of_forall {l : List α} {n : Nat} {p : α → Bool}
    (h : ∀ a ∈ l.take n, p a) : (l.filter p).take n = l.take n := by
  have hsplit : l.filter p = l.take n ++ (l.drop n).filter p := by
    rw [← List.filter_eq_self.mpr h, ← List.filter_append, List.take_append_drop]
  rcases Nat.lt_or_ge l.length n with hlt | hge
  · rw [hsplit, List.drop_of_length_le hlt.le, List.filter_nil, List.append_nil, List.take_take,
      Nat.min_self]
  · rw [hsplit, List.take_append, List.length_take, Nat.min_eq_left hge, Nat.sub_self, List.take_zero,
      List.append_nil, List.take_take, Nat.min_self]

/-- A list sorted into its classes is the list. -/
theorem flatMap_classes_perm {C : Type*} [DecidableEq C] {f : α → C} {cs : List C} (hcs : cs.Nodup)
    {l : List α} (hl : ∀ a ∈ l, f a ∈ cs) :
    (cs.flatMap (fun c => l.filter (fun a => f a = c))).Perm l := by
  induction cs generalizing l with
  | nil =>
    cases l with
    | nil => exact List.Perm.refl _
    | cons a l => exact absurd (hl a List.mem_cons_self) List.not_mem_nil
  | cons c cs ih =>
    obtain ⟨hc, hnodup⟩ := List.nodup_cons.mp hcs
    have hrest : cs.flatMap (fun c' => l.filter (fun a => f a = c')) =
        cs.flatMap (fun c' => (l.filter (fun a => !decide (f a = c))).filter (fun a => f a = c')) := by
      apply List.flatMap_congr
      intro c' hc'
      rw [List.filter_filter]
      apply List.filter_congr
      intro a _
      have hne : f a = c' → f a ≠ c := fun h h' => hc (h' ▸ h ▸ hc')
      by_cases h : f a = c' <;> simp [h]
      exact fun h' => hne h (h.trans h')
    have hmem : ∀ a ∈ l.filter (fun a => !decide (f a = c)), f a ∈ cs := by
      intro a ha
      obtain ⟨hal, hne⟩ := List.mem_filter.mp ha
      exact (List.mem_cons.mp (hl a hal)).resolve_left (by simpa using hne)
    rw [List.flatMap_cons, hrest]
    exact ((ih hnodup hmem).append_left _).trans
      (List.filter_append_perm (fun a => decide (f a = c)) l)

/-- The first `n` rows of several tables together are among the first `n` of each. -/
theorem take_orderBy_flatMap {T : Type*} {tables : List T} {rows : T → List α} (n : Nat)
    (h : ((tables.flatMap rows).map key).Nodup) :
    (orderBy key (tables.flatMap (fun t => (orderBy key (rows t)).take n))).take n =
      (orderBy key (tables.flatMap rows)).take n := by
  classical
  let kept := tables.flatMap (fun t => (orderBy key (rows t)).take n)
  have hkept : ∀ a ∈ kept, a ∈ tables.flatMap rows := by
    intro a ha
    obtain ⟨t, ht, hat⟩ := List.mem_flatMap.mp ha
    exact List.mem_flatMap.mpr ⟨t, ht, mem_orderBy.mp (List.mem_of_mem_take hat)⟩
  have hsub : (kept.map key).Nodup := by
    have hperm : (tables.flatMap (fun t => orderBy key (rows t))).Perm (tables.flatMap rows) :=
      List.Perm.flatMap_left tables (fun t _ => orderBy_perm key (rows t))
    have hcut : kept.Sublist (tables.flatMap (fun t => orderBy key (rows t))) :=
      List.Sublist.flatMap_right tables (fun t _ => List.take_sublist n _)
    exact ((hperm.map key).nodup_iff.mpr h).sublist (hcut.map key)
  have hfilter : orderBy key kept = (orderBy key (tables.flatMap rows)).filter (fun a => a ∈ kept) := by
    apply (orderBy_sorted hsub).ext ((orderBy_sorted h).filter _)
    intro a
    simp only [mem_orderBy, List.mem_filter, decide_eq_true_eq]
    exact ⟨fun ha => ⟨hkept a ha, ha⟩, fun ha => ha.2⟩
  have hall : ∀ a ∈ (orderBy key (tables.flatMap rows)).take n, a ∈ kept := by
    intro a ha
    obtain ⟨t, ht, hat⟩ := List.mem_flatMap.mp (mem_orderBy.mp (List.mem_of_mem_take ha))
    have hrows : ((rows t).map key).Nodup := 
      h.sublist ((List.sublist_flatten_of_mem (List.mem_map_of_mem ht)).map key)
    have htable : orderBy key (rows t) =
        (orderBy key (tables.flatMap rows)).filter (fun x => x ∈ rows t) := by
      apply (orderBy_sorted hrows).ext ((orderBy_sorted h).filter _)
      intro x
      simp only [mem_orderBy, List.mem_filter, decide_eq_true_eq]
      exact ⟨fun hx => ⟨List.mem_flatMap.mpr ⟨t, ht, hx⟩, hx⟩, fun hx => hx.2⟩
    refine List.mem_flatMap.mpr ⟨t, ht, ?_⟩
    rw [htable]
    exact take_filter_of_mem_take ha (by simpa using hat)
  rw [hfilter, take_filter_of_forall]
  intro a ha
  simpa using hall a ha

/-- The `i`-th piece of a list cut every `n` elements. -/
def chunk (n : Nat) (l : List α) (i : Nat) : List α := (l.drop (i * n)).take n

/-- How many pieces there are; an empty list has one, empty. -/
def chunkCount (n : Nat) (l : List α) : Nat := max 1 ((l.length + n - 1) / n)

theorem chunkCount_pos (n : Nat) (l : List α) : 0 < chunkCount n l := by
  unfold chunkCount
  omega

theorem chunkCount_reverse (n : Nat) (l : List α) : chunkCount n l.reverse = chunkCount n l := by
  simp [chunkCount]

theorem lt_chunkCount {n : Nat} (hn : 0 < n) (l : List α) (i : Nat) :
    i + 1 < chunkCount n l ↔ i * n + n < l.length := by
  have hdiv : i + 1 < (l.length + n - 1) / n ↔ (i + 1 + 1) * n ≤ l.length + n - 1 := by
    rw [← Nat.succ_le_iff, Nat.le_div_iff_mul_le hn]
  have hexp : (i + 1 + 1) * n = i * n + n + n := by
    rw [Nat.succ_mul, Nat.succ_mul]
  unfold chunkCount
  omega

theorem flatten_chunks_take (n : Nat) (l : List α) (m : Nat) :
    ((List.range m).map (chunk n l)).flatten = l.take (m * n) := by
  induction m with
  | zero => simp
  | succ m ih =>
    rw [List.range_succ, List.map_append, List.flatten_append, ih, Nat.succ_mul, List.take_add]
    simp [chunk]

/-- The pieces put back together are the list. -/
theorem flatten_chunks {n : Nat} (hn : 0 < n) (l : List α) :
    ((List.range (chunkCount n l)).map (chunk n l)).flatten = l := by
  rw [flatten_chunks_take, List.take_of_length_le]
  have hlast : ¬ (chunkCount n l - 1) + 1 < chunkCount n l := by
    have := chunkCount_pos n l
    omega
  rw [lt_chunkCount hn] at hlast
  have hmul : chunkCount n l * n = (chunkCount n l - 1) * n + n := by
    rw [← Nat.succ_mul, Nat.succ_eq_add_one, Nat.sub_add_cancel (chunkCount_pos n l)]
  omega

theorem take_chunk_succ (n : Nat) (l : List α) (i : Nat) :
    l.take (i * n) ++ chunk n l i = l.take ((i + 1) * n) := by
  rw [Nat.succ_mul, List.take_add]
  rfl

section Follow

variable {Q P E : Type*}

/-- The pages read by following one link from page to page, to the page that has none. -/
inductive Follows (fetch : Q → Except E P) (link : P → Option Q) : Q → List P → Prop
  | last {q : Q} {p : P} (hp : fetch q = .ok p) (hlink : link p = none) : Follows fetch link q [p]
  | next {q q' : Q} {p : P} {ps : List P} (hp : fetch q = .ok p) (hlink : link p = some q')
      (rest : Follows fetch link q' ps) : Follows fetch link q (p :: ps)

variable {fetch : Q → Except E P} {link : P → Option Q}

/-- A link followed twice from one place reads the same pages. -/
theorem Follows.unique {q : Q} {ps ps' : List P} (h : Follows fetch link q ps)
    (h' : Follows fetch link q ps') : ps = ps' := by
  induction h generalizing ps' with
  | last hp hlink =>
    cases h' with
    | last hp' hlink' => simpa [hp] using hp'
    | next hp' hlink' rest =>
      rw [hp, Except.ok.injEq] at hp'
      simp [hp', hlink'] at hlink
  | next hp hlink rest ih =>
    cases h' with
    | last hp' hlink' =>
      rw [hp, Except.ok.injEq] at hp'
      simp [hp', hlink'] at hlink
    | next hp' hlink' rest' =>
      rw [hp, Except.ok.injEq] at hp'
      subst hp'
      rw [hlink, Option.some.injEq] at hlink'
      subst hlink'
      rw [ih rest']

theorem Follows.iff_eq {q : Q} {ps ps' : List P} (h : Follows fetch link q ps) :
    Follows fetch link q ps' ↔ ps' = ps :=
  ⟨fun h' => h'.unique h, fun he => he ▸ h⟩

/-- What the first page has and each link keeps, every page has. -/
theorem Follows.forall {q : Q} {ps : List P} {R : P → Prop} (h : Follows fetch link q ps)
    (hfirst : ∀ p, fetch q = .ok p → R p)
    (hnext : ∀ p q' p', R p → link p = some q' → fetch q' = .ok p' → R p') : ∀ p ∈ ps, R p := by
  induction h with
  | last hp hlink =>
    intro p hmem
    rw [List.mem_singleton.mp hmem]
    exact hfirst _ hp
  | next hp hlink rest ih =>
    intro p hmem
    rcases List.mem_cons.mp hmem with rfl | hmem
    · exact hfirst _ hp
    · exact ih (fun p' hp' => hnext _ _ p' (hfirst _ hp) hlink hp') p hmem

/-- Pages numbered so that each links to the next one are read in that order. -/
theorem follows_range {page : Nat → P} {query : Nat → Q} {m : Nat} (hm : 0 < m)
    (hfetch : ∀ i < m, fetch (query i) = .ok (page i))
    (hlink : ∀ i < m, link (page i) = if i + 1 < m then some (query (i + 1)) else none) :
    Follows fetch link (query 0) ((List.range m).map page) := by
  have hfrom : ∀ k i, i + (k + 1) = m →
      Follows fetch link (query i) ((List.range' i (k + 1)).map page) := by
    intro k
    induction k with
    | zero =>
      intro i hi
      have hl := hlink i (by omega)
      rw [if_neg (by omega)] at hl
      exact Follows.last (hfetch i (by omega)) hl
    | succ k ih =>
      intro i hi
      have hl := hlink i (by omega)
      rw [if_pos (by omega)] at hl
      exact Follows.next (hfetch i (by omega)) hl (ih (i + 1) (by omega))
  have h := hfrom (m - 1) 0 (by omega)
  rw [Nat.sub_add_cancel hm, ← List.range_eq_range'] at h
  exact h

end Follow

end YogSothoth
