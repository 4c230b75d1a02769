import Mathlib.Order.Lattice
import Mathlib.Data.Nat.Basic
import Mathlib.Data.Int.Order.Basic
import Mathlib.Data.List.Basic
import Mathlib.Data.List.Flatten
import Mathlib.Data.List.Pairwise
import Mathlib.Data.List.Perm.Basic
import Mathlib.Data.Multiset.AddSub
import Mathlib.Order.Bounds.Defs

namespace YogSothoth

/-- A finite map read in key order: what a `BTreeMap` and a table with a primary key offer.
The order of the entries is a field, so the first and the last key are its ends. -/
@[ext] structure OrdMap (K V : Type*) [LinearOrder K] where
  entries : List (K × V)
  sorted : entries.Pairwise (fun a b => a.1 < b.1)
  deriving DecidableEq

namespace OrdMap

variable {K V : Type*} [LinearOrder K]

def empty : OrdMap K V := ⟨[], List.Pairwise.nil⟩

instance : EmptyCollection (OrdMap K V) := ⟨empty⟩

instance : Inhabited (OrdMap K V) := ⟨empty⟩

def get? (m : OrdMap K V) (k : K) : Option V :=
  (m.entries.find? (fun e => e.1 = k)).map Prod.snd

def getD (m : OrdMap K V) (k : K) (d : V) : V := (m.get? k).getD d

def keys (m : OrdMap K V) : List K := m.entries.map Prod.fst

def size (m : OrdMap K V) : Nat := m.entries.length

def first? (m : OrdMap K V) : Option (K × V) := m.entries.head?

def last? (m : OrdMap K V) : Option (K × V) := m.entries.getLast?

def filter (m : OrdMap K V) (p : K × V → Bool) : OrdMap K V :=
  ⟨m.entries.filter p, m.sorted.filter p⟩

def erase (m : OrdMap K V) (k : K) : OrdMap K V := m.filter (fun e => e.1 ≠ k)

/-- `n` times `pop_first`. -/
def dropFirst (m : OrdMap K V) (n : Nat) : OrdMap K V :=
  ⟨m.entries.drop n, m.sorted.sublist (List.drop_sublist n _)⟩

theorem insert_sorted (m : OrdMap K V) (k : K) (v : V) :
    (m.entries.filter (fun e => e.1 < k) ++ (k, v) :: m.entries.filter (fun e => k < e.1)).Pairwise
      (fun a b => a.1 < b.1) := by
  rw [List.pairwise_append, List.pairwise_cons]
  refine ⟨m.sorted.filter _, ⟨?_, m.sorted.filter _⟩, ?_⟩
  · intro e he
    simpa using (List.mem_filter.mp he).2
  · intro a ha b hb
    have hak : a.1 < k := by simpa using (List.mem_filter.mp ha).2
    rcases List.mem_cons.mp hb with rfl | hb
    · exact hak
    · have hkb : k < b.1 := by simpa using (List.mem_filter.mp hb).2
      exact hak.trans hkb

/-- Insertion replaces the value of a key already present. -/
def insert (m : OrdMap K V) (k : K) (v : V) : OrdMap K V :=
  ⟨m.entries.filter (fun e => e.1 < k) ++ (k, v) :: m.entries.filter (fun e => k < e.1),
    m.insert_sorted k v⟩

@[simp] theorem entries_empty : (∅ : OrdMap K V).entries = [] := rfl

@[simp] theorem entries_filter (m : OrdMap K V) (p : K × V → Bool) :
    (m.filter p).entries = m.entries.filter p := rfl

/-- A key stands in one entry only. -/
theorem entry_unique (m : OrdMap K V) {a b : K × V} (ha : a ∈ m.entries) (hb : b ∈ m.entries)
    (hk : a.1 = b.1) : a = b := by
  obtain ⟨es, hs⟩ := m
  change a ∈ es at ha
  change b ∈ es at hb
  induction es with
  | nil => simp at ha
  | cons e es ih =>
    obtain ⟨hhead, htail⟩ := List.pairwise_cons.mp hs
    rcases List.mem_cons.mp ha with rfl | ha' <;> rcases List.mem_cons.mp hb with rfl | hb'
    · rfl
    · exact absurd hk (hhead b hb').ne
    · exact absurd hk.symm (hhead a ha').ne
    · exact ih htail ha' hb'

theorem get?_eq_some {m : OrdMap K V} {k : K} {v : V} :
    m.get? k = some v ↔ (k, v) ∈ m.entries := by
  constructor
  · intro h
    obtain ⟨e, he, rfl⟩ := Option.map_eq_some_iff.mp h
    have hk : e.1 = k := by simpa using List.find?_some he
    subst hk
    exact List.mem_of_find?_eq_some he
  · intro h
    cases hf : m.entries.find? (fun e => e.1 = k) with
    | none => simpa using List.find?_eq_none.mp hf (k, v) h
    | some e =>
      have hk : e.1 = k := by simpa using List.find?_some hf
      have he := m.entry_unique (List.mem_of_find?_eq_some hf) h hk
      simp [get?, hf, he]

theorem get?_eq_none {m : OrdMap K V} {k : K} : m.get? k = none ↔ k ∉ m.keys := by
  rw [Option.eq_none_iff_forall_ne_some]
  simp only [ne_eq, get?_eq_some, keys, List.mem_map, Prod.exists, exists_and_right,
    exists_eq_right, not_exists]

theorem mem_keys {m : OrdMap K V} {k : K} : k ∈ m.keys ↔ ∃ v, m.get? k = some v := by
  simp [get?_eq_some, keys]

@[simp] theorem get?_empty (k : K) : (∅ : OrdMap K V).get? k = none := rfl

theorem mem_insert {m : OrdMap K V} {k : K} {v : V} {e : K × V} :
    e ∈ (m.insert k v).entries ↔ e = (k, v) ∨ (e ∈ m.entries ∧ e.1 ≠ k) := by
  simp only [insert, List.mem_append, List.mem_filter, decide_eq_true_eq, List.mem_cons,
    ne_iff_lt_or_gt]
  tauto

theorem mem_filter {m : OrdMap K V} {p : K × V → Bool} {e : K × V} :
    e ∈ (m.filter p).entries ↔ e ∈ m.entries ∧ p e := List.mem_filter

theorem mem_erase {m : OrdMap K V} {k : K} {e : K × V} :
    e ∈ (m.erase k).entries ↔ e ∈ m.entries ∧ e.1 ≠ k := by
  simp [erase]

theorem get?_insert (m : OrdMap K V) (k k' : K) (v : V) :
    (m.insert k v).get? k' = if k' = k then some v else m.get? k' := by
  apply Option.ext
  intro w
  rw [get?_eq_some, mem_insert]
  split_ifs with h
  · simp [h, eq_comm]
  · simp [h, get?_eq_some]

@[simp] theorem get?_insert_self (m : OrdMap K V) (k : K) (v : V) :
    (m.insert k v).get? k = some v := by
  simp [get?_insert]

theorem get?_insert_of_ne (m : OrdMap K V) {k k' : K} (v : V) (h : k' ≠ k) :
    (m.insert k v).get? k' = m.get? k' := by
  simp [get?_insert, h]

theorem get?_filter_key (m : OrdMap K V) (p : K → Bool) (k : K) :
    (m.filter (fun e => p e.1)).get? k = if p k then m.get? k else none := by
  apply Option.ext
  intro w
  rw [get?_eq_some, mem_filter]
  split_ifs with h <;> simp [h, get?_eq_some]

theorem get?_erase (m : OrdMap K V) (k k' : K) :
    (m.erase k).get? k' = if k' = k then none else m.get? k' := by
  have h := m.get?_filter_key (fun j => decide (j ≠ k)) k'
  simpa [erase] using h

theorem first?_some {m : OrdMap K V} {e : K × V} (h : m.first? = some e) :
    e ∈ m.entries ∧ ∀ e' ∈ m.entries, e.1 ≤ e'.1 := by
  have hs := m.sorted
  unfold first? at h
  cases he : m.entries with
  | nil => simp [he] at h
  | cons a es =>
    rw [he, List.head?_cons, Option.some.injEq] at h
    subst h
    rw [he] at hs
    refine ⟨List.mem_cons_self, ?_⟩
    intro e' he'
    rcases List.mem_cons.mp he' with rfl | he'
    · exact le_refl _
    · exact ((List.pairwise_cons.mp hs).1 e' he').le

theorem first?_eq_some {m : OrdMap K V} {e : K × V} (he : e ∈ m.entries)
    (hle : ∀ e' ∈ m.entries, e.1 ≤ e'.1) : m.first? = some e := by
  cases hf : m.first? with
  | none => simp [List.head?_eq_none_iff.mp hf] at he
  | some e' =>
    obtain ⟨he', hmin⟩ := first?_some hf
    rw [m.entry_unique he' he (le_antisymm (hmin e he) (hle e' he'))]

/-- The first entry is that of the least key. -/
theorem isLeast_keys_iff {m : OrdMap K V} {k : K} :
    IsLeast {j | j ∈ m.keys} k ↔ ∃ v, m.first? = some (k, v) := by
  constructor
  · rintro ⟨hk, hleast⟩
    obtain ⟨v, hv⟩ := mem_keys.mp hk
    refine ⟨v, first?_eq_some (get?_eq_some.mp hv) ?_⟩
    exact fun e he => hleast (List.mem_map_of_mem he)
  · rintro ⟨v, hv⟩
    obtain ⟨hmem, hmin⟩ := first?_some hv
    refine ⟨mem_keys.mpr ⟨v, get?_eq_some.mpr hmem⟩, ?_⟩
    intro j hj
    obtain ⟨e, he, rfl⟩ := List.mem_map.mp hj
    exact hmin e he

theorem last?_some {m : OrdMap K V} {e : K × V} (h : m.last? = some e) :
    e ∈ m.entries ∧ ∀ e' ∈ m.entries, e'.1 ≤ e.1 := by
  have hmem : e ∈ m.entries := List.mem_of_getLast? h
  refine ⟨hmem, ?_⟩
  intro e' he'
  obtain ⟨init, hinit⟩ := List.getLast?_eq_some_iff.mp h
  have hs := m.sorted
  rw [hinit] at hs he'
  rcases List.mem_append.mp he' with he' | he'
  · exact ((List.pairwise_append.mp hs).2.2 e' he' e (by simp)).le
  · rw [List.mem_singleton.mp he']

theorem last?_none {m : OrdMap K V} : m.last? = none ↔ m.entries = [] := List.getLast?_eq_none_iff

theorem first?_none {m : OrdMap K V} : m.first? = none ↔ m.entries = [] := List.head?_eq_none_iff

theorem mem_keys_insert {m : OrdMap K V} {k k' : K} {v : V} :
    k' ∈ (m.insert k v).keys ↔ k' = k ∨ k' ∈ m.keys := by
  simp only [mem_keys, get?_insert]
  by_cases h : k' = k <;> simp [h]

theorem keys_filter_subset (m : OrdMap K V) (p : K × V → Bool) : (m.filter p).keys ⊆ m.keys :=
  List.map_subset _ List.filter_sublist.subset

/-- A key above all the others goes last. -/
theorem keys_insert_last (m : OrdMap K V) {k : K} (v : V) (h : ∀ j ∈ m.keys, j < k) :
    (m.insert k v).keys = m.keys ++ [k] := by
  have hlt : ∀ e ∈ m.entries, e.1 < k := fun e he => h e.1 (List.mem_map_of_mem he)
  have hbelow : m.entries.filter (fun e => e.1 < k) = m.entries :=
    List.filter_eq_self.mpr (fun e he => by simpa using hlt e he)
  have habove : m.entries.filter (fun e => k < e.1) = [] :=
    List.filter_eq_nil_iff.mpr (fun e he => by simpa using (hlt e he).le)
  simp [keys, insert, hbelow, habove]

theorem filter_key_eq (m : OrdMap K V) (k : K) :
    m.entries.filter (fun e => e.1 = k) = (m.get? k).toList.map (fun v => (k, v)) := by
  unfold get?
  obtain ⟨es, hs⟩ := m
  induction es with
  | nil => rfl
  | cons e es ih =>
    obtain ⟨hhead, htail⟩ := List.pairwise_cons.mp hs
    by_cases hk : e.1 = k
    · subst hk
      have hrest : es.filter (fun x => x.1 = e.1) = [] := by
        rw [List.filter_eq_nil_iff]
        intro x hx
        simpa using (hhead x hx).ne'
      simp [hrest]
    · have h := ih htail
      simp [hk] at h ⊢
      exact h

theorem size_erase_lt {m : OrdMap K V} {k : K} (h : k ∈ m.keys) : (m.erase k).size < m.size := by
  obtain ⟨e, he, hek⟩ := List.mem_map.mp h
  apply List.length_filter_lt_length_iff_exists.mpr
  exact ⟨e, he, by simp [hek]⟩

theorem mem_dropFirst {m : OrdMap K V} {n : Nat} {e : K × V} (h : e ∈ (m.dropFirst n).entries) :
    e ∈ m.entries :=
  (List.drop_sublist n m.entries).subset h

/-- Distinct numbers past `s` and up to `h` are at most `h - s`. -/
theorem length_le_of_between {entries : List (Nat × V)} {s h : Nat}
    (hsorted : entries.Pairwise (fun a b => a.1 < b.1))
    (hbetween : ∀ e ∈ entries, s < e.1 ∧ e.1 ≤ h) : entries.length ≤ h - s := by
  induction entries generalizing s with
  | nil => exact Nat.zero_le _
  | cons e entries ih =>
    obtain ⟨hfirst, hsorted⟩ := List.pairwise_cons.mp hsorted
    have hrest := ih hsorted (fun e' he' =>
      ⟨hfirst e' he', (hbetween e' (List.mem_cons_of_mem _ he')).2⟩)
    have he := hbetween e List.mem_cons_self
    rw [List.length_cons]
    omega

/-- Of `n` numbers kept, none above the head, the last `n` up to the head are not forgotten. -/
theorem get?_dropFirst {m : OrdMap Nat V} {n h s : Nat} (hhead : ∀ k ∈ m.keys, k ≤ h)
    (hs : h < s + n) : (m.dropFirst (m.size - n)).get? s = m.get? s := by
  have hmem : ∀ v, (s, v) ∈ m.entries → (s, v) ∈ (m.dropFirst (m.size - n)).entries := by
    intro v hv
    have hle : s ≤ h := hhead s (List.mem_map_of_mem hv)
    rw [← List.take_append_drop (m.size - n) m.entries] at hv
    cases List.mem_append.mp hv with
    | inr hkept => exact hkept
    | inl hgone =>
      have hsorted := m.sorted
      rw [← List.take_append_drop (m.size - n) m.entries] at hsorted
      have hbetween : ∀ e ∈ m.entries.drop (m.size - n), s < e.1 ∧ e.1 ≤ h := by
        intro e he
        exact ⟨(List.pairwise_append.mp hsorted).2.2 _ hgone e he,
          hhead e.1 (List.mem_map_of_mem (mem_dropFirst he))⟩
      have hlength := length_le_of_between (List.pairwise_append.mp hsorted).2.1 hbetween
      have hgone := List.length_pos_of_mem hgone
      rw [List.length_drop] at hlength
      rw [List.length_take] at hgone
      unfold size at hlength hgone
      omega
  cases hget : m.get? s with
  | none =>
    apply get?_eq_none.mpr
    intro hkey
    obtain ⟨v, hv⟩ := mem_keys.mp hkey
    rw [get?_eq_some.mpr (mem_dropFirst (get?_eq_some.mp hv))] at hget
    cases hget
  | some v => exact get?_eq_some.mpr (hmem v (get?_eq_some.mp hget))

section Flat

variable {T : Type*}

/-- All the values of a map of lists, together. -/
def flat (m : OrdMap K (List T)) : Multiset T := (m.entries.flatMap Prod.snd : List T)

@[simp] theorem flat_empty : (∅ : OrdMap K (List T)).flat = 0 := rfl

theorem flat_insert (m : OrdMap K (List T)) (k : K) (v : List T) :
    (m.insert k v).flat = v + (m.erase k).flat := by
  have hbelow : (m.erase k).entries.filter (fun e => e.1 < k) = m.entries.filter (fun e => e.1 < k) := by
    rw [erase, entries_filter, List.filter_filter]
    apply List.filter_congr
    intro e _
    by_cases h : e.1 < k
    · simp [h, h.ne]
    · simp [h]
  have habove : (m.erase k).entries.filter (fun e => !decide (e.1 < k)) =
      m.entries.filter (fun e => k < e.1) := by
    rw [erase, entries_filter, List.filter_filter]
    apply List.filter_congr
    intro e _
    rcases lt_trichotomy e.1 k with h | h | h
    · simp [h, h.asymm]
    · simp [h]
    · simp [h, h.asymm, h.ne']
  have hsplit := (List.filter_append_perm (fun e => decide (e.1 < k)) (m.erase k).entries).flatMap_right
    Prod.snd
  rw [hbelow, habove, List.flatMap_append] at hsplit
  simp only [flat, insert, List.flatMap_append, List.flatMap_cons, Multiset.coe_add]
  rw [Multiset.coe_eq_coe]
  exact (List.perm_append_comm_assoc _ _ _).trans (hsplit.append_left v)

theorem flat_erase (m : OrdMap K (List T)) (k : K) :
    m.flat = m.getD k [] + (m.erase k).flat := by
  have hsplit := (List.filter_append_perm (fun e => decide (e.1 = k)) m.entries).flatMap_right Prod.snd
  have hkey : ((m.get? k).toList.map (fun v => (k, v))).flatMap Prod.snd = m.getD k [] := by
    cases h : m.get? k <;> simp [getD, h]
  rw [List.flatMap_append, filter_key_eq, hkey] at hsplit
  simp only [flat, erase, entries_filter, Multiset.coe_add]
  rw [Multiset.coe_eq_coe]
  simpa using hsplit.symm

end Flat

end OrdMap
end YogSothoth
