import YogSothoth.Framework.OrdMap
import Mathlib.Data.List.Sort

namespace YogSothoth.OrdMap

variable {K V : Type*} [LinearOrder K]

/-- Two tables that answer every key alike are one. -/
theorem ext_get? {m m' : OrdMap K V} (h : ∀ k, m.get? k = m'.get? k) : m = m' := by
  have hmem : ∀ e, e ∈ m.entries ↔ e ∈ m'.entries := by
    intro e
    rw [← get?_eq_some, ← get?_eq_some, h]
  have hnodup : ∀ n : OrdMap K V, n.entries.Nodup := fun n =>
    n.sorted.imp (fun hlt he => absurd (he ▸ hlt) (lt_irrefl _))
  have hperm := (List.perm_ext_iff_of_nodup (hnodup m) (hnodup m')).mpr hmem
  refine OrdMap.ext (hperm.eq_of_pairwise ?_ m.sorted m'.sorted)
  intro a b _ _ hab hba
  exact absurd (hab.trans hba) (lt_irrefl _)

/-- The rows read through a function, under the same keys. -/
def mapVal {W : Type*} (m : OrdMap K V) (f : V → W) : OrdMap K W :=
  ⟨m.entries.map (fun e => (e.1, f e.2)), List.pairwise_map.mpr m.sorted⟩

theorem mem_mapVal {W : Type*} {m : OrdMap K V} {f : V → W} {e : K × W} :
    e ∈ (m.mapVal f).entries ↔ ∃ v, (e.1, v) ∈ m.entries ∧ f v = e.2 := by
  change e ∈ m.entries.map _ ↔ _
  rw [List.mem_map]
  constructor
  · intro h
    obtain ⟨a, ha, h⟩ := h
    rw [← h]
    exact ⟨a.2, ha, rfl⟩
  · intro h
    obtain ⟨v, hv, h⟩ := h
    exact ⟨(e.1, v), hv, Prod.ext rfl h⟩

theorem keys_sorted (m : OrdMap K V) : m.keys.Pairwise (· < ·) := List.pairwise_map.mpr m.sorted

theorem keys_nodup (m : OrdMap K V) : m.keys.Nodup :=
  m.keys_sorted.imp (fun h => h.ne)

/-- `ON CONFLICT DO NOTHING`: a row already there is kept. -/
def insertNew (m : OrdMap K V) (e : K × V) : OrdMap K V :=
  if (m.get? e.1).isSome then m else m.insert e.1 e.2

def insertAllNew (m : OrdMap K V) (rows : List (K × V)) : OrdMap K V := rows.foldl insertNew m

/-- `ON CONFLICT DO UPDATE`, every column set. -/
def upsertAll (m : OrdMap K V) (rows : List (K × V)) : OrdMap K V :=
  rows.foldl (fun m e => m.insert e.1 e.2) m

/-- At most one row a key, as a `GROUP BY` selects them. -/
def Keyed (rows : List (K × V)) : Prop := ∀ a ∈ rows, ∀ b ∈ rows, a.1 = b.1 → a = b

omit [LinearOrder K] in
theorem Keyed.tail {e : K × V} {rows : List (K × V)} (h : Keyed (e :: rows)) : Keyed rows :=
  fun a ha b hb => h a (by simp [ha]) b (by simp [hb])

omit [LinearOrder K] in
theorem Keyed.head_eq {e : K × V} {rows : List (K × V)} (h : Keyed (e :: rows)) {v : V}
    (hv : (e.1, v) ∈ rows) : v = e.2 :=
  congrArg Prod.snd (h (e.1, v) (by simp [hv]) e (by simp) rfl)

theorem get?_insertNew (m : OrdMap K V) (e : K × V) (k : K) (v : V) :
    (m.insertNew e).get? k = some v ↔ m.get? k = some v ∨ (m.get? k = none ∧ (k, v) = e) := by
  rw [insertNew]
  split_ifs with h
  · refine ⟨Or.inl, ?_⟩
    rintro (hv | ⟨hnone, rfl⟩)
    · exact hv
    · simp [hnone] at h
  · have hnone : m.get? e.1 = none := by simpa using h
    by_cases hk : k = e.1
    · subst hk
      simp [hnone, Prod.ext_iff, eq_comm]
    · have hne : (k, v) ≠ e := fun he => hk (congrArg Prod.fst he)
      rw [get?_insert_of_ne _ _ hk]
      simp [hne]

theorem get?_insertAllNew {rows : List (K × V)} (h : Keyed rows) (m : OrdMap K V) (k : K) (v : V) :
    (m.insertAllNew rows).get? k = some v ↔
      m.get? k = some v ∨ (m.get? k = none ∧ (k, v) ∈ rows) := by
  induction rows generalizing m with
  | nil => simp [insertAllNew]
  | cons e rows ih =>
    have hnone : (m.insertNew e).get? k = none ↔ m.get? k = none ∧ k ≠ e.1 := by
      rw [← not_iff_not, ← ne_eq, Option.ne_none_iff_exists']
      simp only [get?_insertNew]
      cases hk : m.get? k with
      | none => simp [Prod.ext_iff]
      | some w => simp
    change ((m.insertNew e).insertAllNew rows).get? k = some v ↔ _
    rw [ih h.tail, get?_insertNew, hnone, List.mem_cons]
    constructor
    · rintro ((hv | ⟨hk, he⟩) | ⟨⟨hk, -⟩, hmem⟩)
      · exact Or.inl hv
      · exact Or.inr ⟨hk, Or.inl he⟩
      · exact Or.inr ⟨hk, Or.inr hmem⟩
    · rintro (hv | ⟨hk, he | hmem⟩)
      · exact Or.inl (Or.inl hv)
      · exact Or.inl (Or.inr ⟨hk, he⟩)
      · by_cases hke : k = e.1
        · subst hke
          exact Or.inl (Or.inr ⟨hk, by rw [h.head_eq hmem]⟩)
        · exact Or.inr ⟨⟨hk, hke⟩, hmem⟩

theorem get?_upsertAll {rows : List (K × V)} (h : Keyed rows) (m : OrdMap K V) (k : K) (v : V) :
    (m.upsertAll rows).get? k = some v ↔
      (k, v) ∈ rows ∨ ((∀ w, (k, w) ∉ rows) ∧ m.get? k = some v) := by
  induction rows generalizing m with
  | nil => simp [upsertAll]
  | cons e rows ih =>
    change ((m.insert e.1 e.2).upsertAll rows).get? k = some v ↔ _
    rw [ih h.tail, get?_insert]
    by_cases hke : k = e.1
    · subst hke
      simp only [↓reduceIte, Option.some.injEq, List.mem_cons]
      constructor
      · rintro (hmem | ⟨-, rfl⟩)
        · exact Or.inl (Or.inr hmem)
        · exact Or.inl (Or.inl rfl)
      · rintro ((he | hmem) | ⟨hnone, -⟩)
        · by_cases hv : (e.1, v) ∈ rows
          · exact Or.inl hv
          · refine Or.inr ⟨fun w hw => hv ?_, congrArg Prod.snd he.symm⟩
            rw [h.head_eq hw] at hw
            rwa [show v = e.2 from congrArg Prod.snd he]
        · exact Or.inl hmem
        · exact absurd (Or.inl rfl) (hnone e.2)
    · have hne : ∀ w, (k, w) ≠ e := fun w he => hke (congrArg Prod.fst he)
      simp [hke, hne]

end YogSothoth.OrdMap
