import Mathlib.Algebra.Group.Nat.Units
import Mathlib.Data.List.Forall2

namespace YogSothoth

theorem bind_eq_ok {A B E : Type} {x : Except E A} {f : A → Except E B} {b : B}
    (h : (x >>= f) = .ok b) : ∃ a, x = .ok a ∧ f a = .ok b := by
  cases x with
  | error e => cases h
  | ok a => exact ⟨a, rfl, h⟩

theorem mapError_bind_eq_ok {A B E F : Type} {x : Except E A} {f : E → F} {g : A → Except F B}
    {b : B} (h : (x.mapError f >>= g) = .ok b) : ∃ a, x = .ok a ∧ g a = .ok b := by
  obtain ⟨a, ha, hg⟩ := bind_eq_ok h
  cases x with
  | error e => cases ha
  | ok a' =>
    cases ha
    exact ⟨a, rfl, hg⟩

theorem mapError_eq_ok {A E F : Type} {x : Except E A} {f : E → F} {a : A} :
    x.mapError f = .ok a ↔ x = .ok a := by
  cases x with
  | error e =>
    constructor
    · intro h
      cases h
    · intro h
      cases h
  | ok a' =>
    constructor
    · intro h
      exact congrArg Except.ok (Except.ok.inj h)
    · intro h
      exact congrArg Except.ok (Except.ok.inj h)

theorem mapM_ok_of_forall {α β E : Type*} {f : α → Except E β} {g : α → β} {l : List α}
    (h : ∀ a ∈ l, f a = .ok (g a)) : l.mapM f = .ok (l.map g) := by
  induction l with
  | nil => rfl
  | cons a l ih =>
    have htail := ih (fun b hb => h b (List.mem_cons_of_mem _ hb))
    rw [List.mapM_cons, h a List.mem_cons_self, htail]
    rfl

theorem forall₂_of_mapM_ok {A B E : Type} {f : A → Except E B} {l : List A} {bs : List B}
    (h : l.mapM f = .ok bs) : List.Forall₂ (fun a b => f a = .ok b) l bs := by
  induction l generalizing bs with
  | nil =>
    cases h
    exact List.Forall₂.nil
  | cons a l ih =>
    rw [List.mapM_cons] at h
    obtain ⟨b, hb, h⟩ := bind_eq_ok h
    obtain ⟨bs', hbs', h⟩ := bind_eq_ok h
    cases h
    exact List.Forall₂.cons hb (ih hbs')

theorem mem_of_mapM_ok {A B E : Type} {f : A → Except E B} {l : List A} {bs : List B}
    (h : l.mapM f = .ok bs) {b : B} (hb : b ∈ bs) : ∃ a ∈ l, f a = .ok b := by
  have hall := forall₂_of_mapM_ok h
  clear h
  induction hall with
  | nil => cases hb
  | cons hab _ ih =>
    rcases List.mem_cons.mp hb with rfl | hb
    · exact ⟨_, List.mem_cons_self, hab⟩
    · obtain ⟨c, hc, hfc⟩ := ih hb
      exact ⟨c, List.mem_cons_of_mem _ hc, hfc⟩

theorem exists_of_mapM_ok {A B E : Type} {f : A → Except E B} {l : List A} {bs : List B}
    (h : l.mapM f = .ok bs) {a : A} (ha : a ∈ l) : ∃ b ∈ bs, f a = .ok b := by
  have hall := forall₂_of_mapM_ok h
  clear h
  induction hall with
  | nil => cases ha
  | cons hab _ ih =>
    rcases List.mem_cons.mp ha with rfl | ha
    · exact ⟨_, List.mem_cons_self, hab⟩
    · obtain ⟨c, hc, hfc⟩ := ih ha
      exact ⟨c, List.mem_cons_of_mem _ hc, hfc⟩

/-- The elements kept are those kept of what they become. -/
theorem mapM_filter_ok {A B E : Type} {f : A → Except E B} {p : A → Bool} {q : B → Bool}
    (hpq : ∀ a b, f a = .ok b → p a = q b) {l : List A} {bs : List B} (h : l.mapM f = .ok bs) :
    (l.filter p).mapM f = .ok (bs.filter q) := by
  induction l generalizing bs with
  | nil =>
    cases h
    rfl
  | cons a l ih =>
    rw [List.mapM_cons] at h
    obtain ⟨b, hb, h⟩ := bind_eq_ok h
    obtain ⟨bs', hbs', h⟩ := bind_eq_ok h
    cases h
    have htail := ih hbs'
    rw [List.filter_cons, List.filter_cons, ← hpq a b hb]
    split_ifs
    · rw [List.mapM_cons, hb, htail]
      rfl
    · exact htail

theorem mapM_map_ok {A B C E : Type} {f : A → Except E B} {key : A → C} {key' : B → C}
    (hkey : ∀ a b, f a = .ok b → key' b = key a) {l : List A} {bs : List B}
    (h : l.mapM f = .ok bs) : bs.map key' = l.map key := by
  have hall := forall₂_of_mapM_ok h
  clear h
  induction hall with
  | nil => rfl
  | cons hab _ ih => rw [List.map_cons, List.map_cons, ih, hkey _ _ hab]

/-- Two lists related element by element end on related elements. -/
theorem getLast?_of_forall₂ {A B : Type*} {R : A → B → Prop} {l : List A} {l' : List B}
    (h : List.Forall₂ R l l') {b : B} (hb : l'.getLast? = some b) :
    ∃ a, l.getLast? = some a ∧ R a b := by
  have hrev := List.forall₂_reverse_iff.mpr h
  rw [← List.head?_reverse] at hb ⊢
  generalize l.reverse = before at hrev ⊢
  generalize l'.reverse = after at hrev hb
  cases hrev with
  | nil => cases hb
  | cons hab _ =>
    cases hb
    exact ⟨_, rfl, hab⟩

end YogSothoth
