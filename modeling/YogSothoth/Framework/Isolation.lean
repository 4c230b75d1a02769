import Mathlib.Data.List.Nodup
import YogSothoth.Framework.Fallible

namespace YogSothoth

variable {R F S E : Type}

/-- Rows converted together, then judged one by one: one that cannot be converted fails them all,
one whose judgement panics (`none`) is a panic. -/
def judgeAll (convert : R → Except E F) (judge : F → Option (Option S)) (rows : List R) :
    Option (Except E (List S)) :=
  match rows.mapM convert with
  | .error e => some (.error e)
  | .ok flows => (flows.mapM judge).map (fun found => .ok (found.filterMap id))

/-- A row is converted and judged. -/
def Judged (convert : R → Except E F) (judge : F → Option (Option S)) (row : R)
    (found : Option S) : Prop :=
  ∃ flow, convert row = .ok flow ∧ judge flow = some found

variable {convert : R → Except E F} {judge : F → Option (Option S)} {rows : List R}

theorem Judged.unique {row : R} {found found' : Option S} (h : Judged convert judge row found)
    (h' : Judged convert judge row found') : found = found' := by
  obtain ⟨flow, hflow, hfound⟩ := h
  obtain ⟨flow', hflow', hfound'⟩ := h'
  have hsame : flow = flow' := Except.ok.inj (hflow.symm.trans hflow')
  rw [hsame] at hfound
  exact Option.some.inj (hfound.symm.trans hfound')

theorem judgeAll_nil : judgeAll convert judge [] = some (.ok []) := rfl

/-- A row and the rest succeed together or not at all. -/
theorem judgeAll_cons {row : R} {found : List S} :
    judgeAll convert judge (row :: rows) = some (.ok found) ↔
      ∃ first rest, Judged convert judge row first ∧
        judgeAll convert judge rows = some (.ok rest) ∧ found = first.toList ++ rest := by
  unfold judgeAll Judged
  rw [List.mapM_cons]
  cases hrow : convert row with
  | error e =>
    constructor
    · intro h
      cases Option.some.inj h
    · intro ⟨_, _, ⟨flow, hflow, _⟩, _⟩
      cases hflow
  | ok flow =>
    cases hrows : rows.mapM convert with
    | error e =>
      constructor
      · intro h
        cases Option.some.inj h
      · intro ⟨_, _, _, h, _⟩
        cases Option.some.inj h
    | ok flows =>
      change ((flow :: flows).mapM judge).map _ = _ ↔ _
      rw [List.mapM_cons]
      cases hfirst : judge flow with
      | none =>
        constructor
        · intro h
          cases h
        · intro ⟨first, rest, ⟨flow', hflow, hjudged⟩, _⟩
          cases hflow
          rw [hfirst] at hjudged
          cases hjudged
      | some first =>
        cases hrest : flows.mapM judge with
        | none =>
          constructor
          · intro h
            cases h
          · intro ⟨_, _, _, h, _⟩
            simp only [hrest] at h
            cases h
        | some rest =>
          have hhead (l : List (Option S)) :
              (first :: l).filterMap id = first.toList ++ l.filterMap id := by
            cases first with
            | none => rfl
            | some s => rfl
          constructor
          · intro h
            have hfound : (first :: rest).filterMap id = found :=
              Except.ok.inj (Option.some.inj h)
            rw [hhead] at hfound
            exact ⟨first, _, ⟨flow, rfl, hfirst⟩, by simp only [hrest]; rfl, hfound.symm⟩
          · intro ⟨first', rest', ⟨flow', hflow, hjudged⟩, hrest', hfound⟩
            cases hflow
            rw [hfirst] at hjudged
            simp only [hrest] at hrest'
            have hrest' : rest.filterMap id = rest' := Except.ok.inj (Option.some.inj hrest')
            have hsame : first = first' := Option.some.inj hjudged
            rw [hfound, ← hrest', ← hsame, ← hhead]
            rfl

/-- Rows succeed together when each does alone. -/
theorem judgeAll_ok_iff : (∃ found, judgeAll convert judge rows = some (.ok found)) ↔
    ∀ row ∈ rows, ∃ found, Judged convert judge row found := by
  induction rows with
  | nil => simp [judgeAll_nil]
  | cons row rows ih =>
    rw [List.forall_mem_cons, ← ih]
    constructor
    · intro ⟨found, h⟩
      obtain ⟨first, rest, hfirst, hrest, -⟩ := judgeAll_cons.mp h
      exact ⟨⟨first, hfirst⟩, rest, hrest⟩
    · intro ⟨⟨first, hfirst⟩, rest, hrest⟩
      exact ⟨_, judgeAll_cons.mpr ⟨first, rest, hfirst, hrest, rfl⟩⟩

theorem judgeAll_singleton {row : R} {found : List S} :
    judgeAll convert judge [row] = some (.ok found) ↔
      ∃ first, Judged convert judge row first ∧ found = first.toList := by
  rw [judgeAll_cons]
  constructor
  · intro ⟨first, rest, hfirst, hrest, hfound⟩
    have hnil : [] = rest := Except.ok.inj (Option.some.inj hrest)
    rw [← hnil, List.append_nil] at hfound
    exact ⟨first, hfirst, hfound⟩
  · intro ⟨first, hfirst, hfound⟩
    exact ⟨first, [], hfirst, rfl, by rw [List.append_nil]; exact hfound⟩

section Keys

variable {K : Type} [DecidableEq K] {key : R → K} {keyOf : S → K}

/-- Nothing is found of a key no row has. -/
theorem judgeAll_filter_nil
    (hkey : ∀ row ∈ rows, ∀ s, Judged convert judge row (some s) → keyOf s = key row)
    {k : K} (hk : k ∉ rows.map key) {found : List S}
    (h : judgeAll convert judge rows = some (.ok found)) :
    found.filter (fun s => keyOf s = k) = [] := by
  induction rows generalizing found with
  | nil =>
    have hnil : [] = found := Except.ok.inj (Option.some.inj h)
    rw [← hnil]
    rfl
  | cons row rows ih =>
    obtain ⟨judged, rest, hjudged, hrest, hfound⟩ := judgeAll_cons.mp h
    rw [List.map_cons, List.mem_cons, not_or] at hk
    have hrows := ih (fun r hr => hkey r (List.mem_cons_of_mem row hr)) hk.2 hrest
    rw [hfound, List.filter_append, hrows, List.append_nil, List.filter_eq_nil_iff]
    intro s hs hsame
    rw [Option.mem_toList] at hs
    rw [hs] at hjudged
    exact hk.1 ((of_decide_eq_true hsame).symm.trans (hkey row List.mem_cons_self s hjudged))

/-- What is found of a key is found of its row. -/
theorem judgeAll_filter
    (hkey : ∀ row ∈ rows, ∀ s, Judged convert judge row (some s) → keyOf s = key row)
    (hnodup : (rows.map key).Nodup) {found : List S}
    (h : judgeAll convert judge rows = some (.ok found)) {row : R} (hrow : row ∈ rows)
    {first : Option S} (hfirst : Judged convert judge row first) :
    found.filter (fun s => keyOf s = key row) = first.toList := by
  induction rows generalizing found with
  | nil => cases hrow
  | cons other rows ih =>
    obtain ⟨judged, rest, hjudged, hrest, hfound⟩ := judgeAll_cons.mp h
    obtain ⟨hnotin, hnodup⟩ := List.nodup_cons.mp hnodup
    have hrows := fun r hr => hkey r (List.mem_cons_of_mem other hr)
    rw [hfound, List.filter_append]
    cases List.mem_cons.mp hrow with
    | inl hsame =>
      rw [hsame] at hfirst ⊢
      rw [judgeAll_filter_nil hrows hnotin hrest, List.append_nil, hjudged.unique hfirst]
      apply List.filter_eq_self.mpr
      intro s hs
      rw [Option.mem_toList] at hs
      rw [hs] at hfirst
      exact decide_eq_true (hkey other List.mem_cons_self s hfirst)
    | inr hrow =>
      rw [ih hrows hnodup hrest hrow]
      have hother : judged.toList.filter (fun s => keyOf s = key row) = [] := by
        rw [List.filter_eq_nil_iff]
        intro s hs hsame
        rw [Option.mem_toList] at hs
        rw [hs] at hjudged
        have heq := (hkey other List.mem_cons_self s hjudged).symm.trans (of_decide_eq_true hsame)
        exact hnotin (heq ▸ List.mem_map_of_mem hrow)
      rw [hother, List.nil_append]

/-- A row is judged among others as alone exactly when each of the others is judged. -/
theorem judgeAll_isolated
    (hkey : ∀ row ∈ rows, ∀ s, Judged convert judge row (some s) → keyOf s = key row)
    (hnodup : (rows.map key).Nodup) {row : R} (hrow : row ∈ rows) {first : Option S}
    (hfirst : Judged convert judge row first) (kept : S → Bool) :
    (∃ found alone, judgeAll convert judge rows = some (.ok found) ∧
        judgeAll convert judge [row] = some (.ok alone) ∧
        (found.filter kept).filter (fun s => keyOf s = key row) = alone.filter kept) ↔
      ∀ other ∈ rows, key other ≠ key row → ∃ found, Judged convert judge other found := by
  constructor
  · intro ⟨found, _, hfound, _⟩ other hother _
    exact judgeAll_ok_iff.mp ⟨found, hfound⟩ other hother
  · intro hothers
    have hall : ∀ other ∈ rows, ∃ found, Judged convert judge other found := by
      intro other hother
      by_cases hsame : key other = key row
      · have hrow' := List.inj_on_of_nodup_map hnodup hother hrow hsame
        rw [hrow']
        exact ⟨first, hfirst⟩
      · exact hothers other hother hsame
    obtain ⟨found, hfound⟩ := judgeAll_ok_iff.mpr hall
    refine ⟨found, first.toList, hfound, judgeAll_singleton.mpr ⟨first, hfirst, rfl⟩, ?_⟩
    rw [List.filter_comm, judgeAll_filter hkey hnodup hfound hrow hfirst]

end Keys

end YogSothoth
