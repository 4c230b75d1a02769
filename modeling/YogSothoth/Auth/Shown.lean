import YogSothoth.Auth.Service

namespace YogSothoth.Auth

/-- The moment of the run whose keys the ring shows, and the one a reread has read. -/
structure Shown where
  now : Nat
  ring : Option Nat
  reading : Option (Option Nat)

namespace Shown

def step (v : Shown) : Action → Shown
  | .start fault =>
    match v.ring, fault with
    | none, none => ⟨v.now + 1, some v.now, v.reading⟩
    | _, _ => { v with now := v.now + 1 }
  | .read fault =>
    match v.ring, v.reading with
    | some _, none => ⟨v.now + 1, v.ring, some (if fault.isNone then some v.now else none)⟩
    | _, _ => { v with now := v.now + 1 }
  | .store =>
    match v.ring, v.reading with
    | some shown, some read => ⟨v.now + 1, some (read.getD shown), none⟩
    | _, _ => { v with now := v.now + 1 }
  | .stop => ⟨v.now + 1, none, none⟩
  | _ => { v with now := v.now + 1 }

def run (actions : List Action) : Shown := actions.foldl step ⟨0, none, none⟩

/-- What is shown was read before now, and what a reread has read is no older. -/
structure Ordered (v : Shown) : Prop where
  shown : ∀ i, v.ring = some i → i ≤ v.now
  read : ∀ j, v.reading = some (some j) → j ≤ v.now ∧ ∀ i, v.ring = some i → i ≤ j
  idle : v.ring = none → v.reading = none

theorem step_now (v : Shown) (a : Action) : (v.step a).now = v.now + 1 := by
  cases a with
  | start fault =>
    unfold step
    dsimp only
    split <;> rfl
  | read fault =>
    unfold step
    dsimp only
    split <;> rfl
  | store =>
    unfold step
    dsimp only
    split <;> rfl
  | createKey client front secret fault => rfl
  | revokeKey pre fault => rfl
  | revokeClient name => rfl
  | stop => rfl

theorem run_concat (actions : List Action) (a : Action) :
    run (actions ++ [a]) = (run actions).step a := by
  rw [run, List.foldl_append]
  rfl

theorem run_now (actions : List Action) : (run actions).now = actions.length := by
  induction actions using List.reverseRecOn with
  | nil => rfl
  | append_singleton actions a ih =>
    rw [run_concat, step_now, ih, List.length_append, List.length_singleton]

namespace Ordered

variable {v : Shown}

theorem wait (h : Ordered v) : Ordered { v with now := v.now + 1 } where
  shown i hi := Nat.le_succ_of_le (h.shown i hi)
  read j hj := ⟨Nat.le_succ_of_le (h.read j hj).1, (h.read j hj).2⟩
  idle := h.idle

theorem step (h : Ordered v) (a : Action) : Ordered (v.step a) := by
  cases a with
  | start fault =>
    unfold Shown.step
    dsimp only
    split
    · rename_i hring
      refine ⟨fun i hi => ?_, fun j hj => ?_, fun hnone => by cases hnone⟩
      · cases hi
        exact Nat.le_succ _
      · rw [h.idle hring] at hj
        cases hj
    · exact h.wait
  | read fault =>
    unfold Shown.step
    dsimp only
    split
    · rename_i shown hring _
      refine ⟨h.wait.shown, fun j hj => ?_, fun hnone => by rw [hring] at hnone; cases hnone⟩
      have hj' := Option.some.inj hj
      split_ifs at hj'
      cases hj'
      exact ⟨Nat.le_succ _, h.shown⟩
    · exact h.wait
  | store =>
    unfold Shown.step
    dsimp only
    split
    · rename_i shown read hring hreading
      refine ⟨fun i hi => ?_, (fun j hj => by cases hj), fun hnone => by cases hnone⟩
      cases hi
      cases read with
      | none => exact Nat.le_succ_of_le (h.shown shown hring)
      | some j => exact Nat.le_succ_of_le (h.read j hreading).1
    · exact h.wait
  | stop => exact ⟨(fun i hi => by cases hi), (fun j hj => by cases hj), fun _ => rfl⟩
  | createKey client front secret fault => exact h.wait
  | revokeKey pre fault => exact h.wait
  | revokeClient name => exact h.wait

end Ordered

theorem run_ordered (actions : List Action) : Ordered (run actions) := by
  induction actions using List.reverseRecOn with
  | nil => exact ⟨(fun i hi => by cases hi), (fun j hj => by cases hj), fun _ => rfl⟩
  | append_singleton actions a ih =>
    rw [run_concat]
    exact ih.step a

/-- Nothing older than a moment is shown or read. -/
def Since (moment : Nat) (v : Shown) : Prop :=
  moment ≤ v.now ∧ (∀ i, v.ring = some i → moment ≤ i) ∧ ∀ j, v.reading = some (some j) → moment ≤ j

theorem since_wait {moment : Nat} {v : Shown} (h : Since moment v) :
    Since moment { v with now := v.now + 1 } := ⟨Nat.le_succ_of_le h.1, h.2⟩

theorem since_step {moment : Nat} {v : Shown} (h : Since moment v) (a : Action) :
    Since moment (v.step a) := by
  obtain ⟨hnow, hring, hreading⟩ := h
  have hwait : Since moment { v with now := v.now + 1 } := since_wait ⟨hnow, hring, hreading⟩
  cases a with
  | start fault =>
    unfold step
    dsimp only
    split
    · refine ⟨Nat.le_succ_of_le hnow, fun i hi => ?_, hreading⟩
      cases hi
      exact hnow
    · exact hwait
  | read fault =>
    unfold step
    dsimp only
    split
    · refine ⟨Nat.le_succ_of_le hnow, hring, fun j hj => ?_⟩
      have hj' := Option.some.inj hj
      split_ifs at hj'
      cases hj'
      exact hnow
    · exact hwait
  | store =>
    unfold step
    dsimp only
    split
    · rename_i shown read hshown hread
      refine ⟨Nat.le_succ_of_le hnow, fun i hi => ?_, fun j hj => by cases hj⟩
      cases hi
      cases read with
      | none => exact hring shown hshown
      | some j => exact hreading j hread
    · exact hwait
  | stop => exact ⟨Nat.le_succ_of_le hnow, (fun i hi => by cases hi), fun j hj => by cases hj⟩
  | createKey client front secret fault => exact hwait
  | revokeKey pre fault => exact hwait
  | revokeClient name => exact hwait

theorem since_run {moment : Nat} {actions : List Action} (h : Since moment (run actions))
    (later : List Action) : Since moment (run (actions ++ later)) := by
  induction later using List.reverseRecOn with
  | nil => rwa [List.append_nil]
  | append_singleton later a ih =>
    rw [← List.append_assoc, run_concat]
    exact since_step ih a

/-- What the ring shows never goes back. -/
theorem forward {actions later : List Action} {i j : Nat} (hi : (run actions).ring = some i)
    (hj : (run (actions ++ later)).ring = some j) : i ≤ j := by
  have hordered := run_ordered actions
  have hnow : Since i (run actions) := by
    refine ⟨hordered.shown i hi, fun k hk => ?_, fun k hk => (hordered.read k hk).2 i hi⟩
    rw [hi] at hk
    exact Nat.le_of_eq (Option.some.inj hk)
  exact (since_run hnow later).2.1 j hj

/-- A reread begun and stored shows the moment it began. -/
theorem reread {actions quiet : List Action} (hring : (run actions).ring.isSome = true)
    (hreading : (run actions).reading = none)
    (hquiet : ∀ a ∈ quiet, a ≠ .store ∧ a ≠ .stop) :
    (run (actions ++ .read none :: quiet ++ [.store])).ring = some actions.length := by
  obtain ⟨shown, hshown⟩ := Option.isSome_iff_exists.mp hring
  have hread : ∀ quiet : List Action, (∀ a ∈ quiet, a ≠ .store ∧ a ≠ .stop) →
      (run (actions ++ .read none :: quiet)).ring = some shown ∧
        (run (actions ++ .read none :: quiet)).reading = some (some actions.length) := by
    intro quiet hquiet
    induction quiet using List.reverseRecOn with
    | nil =>
      rw [run_concat]
      unfold step
      rw [hshown, hreading]
      exact ⟨rfl, congrArg (fun now => some (some now)) (run_now actions)⟩
    | append_singleton quiet a ih =>
      obtain ⟨hring', hreading'⟩ := ih (fun b hb => hquiet b (List.mem_append_left _ hb))
      have ha := hquiet a (List.mem_append_right _ (List.mem_singleton_self a))
      rw [← List.cons_append, ← List.append_assoc, run_concat]
      cases a with
      | start fault =>
        unfold step
        rw [hring']
        exact ⟨rfl, hreading'⟩
      | read fault =>
        unfold step
        rw [hring', hreading']
        exact ⟨rfl, rfl⟩
      | store => exact absurd rfl ha.1
      | stop => exact absurd rfl ha.2
      | createKey client front secret fault => exact ⟨hring', hreading'⟩
      | revokeKey pre fault => exact ⟨hring', hreading'⟩
      | revokeClient name => exact ⟨hring', hreading'⟩
  obtain ⟨hring', hreading'⟩ := hread quiet hquiet
  rw [run_concat]
  unfold step
  rw [hring', hreading']
  rfl

end Shown

end YogSothoth.Auth
