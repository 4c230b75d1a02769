import Mathlib.Data.List.DropRight
import Mathlib.Data.List.Infix
import Mathlib.Algebra.Order.Group.Nat

namespace YogSothoth

theorem not_concat_prefix_nil {A : Type*} (before : List A) (a : A) : ¬before ++ [a] <+: [] := by
  intro h
  have hnil := List.prefix_nil.mp h
  rw [List.append_eq_nil_iff] at hnil
  cases hnil.2

/-- What a turn of a retry loop comes to: the end, a fresh start, or one more failure in a row. -/
inductive Turn (E : Type) where
  | stop
  | churn
  | charge (error : E)
  deriving DecidableEq

namespace Turn

variable {E : Type}

def isCharged : Turn E → Bool
  | .charge _ => true
  | _ => false

/-- How many failures in a row a history ends on. -/
def streak (turns : List (Turn E)) : Nat := (turns.reverse.takeWhile isCharged).length

theorem streak_stop (turns : List (Turn E)) : streak (turns ++ [stop]) = 0 := by
  rw [streak, List.reverse_append, List.reverse_singleton, List.singleton_append,
    List.takeWhile_cons_of_neg Bool.false_ne_true, List.length_nil]

theorem streak_churn (turns : List (Turn E)) : streak (turns ++ [churn]) = 0 := by
  rw [streak, List.reverse_append, List.reverse_singleton, List.singleton_append,
    List.takeWhile_cons_of_neg Bool.false_ne_true, List.length_nil]

theorem streak_charge (turns : List (Turn E)) (error : E) :
    streak (turns ++ [charge error]) = streak turns + 1 := by
  rw [streak, List.reverse_append, List.reverse_singleton, List.singleton_append,
    List.takeWhile_cons_of_pos rfl, List.length_cons, streak]

/-- A history ends on its streak. -/
theorem exists_streak {A : Type*} (turn : A → Turn E) (history : List A) :
    ∃ before last, history = before ++ last ∧ last.length = streak (history.map turn) ∧
      ∀ a ∈ last, (turn a).isCharged = true := by
  refine ⟨history.rdropWhile (isCharged ∘ turn), history.rtakeWhile (isCharged ∘ turn),
    List.rdropWhile_append_rtakeWhile.symm, ?_, fun a ha => ?_⟩
  · rw [List.rtakeWhile, List.length_reverse, streak, ← List.map_reverse, List.takeWhile_map,
      List.length_map]
  · have hcharged : (isCharged ∘ turn) a = true := List.mem_takeWhile_imp (List.mem_reverse.mp ha)
    exact hcharged

theorem length_le_streak (before last : List (Turn E)) (h : ∀ turn ∈ last, turn.isCharged = true) :
    last.length ≤ streak (before ++ last) := by
  have hlast : ∀ turn ∈ last.reverse, turn.isCharged = true :=
    fun turn hturn => h turn (List.mem_reverse.mp hturn)
  rw [streak, List.reverse_append, List.takeWhile_append_of_pos hlast, List.length_append,
    List.length_reverse]
  exact Nat.le_add_right _ _

/-- The loop goes on after each of these turns. -/
def Goes (limit : Nat) (turns : List (Turn E)) : Prop :=
  ∀ before turn, before ++ [turn] <+: turns → turn ≠ stop ∧ streak (before ++ [turn]) < limit

theorem Goes.nil (limit : Nat) : Goes limit ([] : List (Turn E)) := by
  intro before turn h
  exact (not_concat_prefix_nil before turn h).elim

theorem Goes.concat {limit : Nat} {turns : List (Turn E)} (h : Goes limit turns) {turn : Turn E}
    (hstop : turn ≠ stop) (hlimit : streak (turns ++ [turn]) < limit) :
    Goes limit (turns ++ [turn]) := by
  intro before last hlast
  rcases List.prefix_concat_iff.mp hlast with heq | hbefore
  · obtain ⟨rfl, rfl⟩ := List.append_singleton_inj.mp heq
    exact ⟨hstop, hlimit⟩
  · exact h before last hbefore

theorem Goes.streak_lt {limit : Nat} {turns : List (Turn E)} (h : Goes limit turns)
    (hlimit : 0 < limit) : streak turns < limit := by
  rcases List.eq_nil_or_concat turns with rfl | ⟨before, turn, rfl⟩
  · exact hlimit
  · rw [List.concat_eq_append] at h ⊢
    exact (h before turn (List.prefix_refl _)).2

theorem Goes.streak_prefix {limit : Nat} {turns before : List (Turn E)} (h : Goes limit turns)
    (hlimit : 0 < limit) (hbefore : before <+: turns) : streak before < limit :=
  Goes.streak_lt (fun first turn hfirst => h first turn (hfirst.trans hbefore)) hlimit

/-- The wait that follows a turn: the first one after a fresh start, then twice the last one. -/
def wait (cap : Nat) (turns : List (Turn E)) : Nat :=
  if streak turns = 0 then 1 else min (2 ^ (streak turns - 1)) cap

theorem wait_churn (cap : Nat) (turns : List (Turn E)) : wait cap (turns ++ [churn]) = 1 :=
  if_pos (streak_churn turns)

theorem wait_charge (cap : Nat) (turns : List (Turn E)) (error : E) :
    wait cap (turns ++ [charge error]) = min (2 ^ streak turns) cap := by
  rw [wait, streak_charge, if_neg (Nat.succ_ne_zero _), Nat.add_sub_cancel]

theorem min_double (k cap : Nat) : min (min (2 ^ k) cap * 2) cap = min (2 ^ (k + 1)) cap := by
  rw [Nat.pow_succ]
  omega

/-- How a history goes on from the turns the loop went through. -/
inductive Ended (limit : Nat) (before : List (Turn E)) :
    List (Turn E) → Option (Except (Nat × E) Unit) → Prop where
  | running : Ended limit before [] none
  | stopped (rest : List (Turn E)) : Ended limit before (.stop :: rest) (some (.ok ()))
  | exhausted (error : E) (rest : List (Turn E)) (last : streak before + 1 = limit) :
      Ended limit before (.charge error :: rest) (some (.error (limit, error)))

/-- A loop that goes on after `turns` has not ended before them. -/
theorem Ended.length_le {limit : Nat} {before rest turns more : List (Turn E)}
    {result : Option (Except (Nat × E) Unit)} (h : Ended limit before rest result)
    (hgoes : Goes limit turns) (hsame : before ++ rest = turns ++ more) :
    turns.length ≤ before.length := by
  by_contra hlt
  rw [not_le] at hlt
  have hprefix : before <+: turns :=
    List.prefix_of_prefix_length_le (List.prefix_append before rest)
      (hsame ▸ List.prefix_append turns more) hlt.le
  obtain ⟨tail, rfl⟩ := hprefix
  rw [List.append_assoc, List.append_cancel_left_eq] at hsame
  cases tail with
  | nil =>
    rw [List.append_nil] at hlt
    exact lt_irrefl _ hlt
  | cons turn tail =>
    have hturn := hgoes before turn ⟨tail, List.append_assoc ..⟩
    cases h with
    | running => cases hsame
    | stopped _ =>
      cases hsame
      exact hturn.1 rfl
    | exhausted error _ last =>
      cases hsame
      rw [streak_charge, last] at hturn
      exact lt_irrefl _ hturn.2

/-- A history ends a loop in one place. -/
theorem Ended.unique {limit : Nat} {before rest before' rest' : List (Turn E)}
    {result result' : Option (Except (Nat × E) Unit)} (h : Ended limit before rest result)
    (hgoes : Goes limit before) (h' : Ended limit before' rest' result')
    (hgoes' : Goes limit before') (hsame : before ++ rest = before' ++ rest') :
    before = before' ∧ result = result' := by
  have hlength : before.length = before'.length :=
    le_antisymm (h'.length_le hgoes hsame.symm) (h.length_le hgoes' hsame)
  obtain ⟨rfl, rfl⟩ := List.append_inj hsame hlength
  refine ⟨rfl, ?_⟩
  cases h with
  | running => cases h'; rfl
  | stopped => cases h'; rfl
  | exhausted => cases h'; rfl

/-- What a loop of `limit` failures in a row makes of a history that follows the turns `past`: it
goes through the turns `before`, waits after each, and ends on the next. -/
def Retried (limit cap : Nat) (past turns : List (Turn E)) (waits : List Nat)
    (result : Option (Except (Nat × E) Unit)) : Prop :=
  ∃ before rest, turns = before ++ rest ∧ Goes limit (past ++ before) ∧
    waits = (List.range before.length).map (fun i => wait cap (past ++ before.take (i + 1))) ∧
    Ended limit (past ++ before) rest result

namespace Retried

variable {limit cap : Nat} {past turns : List (Turn E)} {waits : List Nat}
  {result : Option (Except (Nat × E) Unit)}

theorem ended (hpast : Goes limit past) (h : Ended limit past turns result) :
    Retried limit cap past turns [] result := by
  refine ⟨[], turns, rfl, ?_, rfl, ?_⟩
  · rwa [List.append_nil]
  · rwa [List.append_nil]

theorem cons {turn : Turn E} (h : Retried limit cap (past ++ [turn]) turns waits result) :
    Retried limit cap past (turn :: turns) (wait cap (past ++ [turn]) :: waits) result := by
  obtain ⟨before, rest, rfl, hgoes, rfl, hended⟩ := h
  have hpast : past ++ turn :: before = past ++ [turn] ++ before := List.append_cons ..
  refine ⟨turn :: before, rest, rfl, hpast ▸ hgoes, ?_, hpast ▸ hended⟩
  rw [List.length_cons, List.range_succ_eq_map, List.map_cons, List.map_map, List.take_succ_cons,
    List.take_zero]
  refine congrArg _ (List.map_congr_left ?_)
  intro i _
  rw [Function.comp_apply, List.take_succ_cons]
  exact congrArg (wait cap) (List.append_cons ..).symm

/-- A loop gives up exactly on the failure that makes so many in a row. -/
theorem exhausted_iff (h : Retried limit cap [] turns waits result) {attempts : Nat} {error : E} :
    result = some (.error (attempts, error)) ↔ attempts = limit ∧
      ∃ before rest, turns = before ++ .charge error :: rest ∧ Goes limit before ∧
        streak before + 1 = limit := by
  obtain ⟨before, rest, rfl, hgoes, -, hended⟩ := h
  rw [List.nil_append] at hgoes hended
  constructor
  · intro hresult
    rw [hresult] at hended
    cases hended with
    | exhausted _ rest last => exact ⟨rfl, before, rest, rfl, hgoes, last⟩
  · intro ⟨hattempts, before', rest', hsame, hgoes', hlast⟩
    rw [hattempts]
    exact (hended.unique hgoes (.exhausted error rest' hlast) hgoes' hsame).2

end Retried

end Turn

end YogSothoth
