import Mathlib.Order.Bounds.Defs
import YogSothoth.Grpc.KnownWindow
import YogSothoth.Grpc.Strict

namespace YogSothoth.Grpc

variable {T : Type*}

namespace WaitingSlots

section Shrinking

variable (w : WaitingSlots T)

theorem getD_erase_subset (m : OrdMap Nat (List T)) (slot s : Nat) :
    (m.erase slot).getD s [] ⊆ m.getD s [] := by
  unfold OrdMap.getD
  rw [OrdMap.get?_erase]
  split_ifs
  · exact List.nil_subset _
  · exact List.Subset.refl _

theorem getD_erase_self (m : OrdMap Nat (List T)) (slot : Nat) :
    (m.erase slot).getD slot [] = [] := by
  unfold OrdMap.getD
  rw [OrdMap.get?_erase, if_pos rfl]
  rfl

theorem enforceLoop_subset (n : Nat) (s : Nat) :
    (enforceLoop n w).pending.getD s [] ⊆ w.pending.getD s [] := by
  induction n generalizing w with
  | zero => exact List.Subset.refl _
  | succ n ih =>
    unfold enforceLoop
    cases w.exceededBound with
    | none => exact List.Subset.refl _
    | some bound =>
      cases hvictim : w.victim bound with
      | none =>
        simp only [hvictim]
        exact List.Subset.refl _
      | some slot =>
        have hrest := ih (w.evict slot bound.reason)
        rw [evict_pending] at hrest
        simp only [hvictim]
        exact List.Subset.trans hrest (getD_erase_subset _ _ _)

theorem enforceBounds_subset (s : Nat) : w.enforceBounds.pending.getD s [] ⊆ w.pending.getD s [] :=
  enforceLoop_subset _ _ s

end Shrinking

end WaitingSlots

namespace KnownSlots

variable {k : KnownSlots} {slot s : Nat} {bank : Bank}

theorem settlement_none (h : k.kept slot = none) : k.settlement slot bank = .pending := by
  unfold kept at h
  unfold settlement
  cases hfacts : k.facts.get? slot with
  | none => rfl
  | some facts =>
    rw [hfacts, Option.bind_some] at h
    simp only [h]

theorem settlement_untimed {kept : Bank} (h : k.kept slot = some kept) (ht : k.time slot = none)
    (hadmits : kept.admits bank = true) : k.settlement slot bank = .pending := by
  unfold KnownSlots.kept at h
  unfold time at ht
  unfold settlement
  cases hfacts : k.facts.get? slot with
  | none => rfl
  | some facts =>
    rw [hfacts, Option.bind_some] at h ht
    rw [h, Option.bind_some] at ht
    simp only [h, hadmits, if_true, ht, Option.elim_none]

/-- What is learnt of another slot, and forgotten of any, leaves a bank pending. -/
theorem settlement_trim_edit (f : Facts → Facts) (hs : s ≠ slot)
    (h : k.settlement s bank = .pending) :
    (k.edit slot f).trim.settlement s bank = .pending := by
  cases hfacts : (k.edit slot f).trim.facts.get? s with
  | none =>
    unfold settlement
    rw [hfacts]
  | some facts =>
    have hkept := OrdMap.mem_dropFirst (OrdMap.get?_eq_some.mp hfacts)
    have hold : k.facts.get? s = some facts := by
      have hedit := OrdMap.get?_eq_some.mpr hkept
      unfold edit at hedit
      rw [OrdMap.get?_insert_of_ne _ _ hs] at hedit
      exact hedit
    unfold settlement at h ⊢
    rw [hold] at h
    rw [hfacts]
    exact h

end KnownSlots

namespace SlotTimestampBuffer

variable {b : SlotTimestampBuffer T} {slot s : Nat} {held : Held T}

/-- Nothing waits that could be released or dropped. -/
def Awaiting (b : SlotTimestampBuffer T) : Prop :=
  ∀ s, ∀ held ∈ b.waitingFor s, b.known.settlement s held.bank = .pending

/-- What waits for a slot once it is settled waited before, and can neither leave nor be dropped. -/
theorem settle_waitingFor (h : held ∈ (b.settle slot).2.waitingFor s) :
    held ∈ b.waitingFor s ∧ (s = slot → b.known.settlement s held.bank = .pending) := by
  unfold settle at h
  cases hkept : b.known.kept slot with
  | none =>
    simp only [hkept] at h
    refine ⟨WaitingSlots.enforceBounds_subset (b.waiting.see slot) s h, ?_⟩
    intro hs
    rw [hs]
    exact KnownSlots.settlement_none hkept
  | some kept =>
    have hdrop := b.waiting.dropLosing_getD slot (fun held => !kept.admits held.bank) s
    have hold : (b.waiting.dropLosing slot (fun held => !kept.admits held.bank)).pending.getD s []
        ⊆ b.waitingFor s := by
      rw [hdrop]
      split_ifs with hs
      · rw [hs]
        exact fun _ hmem => (List.mem_filter.mp hmem).1
      · exact List.Subset.refl _
    cases htime : b.known.time slot with
    | none =>
      simp only [hkept, htime] at h
      have hbefore := WaitingSlots.enforceBounds_subset _ s h
      refine ⟨hold hbefore, ?_⟩
      intro hs
      subst hs
      change held ∈ (b.waiting.dropLosing s (fun held => !kept.admits held.bank)).pending.getD s []
        at hbefore
      rw [hdrop, if_pos rfl] at hbefore
      have hadmits := (List.mem_filter.mp hbefore).2
      rw [Bool.not_not] at hadmits
      exact KnownSlots.settlement_untimed hkept htime hadmits
    | some outcome =>
      have hleft : held ∈
          ((b.waiting.dropLosing slot (fun held => !kept.admits held.bank)).pending.erase
            slot).getD s [] := by
        cases outcome with
        | «at» instant =>
          simp only [hkept, htime] at h
          exact WaitingSlots.enforceBounds_subset _ s h
        | givenUp =>
          simp only [hkept, htime] at h
          have hbefore := WaitingSlots.enforceBounds_subset _ s h
          rw [WaitingSlots.evict_pending] at hbefore
          exact hbefore
      refine ⟨hold (WaitingSlots.getD_erase_subset _ _ _ hleft), ?_⟩
      intro hs
      rw [hs, WaitingSlots.getD_erase_self] at hleft
      cases hleft

theorem Awaiting.settle (h : b.Awaiting) (slot : Nat) (f : Facts → Facts) :
    (({ b with known := (b.known.edit slot f).trim } : SlotTimestampBuffer T).settle
      slot).2.Awaiting := by
  intro s held hheld
  obtain ⟨hbefore, hsettled⟩ := settle_waitingFor hheld
  rw [settle_known]
  by_cases hs : s = slot
  · exact hsettled hs
  · exact KnownSlots.settlement_trim_edit f hs (h s held hbefore)

theorem Awaiting.onPayload (h : b.Awaiting) (slot : Nat) (bank : Bank) (payload : T) :
    (b.onPayload slot bank payload).2.Awaiting := by
  unfold SlotTimestampBuffer.onPayload
  cases hsettlement : b.known.settlement slot bank with
  | settled outcome =>
    cases outcome with
    | «at» instant => exact h
    | givenUp => exact h
  | losing => exact h
  | pending =>
    intro s held hheld
    have hpushed := WaitingSlots.enforceBounds_subset _ s hheld
    change held ∈ (b.waiting.pending.insert slot (b.waiting.pending.getD slot [] ++
      [⟨bank, payload⟩])).getD s [] at hpushed
    unfold OrdMap.getD at hpushed
    rw [OrdMap.get?_insert] at hpushed
    split_ifs at hpushed with hs
    · rw [Option.getD_some, List.mem_append, List.mem_singleton] at hpushed
      cases hpushed with
      | inl hold =>
        rw [hs]
        exact h slot held hold
      | inr hnew =>
        rw [hs, hnew]
        exact hsettlement
    · exact h s held hpushed

end SlotTimestampBuffer

namespace Call

variable {b : SlotTimestampBuffer T}

/-- A block-meta, a status, or a payload that waits. -/
def Moves (b : SlotTimestampBuffer T) : Call T → Prop
  | .payload slot bank _ => b.known.settlement slot bank = .pending
  | _ => True

theorem apply_awaiting (h : b.Awaiting) (c : Call T) : (c.apply b).2.Awaiting := by
  cases c with
  | payload slot bank value => exact h.onPayload slot bank value
  | blockTime slot bank instant => exact h.settle slot _
  | slotUnresolvable slot bank => exact h.settle slot _
  | finalized slot bank => exact h.settle slot _

theorem apply_frame (b : SlotTimestampBuffer T) {c : Call T} (h : c.Moves b) :
    (b.waiting.see c.slot).SameFrame (c.apply b).2.waiting := by
  cases c with
  | payload slot bank value =>
    have hframe := b.waiting.push_frame slot ⟨bank, value⟩
    have hpending : b.known.settlement slot bank = .pending := h
    change (b.waiting.see slot).SameFrame (b.onPayload slot bank value).2.waiting
    unfold SlotTimestampBuffer.onPayload
    rw [hpending]
    exact hframe
  | blockTime slot bank instant =>
    exact SlotTimestampBuffer.settle_frame { b with known := b.known.resolve slot bank instant } slot
  | slotUnresolvable slot bank =>
    exact SlotTimestampBuffer.settle_frame { b with known := b.known.giveUp slot bank } slot
  | finalized slot bank =>
    exact SlotTimestampBuffer.settle_frame { b with known := b.known.keep slot bank } slot

theorem apply_still (b : SlotTimestampBuffer T) {c : Call T} (h : ¬ c.Moves b) :
    b.waiting.SameFrame (c.apply b).2.waiting := by
  cases c with
  | payload slot bank value =>
    change b.waiting.SameFrame (b.onPayload slot bank value).2.waiting
    unfold SlotTimestampBuffer.onPayload
    cases hsettlement : b.known.settlement slot bank with
    | pending => exact absurd hsettlement h
    | losing => exact ⟨rfl, rfl, rfl⟩
    | settled outcome => cases outcome <;> exact ⟨rfl, rfl, rfl⟩
  | blockTime slot bank instant => exact absurd trivial h
  | slotUnresolvable slot bank => exact absurd trivial h
  | finalized slot bank => exact absurd trivial h

theorem apply_windowed (h : b.Windowed) (c : Call T) : (c.apply b).2.Windowed := by
  cases c with
  | payload slot bank value => exact h.onPayload slot bank value
  | blockTime slot bank instant => exact h.settle (fun _ => SlotTimestampBuffer.mem_trim_edit)
  | slotUnresolvable slot bank => exact h.settle (fun _ => SlotTimestampBuffer.mem_trim_edit)
  | finalized slot bank => exact h.settle (fun _ => SlotTimestampBuffer.mem_trim_edit)

/-- The head never goes back. -/
theorem apply_head (b : SlotTimestampBuffer T) (c : Call T) {head : Nat}
    (h : b.waiting.headSlot = some head) :
    ∃ head', (c.apply b).2.waiting.headSlot = some head' ∧ head ≤ head' := by
  by_cases hmoves : c.Moves b
  · refine ⟨max head c.slot, ?_, Nat.le_max_left _ _⟩
    rw [(apply_frame b hmoves).head, WaitingSlots.see, h]
    rfl
  · exact ⟨head, (apply_still b hmoves).head.trans h, le_refl _⟩

end Call

namespace BufferRun

/-- The slots of the block-metas, the statuses and the payloads that waited. -/
def seenSlots (b : SlotTimestampBuffer T) (calls : List (Call T)) : Set Nat :=
  {slot | ∃ before c after, calls = before ++ c :: after ∧ c.Moves (exec b before).buffer ∧
    c.slot = slot}

theorem mem_seenSlots_concat {b : SlotTimestampBuffer T} {calls : List (Call T)} {c : Call T}
    {slot : Nat} : slot ∈ seenSlots b (calls ++ [c]) ↔
      slot ∈ seenSlots b calls ∨ c.Moves (exec b calls).buffer ∧ c.slot = slot := by
  constructor
  · intro h
    obtain ⟨before, d, after, hcalls, hmoves, hslot⟩ := h
    cases after using List.reverseRecOn with
    | nil =>
      obtain ⟨hbefore, hlast⟩ := List.append_inj' hcalls rfl
      have hd : c = d := List.singleton_inj.mp hlast
      subst hbefore hd
      exact .inr ⟨hmoves, hslot⟩
    | append_singleton after last _ =>
      rw [← List.cons_append, ← List.append_assoc] at hcalls
      exact .inl ⟨before, d, after, (List.append_inj' hcalls rfl).1, hmoves, hslot⟩
  · intro h
    cases h with
    | inl hold =>
      obtain ⟨before, d, after, hcalls, hmoves, hslot⟩ := hold
      exact ⟨before, d, after ++ [c], by rw [hcalls, List.append_assoc, List.cons_append],
        hmoves, hslot⟩
    | inr hnew => exact ⟨calls, c, [], rfl, hnew⟩

/-- The head is the greatest slot seen. -/
theorem exec_head (slots payloads known : Nat) (calls : List (Call T)) :
    ((exec (.withBounds slots payloads known) calls).buffer.waiting.headSlot = none →
      seenSlots (.withBounds slots payloads known) calls = ∅) ∧
    ∀ head, (exec (.withBounds slots payloads known) calls).buffer.waiting.headSlot = some head →
      IsGreatest (seenSlots (.withBounds slots payloads known) calls) head := by
  induction calls using List.reverseRecOn with
  | nil =>
    refine ⟨?_, fun head h => (by cases h)⟩
    intro _
    refine Set.eq_empty_iff_forall_notMem.mpr ?_
    intro slot hslot
    obtain ⟨before, c, after, hcalls, _⟩ := hslot
    exact absurd hcalls.symm (by simp)
  | append_singleton calls c ih =>
    obtain ⟨hnone, hsome⟩ := ih
    rw [exec_concat]
    change ((c.apply (exec (.withBounds slots payloads known) calls).buffer).2.waiting.headSlot =
      none → _) ∧ ∀ head, (c.apply
        (exec (.withBounds slots payloads known) calls).buffer).2.waiting.headSlot = some head → _
    by_cases hmoves : c.Moves (exec (.withBounds slots payloads known) calls).buffer
    · rw [(Call.apply_frame _ hmoves).head]
      refine ⟨fun h => (by cases h), ?_⟩
      intro head hhead
      unfold WaitingSlots.see at hhead
      cases hold : (exec (.withBounds slots payloads known) calls).buffer.waiting.headSlot with
      | none =>
        rw [hold] at hhead
        have hslot : c.slot = head := Option.some.inj hhead
        refine ⟨mem_seenSlots_concat.mpr (.inr ⟨hmoves, hslot⟩), ?_⟩
        intro slot hmem
        cases mem_seenSlots_concat.mp hmem with
        | inl hbefore =>
          rw [hnone hold] at hbefore
          exact hbefore.elim
        | inr hlast => exact (hlast.2.symm.trans hslot).le
      | some before =>
        rw [hold] at hhead
        have hmax : max before c.slot = head := Option.some.inj hhead
        obtain ⟨hmem, hupper⟩ := hsome before hold
        refine ⟨mem_seenSlots_concat.mpr ?_, ?_⟩
        · cases le_total before c.slot with
          | inl hle => exact .inr ⟨hmoves, (max_eq_right hle).symm.trans hmax⟩
          | inr hle =>
            rw [← hmax, max_eq_left hle]
            exact .inl hmem
        · intro slot hslot
          cases mem_seenSlots_concat.mp hslot with
          | inl hbefore =>
            have hle := hupper hbefore
            omega
          | inr hlast =>
            have hle := hlast.2
            omega
    · have hsame : seenSlots (.withBounds slots payloads known) (calls ++ [c]) =
          seenSlots (.withBounds slots payloads known) calls := by
        ext slot
        rw [mem_seenSlots_concat]
        exact ⟨fun h => h.resolve_right (fun hlast => hmoves hlast.1), .inl⟩
      rw [(Call.apply_still _ hmoves).head, hsame]
      exact ⟨hnone, hsome⟩

/-- The bounds are those the buffer was built with; what waits is within them and pending. -/
theorem exec_kept (slots payloads known : Nat) (calls : List (Call T)) :
    (exec (.withBounds slots payloads known) calls).buffer.Windowed ∧
      (exec (.withBounds slots payloads known) calls).buffer.Awaiting ∧
      (exec (.withBounds slots payloads known) calls).buffer.waiting.maxPendingSlots = slots ∧
      (exec (.withBounds slots payloads known) calls).buffer.waiting.maxPendingPayloads =
        payloads := by
  induction calls using List.reverseRecOn with
  | nil => exact ⟨.withBounds _ _ _, fun _ _ h => (by cases h), rfl, rfl⟩
  | append_singleton calls c ih =>
    obtain ⟨hwindowed, hawaiting, hslots, hpayloads⟩ := ih
    rw [exec_concat]
    refine ⟨Call.apply_windowed hwindowed c, Call.apply_awaiting hawaiting c, ?_⟩
    by_cases hmoves : c.Moves (exec (.withBounds slots payloads known) calls).buffer
    · have hframe := Call.apply_frame _ hmoves
      exact ⟨hframe.slots.trans hslots, hframe.payloads.trans hpayloads⟩
    · have hframe := Call.apply_still _ hmoves
      exact ⟨hframe.slots.trans hslots, hframe.payloads.trans hpayloads⟩

/-- The buffer keeps its bounds and its bookkeeping after any calls, and no call has a fault. -/
theorem exec_bookkeeping (slots payloads known : Nat) (calls : List (Call T)) :
    let b := (exec (.withBounds slots payloads known) calls).buffer
    (∀ e ∈ b.waiting.pending.entries, e.2 ≠ []) ∧
    b.waiting.count = (b.waiting.pending.entries.flatMap Prod.snd).length ∧
    b.waiting.count ≤ payloads ∧
    (∀ s ∈ b.pendingSlots, ∃ head, b.waiting.headSlot = some head ∧ s ≤ head ∧
      head - s ≤ slots) ∧
    (b.waiting.headSlot = none → seenSlots (.withBounds slots payloads known) calls = ∅) ∧
    (∀ head, b.waiting.headSlot = some head →
      IsGreatest (seenSlots (.withBounds slots payloads known) calls) head) ∧
    (∀ s, ∀ held ∈ b.waitingFor s, b.known.settlement s held.bank = .pending) ∧
    ∀ c : Call T, c.strictApply b = some (c.apply b) ∧
      ∀ head, b.waiting.headSlot = some head →
        ∃ head', (c.apply b).2.waiting.headSlot = some head' ∧ head ≤ head' := by
  intro b
  obtain ⟨hwindowed, hawaiting, hslots, hpayloads⟩ :=
    exec_kept (T := T) slots payloads known calls
  obtain ⟨hnone, hgreatest⟩ := exec_head (T := T) slots payloads known calls
  refine ⟨hwindowed.books.nonempty, hwindowed.books.count, ?_, ?_, hnone, hgreatest, hawaiting, ?_⟩
  · have hbounds := hwindowed.bounds
    unfold WaitingSlots.exceededBound at hbounds
    split_ifs at hbounds with _ hcount
    rw [hpayloads] at hcount
    exact not_lt.mp hcount
  · intro s hs
    obtain ⟨head, hhead, hle, hwindow⟩ :=
      WaitingSlots.inWindow_of_pending hwindowed.bounds hs (hwindowed.pending s hs)
    rw [hslots] at hwindow
    exact ⟨head, hhead, hle, by omega⟩
  · intro c
    exact ⟨Call.strictApply_eq hwindowed.books c, fun head h => Call.apply_head b c h⟩

end BufferRun

end YogSothoth.Grpc
