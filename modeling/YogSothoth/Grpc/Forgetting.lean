import YogSothoth.Framework.OrdTable
import YogSothoth.Grpc.Messages
import YogSothoth.Grpc.Twins

namespace YogSothoth.Grpc

variable {T : Type*}

namespace WaitingSlots

variable {w : WaitingSlots T} {slot : Nat}

/-- A slot the stream has left behind. -/
def Late (w : WaitingSlots T) (slot : Nat) : Prop := w.Seen slot ∧ ¬w.InWindow slot

theorem Late.lt_pending (hlate : w.Late slot) (hbounds : w.exceededBound = none)
    (hseen : ∀ s ∈ w.pending.keys, w.Seen s) : ∀ s ∈ w.pending.keys, slot < s := by
  intro s hs
  obtain ⟨head, hhead, hle, hwindow⟩ := inWindow_of_pending hbounds hs (hseen s hs)
  obtain ⟨head', hhead', hle'⟩ := hlate.1
  have heq : head' = head := Option.some.inj (hhead'.symm.trans hhead)
  by_contra hlt
  exact hlate.2 ⟨head, hhead, heq ▸ hle', by omega⟩

/-- Nothing waits for a late slot. -/
theorem Late.get?_eq (hlate : w.Late slot) (hbounds : w.exceededBound = none)
    (hseen : ∀ s ∈ w.pending.keys, w.Seen s) : w.pending.get? slot = none := by
  apply OrdMap.get?_eq_none.mpr
  intro hs
  exact absurd (hlate.lt_pending hbounds hseen slot hs) (lt_irrefl slot)

theorem take_of_none (h : w.pending.get? slot = none) : w.take slot = ([], w) := by
  have herase : w.pending.erase slot = w.pending := by
    apply OrdMap.ext_get?
    intro k
    rw [OrdMap.get?_erase]
    split_ifs with hk
    · rw [hk, h]
    · rfl
  unfold take
  rw [OrdMap.getD, h, herase]
  rfl

theorem enforceBounds_alike (h : w.exceededBound = none) : Alike w w.enforceBounds :=
  ⟨_, enforceBounds_eq h⟩

theorem release_late (hlate : w.Late slot) (hbounds : w.exceededBound = none)
    (hseen : ∀ s ∈ w.pending.keys, w.Seen s) :
    (w.release slot).1 = [] ∧ Alike w (w.release slot).2 := by
  have htake := take_of_none (hlate.get?_eq hbounds hseen)
  have hrelease : w.release slot = ([], w.enforceBounds) := by
    unfold release
    rw [hlate.1.see_eq, htake]
  rw [hrelease]
  exact ⟨rfl, enforceBounds_alike hbounds⟩

theorem observe_late (hlate : w.Late slot) (hbounds : w.exceededBound = none) :
    Alike w (w.observe slot) := by
  rw [observe, hlate.1.see_eq]
  exact enforceBounds_alike hbounds

theorem giveUp_late (hlate : w.Late slot) (hbounds : w.exceededBound = none)
    (hseen : ∀ s ∈ w.pending.keys, w.Seen s) : Alike w (w.giveUp slot) := by
  have htake := take_of_none (hlate.get?_eq hbounds hseen)
  have hevict : w.evict slot .unresolvable = w := by
    rw [evict_eq, htake]
    rfl
  rw [giveUp, hlate.1.see_eq, hevict]
  exact enforceBounds_alike hbounds

/-- The queue with one payload more, for a slot nothing waits for. -/
def withOne (w : WaitingSlots T) (slot : Nat) (payload : T) (m : Metrics T) : WaitingSlots T :=
  { w with pending := w.pending.insert slot [payload], count := w.count + 1, metrics := m }

theorem withOne_first (hlate : w.Late slot) (hbounds : w.exceededBound = none)
    (hseen : ∀ s ∈ w.pending.keys, w.Seen s) (payload : T) (m : Metrics T) :
    (w.withOne slot payload m).pending.first? = some (slot, [payload]) := by
  apply OrdMap.first?_eq_some (OrdMap.mem_insert.mpr (.inl rfl))
  intro e he
  cases OrdMap.mem_insert.mp he with
  | inl he => exact (congrArg Prod.fst he).ge
  | inr he => exact (hlate.lt_pending hbounds hseen e.1 (List.mem_map_of_mem he.1)).le

theorem withOne_exceededBound (hlate : w.Late slot) (hbounds : w.exceededBound = none)
    (hseen : ∀ s ∈ w.pending.keys, w.Seen s) (payload : T) (m : Metrics T) :
    (w.withOne slot payload m).exceededBound = some .slots := by
  obtain ⟨head, hhead, hle⟩ := hlate.1
  have holdest : (w.withOne slot payload m).oldest = some slot := by
    rw [oldest, withOne_first hlate hbounds hseen payload m]
    rfl
  have hhead' : (w.withOne slot payload m).headSlot = some head := hhead
  have hlag : (w.withOne slot payload m).oldestLag = head - slot := by
    rw [oldestLag, holdest, hhead']
  have hout : (w.withOne slot payload m).maxPendingSlots < head - slot := by
    change w.maxPendingSlots < head - slot
    by_contra hin
    exact hlate.2 ⟨head, hhead, hle, by omega⟩
  rw [exceededBound, oldestIsOutOfWindow, hlag, if_pos (decide_eq_true hout)]

theorem withOne_evict (h : w.pending.get? slot = none) (payload : T) (m : Metrics T)
    (reason : EvictionReason) : Alike w ((w.withOne slot payload m).evict slot reason) := by
  have herase : (w.pending.insert slot [payload]).erase slot = w.pending := by
    apply OrdMap.ext_get?
    intro k
    rw [OrdMap.get?_erase, OrdMap.get?_insert]
    split_ifs with hk
    · rw [hk, h]
    · rfl
  have htake : (w.withOne slot payload m).take slot = ([payload], { w with metrics := m }) := by
    simp only [take, withOne, OrdMap.getD, OrdMap.get?_insert_self, herase]
    rfl
  rw [evict_eq, htake]
  exact ⟨_, rfl⟩

/-- A payload that comes late is the oldest, and the slot bound takes it out at once. -/
theorem push_late (hlate : w.Late slot) (hbounds : w.exceededBound = none)
    (hseen : ∀ s ∈ w.pending.keys, w.Seen s) (payload : T) : Alike w (w.push slot payload) := by
  have hnone := hlate.get?_eq hbounds hseen
  have hpushed : w.pushed slot payload = w.withOne slot payload w.metrics := by
    unfold pushed
    rw [hlate.1.see_eq, OrdMap.getD, hnone]
    rfl
  obtain ⟨m, hm⟩ : ∃ m, w.push slot payload =
      enforceLoop (w.withOne slot payload w.metrics).pending.size (w.withOne slot payload m) := by
    rw [push_eq, hpushed]
    exact ⟨_, rfl⟩
  have hevict := withOne_evict hnone payload m .slotBound
  have hrest : ((w.withOne slot payload m).evict slot .slotBound).exceededBound = none := by
    rw [hevict.bounds, hbounds]
  have hvictim : (w.withOne slot payload m).victim .slots = some slot := by
    rw [victim, withOne_first hlate hbounds hseen payload m]
    rfl
  rw [hm]
  cases hsize : (w.withOne slot payload w.metrics).pending.size with
  | zero =>
    have hfirst := withOne_first hlate hbounds hseen payload w.metrics
    rw [OrdMap.first?_none.mpr (List.length_eq_zero_iff.mp hsize)] at hfirst
    cases hfirst
  | succ n =>
    rw [enforceLoop, withOne_exceededBound hlate hbounds hseen payload m]
    simp only [hvictim]
    cases n with
    | zero => exact hevict
    | succ n =>
      rw [Bound.reason, enforceLoop, hrest]
      exact hevict

end WaitingSlots

namespace SlotTimestampBuffer

/-- Within both bounds, with nothing waiting and nothing known ahead of the head. -/
structure Windowed (b : SlotTimestampBuffer T) : Prop where
  books : b.waiting.Books
  bounds : b.waiting.exceededBound = none
  pending : ∀ s ∈ b.waiting.pending.keys, b.waiting.Seen s
  known : ∀ s ∈ b.known.facts.keys, b.waiting.Seen s

theorem Windowed.withBounds (slots payloads known : Nat) :
    (withBounds slots payloads known : SlotTimestampBuffer T).Windowed := by
  have hbooks := WaitingSlots.Books.new (T := Held T) slots payloads
  refine ⟨hbooks, WaitingSlots.exceededBound_of_empty hbooks rfl, ?_, ?_⟩
  · intro s hs
    cases hs
  · intro s hs
    cases hs

theorem settle_known (b : SlotTimestampBuffer T) (slot : Nat) :
    (b.settle slot).2.known = b.known := by
  unfold settle
  split
  · rfl
  · simp only
    split <;> rfl

/-- To settle a slot is to see it. -/
theorem settle_frame (b : SlotTimestampBuffer T) (slot : Nat) :
    (b.waiting.see slot).SameFrame (b.settle slot).2.waiting := by
  unfold settle
  cases b.known.kept slot with
  | none => exact WaitingSlots.enforceBounds_frame _
  | some kept =>
    have hdrop := (b.waiting.dropLosing_frame slot (fun held => !kept.admits held.bank)).see slot
    simp only
    split
    · exact hdrop.trans (WaitingSlots.release_frame _ _)
    · exact hdrop.trans (WaitingSlots.giveUp_frame _ _)
    · exact hdrop.trans (WaitingSlots.enforceBounds_frame _)

theorem settle_books_bounds {b : SlotTimestampBuffer T} (h : b.waiting.Books) (slot : Nat) :
    (b.settle slot).2.waiting.Books ∧ (b.settle slot).2.waiting.exceededBound = none := by
  refine ⟨(settle_ledger b h slot).1, ?_⟩
  unfold settle
  cases b.known.kept slot with
  | none => exact WaitingSlots.enforceBounds_bounds (h.see slot)
  | some kept =>
    have hdrop := h.dropLosing slot (fun held => !kept.admits held.bank)
    simp only
    split
    · exact WaitingSlots.enforceBounds_bounds ((hdrop.see slot).take slot)
    · exact WaitingSlots.enforceBounds_bounds ((hdrop.see slot).evict slot _)
    · exact WaitingSlots.enforceBounds_bounds (hdrop.see slot)

/-- What is learnt of a slot, and settled, leaves the buffer within its bounds. -/
theorem Windowed.settle {b : SlotTimestampBuffer T} (h : b.Windowed) {known : KnownSlots}
    {slot : Nat} (hknown : ∀ s ∈ known.facts.keys, s = slot ∨ s ∈ b.known.facts.keys) :
    (({ b with known := known } : SlotTimestampBuffer T).settle slot).2.Windowed := by
  have hframe := settle_frame { b with known := known } slot
  obtain ⟨hbooks, hbounds⟩ := settle_books_bounds (b := { b with known := known }) h.books slot
  refine ⟨hbooks, hbounds, ?_, ?_⟩
  · intro s hs
    have hold := settle_pendingSlots { b with known := known } slot hs
    exact hframe.seen.mpr ((h.pending s hold).see slot)
  · intro s hs
    rw [settle_known] at hs
    apply hframe.seen.mpr
    cases hknown s hs with
    | inl hslot => exact hslot ▸ b.waiting.seen_see slot
    | inr hold => exact (h.known s hold).see slot

theorem Windowed.onPayload {b : SlotTimestampBuffer T} (h : b.Windowed) (slot : Nat) (bank : Bank)
    (payload : T) : (b.onPayload slot bank payload).2.Windowed := by
  have hledger := (onPayload_ledger b h.books slot bank payload).1
  unfold SlotTimestampBuffer.onPayload at hledger ⊢
  split at hledger
  · exact h
  · exact ⟨hledger, h.bounds, h.pending, h.known⟩
  · exact ⟨hledger, h.bounds, h.pending, h.known⟩
  · have hframe := b.waiting.push_frame slot ⟨bank, payload⟩
    refine ⟨hledger, WaitingSlots.enforceBounds_bounds (h.books.pushed slot ⟨bank, payload⟩),
      ?_, ?_⟩
    · intro s hs
      apply hframe.seen.mpr
      cases WaitingSlots.push_keys _ hs with
      | inl hslot => exact hslot ▸ b.waiting.seen_see slot
      | inr hold => exact (h.pending s hold).see slot
    · intro s hs
      exact hframe.seen.mpr ((h.known s hs).see slot)

/-- A late slot settled returns nothing and leaves the queue. -/
theorem settle_late {b : SlotTimestampBuffer T} (h : b.Windowed) (known : KnownSlots) {slot : Nat}
    (hlate : b.waiting.Late slot) :
    (({ b with known := known } : SlotTimestampBuffer T).settle slot).1 = [] ∧
      b.waiting.Alike (({ b with known := known } : SlotTimestampBuffer T).settle slot).2.waiting := by
  have hdrop := WaitingSlots.dropLosing_none (hlate.get?_eq h.bounds h.pending)
  unfold SlotTimestampBuffer.settle
  cases known.kept slot with
  | none => exact ⟨rfl, WaitingSlots.observe_late hlate h.bounds⟩
  | some kept =>
    simp only [hdrop]
    obtain ⟨hreleased, hrelease⟩ := WaitingSlots.release_late hlate h.bounds h.pending
    split
    · exact ⟨by rw [hreleased, List.map_nil], hrelease⟩
    · exact ⟨rfl, WaitingSlots.giveUp_late hlate h.bounds h.pending⟩
    · exact ⟨rfl, WaitingSlots.observe_late hlate h.bounds⟩

theorem onPayload_late {b : SlotTimestampBuffer T} (h : b.Windowed) {slot : Nat}
    (hlate : b.waiting.Late slot) (bank : Bank) (payload : T) :
    b.waiting.Alike (b.onPayload slot bank payload).2.waiting := by
  unfold SlotTimestampBuffer.onPayload
  split
  · exact WaitingSlots.Alike.refl _
  · exact ⟨_, rfl⟩
  · exact ⟨_, rfl⟩
  · exact WaitingSlots.push_late hlate h.bounds h.pending ⟨bank, payload⟩

end SlotTimestampBuffer

end YogSothoth.Grpc
