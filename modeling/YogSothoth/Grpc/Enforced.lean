import YogSothoth.Grpc.Bounds

namespace YogSothoth.Grpc

variable {T : Type*}

namespace WaitingSlots

/-- A slot the stream has reached. -/
def Seen (w : WaitingSlots T) (slot : Nat) : Prop := ∃ head, w.headSlot = some head ∧ slot ≤ head

/-- A slot no further behind the head than one may wait. -/
def InWindow (w : WaitingSlots T) (slot : Nat) : Prop :=
  ∃ head, w.headSlot = some head ∧ slot ≤ head ∧ head ≤ slot + w.maxPendingSlots

/-- The bounds and the head of one queue are those of another. -/
structure SameFrame (w v : WaitingSlots T) : Prop where
  head : v.headSlot = w.headSlot
  slots : v.maxPendingSlots = w.maxPendingSlots
  payloads : v.maxPendingPayloads = w.maxPendingPayloads

theorem SameFrame.trans {w v u : WaitingSlots T} (h : SameFrame w v) (h' : SameFrame v u) :
    SameFrame w u :=
  ⟨h'.head.trans h.head, h'.slots.trans h.slots, h'.payloads.trans h.payloads⟩

theorem SameFrame.seen {w v : WaitingSlots T} (h : SameFrame w v) {slot : Nat} :
    v.Seen slot ↔ w.Seen slot := by
  rw [Seen, Seen, h.head]

theorem SameFrame.inWindow {w v : WaitingSlots T} (h : SameFrame w v) {slot : Nat} :
    v.InWindow slot ↔ w.InWindow slot := by
  rw [InWindow, InWindow, h.head, h.slots]

theorem evict_frame (w : WaitingSlots T) (slot : Nat) (reason : EvictionReason) :
    SameFrame w (w.evict slot reason) := by
  rw [evict_eq]
  split_ifs <;> exact ⟨rfl, rfl, rfl⟩

theorem enforceLoop_frame (n : Nat) (w : WaitingSlots T) : SameFrame w (enforceLoop n w) := by
  induction n generalizing w with
  | zero => exact ⟨rfl, rfl, rfl⟩
  | succ n ih =>
    unfold enforceLoop
    split
    · exact ⟨rfl, rfl, rfl⟩
    · split
      · exact ⟨rfl, rfl, rfl⟩
      · exact (w.evict_frame _ _).trans (ih _)

theorem enforceBounds_frame (w : WaitingSlots T) : SameFrame w w.enforceBounds := by
  have h := enforceLoop_frame w.pending.size
    { w with metrics := w.metrics.recordPeaks w.count w.oldestLag }
  exact ⟨h.head, h.slots, h.payloads⟩

theorem dropLosing_frame (w : WaitingSlots T) (slot : Nat) (isLosing : T → Bool) :
    SameFrame w (w.dropLosing slot isLosing) := by
  unfold dropLosing
  split
  · exact ⟨rfl, rfl, rfl⟩
  · simp only
    split <;> exact ⟨rfl, rfl, rfl⟩

theorem push_frame (w : WaitingSlots T) (slot : Nat) (payload : T) :
    SameFrame (w.see slot) (w.push slot payload) := by
  have h := (w.pushed slot payload).enforceBounds_frame
  exact ⟨h.head, h.slots, h.payloads⟩

theorem release_frame (w : WaitingSlots T) (slot : Nat) :
    SameFrame (w.see slot) (w.release slot).2 := by
  have h := ((w.see slot).take slot).2.enforceBounds_frame
  exact ⟨h.head, h.slots, h.payloads⟩

theorem giveUp_frame (w : WaitingSlots T) (slot : Nat) :
    SameFrame (w.see slot) (w.giveUp slot) :=
  (evict_frame _ _ _).trans (enforceBounds_frame _)

theorem SameFrame.see {w v : WaitingSlots T} (h : SameFrame w v) (slot : Nat) :
    SameFrame (w.see slot) (v.see slot) := by
  refine ⟨?_, h.slots, h.payloads⟩
  unfold WaitingSlots.see
  rw [h.head]

theorem seen_see (w : WaitingSlots T) (slot : Nat) : (w.see slot).Seen slot := by
  cases hhead : w.headSlot with
  | none => exact ⟨slot, by rw [see, hhead]; rfl, le_refl slot⟩
  | some head => exact ⟨max head slot, by rw [see, hhead]; rfl, Nat.le_max_right head slot⟩

theorem Seen.see {w : WaitingSlots T} {s : Nat} (h : w.Seen s) (slot : Nat) :
    (w.see slot).Seen s := by
  obtain ⟨head, hhead, hle⟩ := h
  exact ⟨max head slot, by rw [WaitingSlots.see, hhead]; rfl, hle.trans (Nat.le_max_left head slot)⟩

/-- A slot seen before does not move the head. -/
theorem Seen.see_eq {w : WaitingSlots T} {slot : Nat} (h : w.Seen slot) : w.see slot = w := by
  obtain ⟨head, hhead, hle⟩ := h
  have hmax : some (max head slot) = w.headSlot := by rw [hhead, Nat.max_eq_left hle]
  rw [WaitingSlots.see, hhead]
  change { w with headSlot := some (max head slot) } = w
  rw [hmax]

/-- A slot in the window after its call was in the window before, or ahead of the head. -/
theorem InWindow.of_see {w : WaitingSlots T} {slot s : Nat} (h : (w.see slot).InWindow s)
    (hs : w.Seen s) : w.InWindow s := by
  obtain ⟨head, hhead, hle⟩ := hs
  obtain ⟨head', hhead', -, hwindow⟩ := h
  have heq : some (max head slot) = some head' := by
    rw [← hhead', see, hhead]
    rfl
  have hmax : max head slot = head' := Option.some.inj heq
  refine ⟨head, hhead, hle, ?_⟩
  have hwindow : head' ≤ s + w.maxPendingSlots := hwindow
  omega

theorem exceededBound_of_empty {w : WaitingSlots T} (hw : w.Books) (h : w.pending.entries = []) :
    w.exceededBound = none := by
  have holdest : w.oldest = none := by
    rw [oldest, OrdMap.first?_none.mpr h]
    rfl
  have hlag : w.oldestLag = 0 := by rw [oldestLag, holdest]
  have hcount : w.count = 0 := by
    rw [hw.count, OrdMap.flat, h]
    rfl
  have hslots : w.oldestIsOutOfWindow = false := by simp [oldestIsOutOfWindow, hlag]
  simp [exceededBound, hslots, hcount]

theorem victim_eq_none {w : WaitingSlots T} {bound : Bound} (h : w.victim bound = none) :
    w.pending.entries = [] := by
  cases bound with
  | slots => exact OrdMap.first?_none.mp (Option.map_eq_none_iff.mp h)
  | payloads => exact OrdMap.last?_none.mp (Option.map_eq_none_iff.mp h)

theorem evict_pending (w : WaitingSlots T) (slot : Nat) (reason : EvictionReason) :
    (w.evict slot reason).pending = w.pending.erase slot := by
  rw [evict_eq]
  split_ifs <;> rfl

/-- As many turns as there are pending slots leave both bounds kept. -/
theorem enforceLoop_bounds (n : Nat) {w : WaitingSlots T} (hw : w.Books) (hn : w.pending.size ≤ n) :
    (enforceLoop n w).exceededBound = none := by
  induction n generalizing w with
  | zero => exact exceededBound_of_empty hw (List.length_eq_zero_iff.mp (Nat.le_zero.mp hn))
  | succ n ih =>
    unfold enforceLoop
    cases hbound : w.exceededBound with
    | none => exact hbound
    | some bound =>
      cases hvictim : w.victim bound with
      | none =>
        rw [exceededBound_of_empty hw (victim_eq_none hvictim)] at hbound
        cases hbound
      | some slot =>
        obtain ⟨v, hv⟩ := victim_mem hvictim
        have hlt := OrdMap.size_erase_lt (List.mem_map_of_mem hv)
        have hsize : (w.evict slot bound.reason).pending.size ≤ n := by
          rw [evict_pending]
          exact Nat.le_of_lt_succ (lt_of_lt_of_le hlt hn)
        have hrest := ih (hw.evict slot bound.reason) hsize
        simp only [hvictim]
        exact hrest

theorem enforceBounds_bounds {w : WaitingSlots T} (hw : w.Books) :
    w.enforceBounds.exceededBound = none :=
  enforceLoop_bounds _ ⟨hw.count, hw.nonempty, hw.metrics.recordPeaks _ _⟩ (le_refl _)

/-- Nothing is evicted while both bounds are kept. -/
theorem enforceBounds_eq {w : WaitingSlots T} (h : w.exceededBound = none) :
    w.enforceBounds = { w with metrics := w.metrics.recordPeaks w.count w.oldestLag } := by
  unfold enforceBounds
  cases w.pending.size with
  | zero => rfl
  | succ n =>
    have hbound : ({ w with metrics := w.metrics.recordPeaks w.count w.oldestLag } :
        WaitingSlots T).exceededBound = none := h
    rw [enforceLoop, hbound]

/-- Within both bounds, what waits is in the window. -/
theorem inWindow_of_pending {w : WaitingSlots T} (h : w.exceededBound = none) {s : Nat}
    (hs : s ∈ w.pending.keys) (hseen : w.Seen s) : w.InWindow s := by
  obtain ⟨head, hhead, hle⟩ := hseen
  refine ⟨head, hhead, hle, ?_⟩
  have hwindow : w.oldestIsOutOfWindow = false := by
    by_contra hout
    rw [exceededBound, if_pos (Bool.of_not_eq_false hout)] at h
    cases h
  cases holdest : w.oldest with
  | none =>
    obtain ⟨e, he, -⟩ := List.mem_map.mp hs
    rw [OrdMap.first?_none.mp (Option.map_eq_none_iff.mp holdest)] at he
    cases he
  | some oldest =>
    obtain ⟨e, hfirst, heq⟩ := Option.map_eq_some_iff.mp holdest
    obtain ⟨e', he', hes⟩ := List.mem_map.mp hs
    have hleast := (OrdMap.first?_some hfirst).2 e' he'
    have hlag : w.oldestLag = head - oldest := by rw [oldestLag, holdest, hhead]
    have hbound : ¬w.maxPendingSlots < head - oldest := by
      rw [← hlag]
      exact of_decide_eq_false hwindow
    rw [hes] at hleast
    change e.1 = oldest at heq
    omega

end WaitingSlots

end YogSothoth.Grpc
