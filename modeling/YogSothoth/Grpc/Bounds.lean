import YogSothoth.Grpc.Accounting

namespace YogSothoth.Grpc

variable {T : Type*}

namespace WaitingSlots

/-- How many payloads the two bounds have evicted. -/
def boundEvictions (w : WaitingSlots T) : Nat :=
  w.metrics.evicted .slotBound + w.metrics.evicted .payloadBound

theorem recordEvicted_bound (m : Metrics T) (n : Nat) (bound : Bound) (gone : List T) :
    (m.recordEvicted n bound.reason gone).evicted .slotBound +
        (m.recordEvicted n bound.reason gone).evicted .payloadBound =
      m.evicted .slotBound + m.evicted .payloadBound + n := by
  cases bound <;> simp [Metrics.recordEvicted, Bound.reason, Function.update] <;> omega

theorem victim_mem {w : WaitingSlots T} {bound : Bound} {slot : Nat}
    (h : w.victim bound = some slot) : ∃ v, (slot, v) ∈ w.pending.entries := by
  cases bound with
  | slots =>
    obtain ⟨e, he, rfl⟩ := Option.map_eq_some_iff.mp h
    exact ⟨e.2, List.mem_of_head? he⟩
  | payloads =>
    obtain ⟨e, he, rfl⟩ := Option.map_eq_some_iff.mp h
    exact ⟨e.2, List.mem_of_getLast? he⟩

/-- A victim has something waiting, so its eviction is counted. -/
theorem evict_victim {w : WaitingSlots T} (hw : w.Books) {bound : Bound} {slot : Nat}
    (h : w.victim bound = some slot) :
    w.boundEvictions < (w.evict slot bound.reason).boundEvictions := by
  obtain ⟨v, hv⟩ := victim_mem h
  have htake : (w.take slot).1 = v := by
    simp [take, OrdMap.getD, OrdMap.get?_eq_some.mpr hv]
  have hne : v ≠ [] := hw.nonempty _ hv
  rw [evict_eq, htake, if_neg hne]
  unfold boundEvictions
  rw [recordEvicted_bound]
  have := List.length_pos_iff.mpr hne
  omega

theorem enforceLoop_le (n : Nat) {w : WaitingSlots T} (hw : w.Books) :
    w.boundEvictions ≤ (enforceLoop n w).boundEvictions := by
  induction n generalizing w with
  | zero => exact le_refl _
  | succ n ih =>
    unfold enforceLoop
    split
    · exact le_refl _
    · split
      · exact le_refl _
      · next hv => exact (evict_victim hw hv).le.trans (ih (hw.evict _ _))

/-- The loop that evicts nothing changes nothing. -/
theorem enforceLoop_quiet (n : Nat) {w : WaitingSlots T} (hw : w.Books)
    (h : (enforceLoop n w).boundEvictions = w.boundEvictions) : enforceLoop n w = w := by
  cases n with
  | zero => rfl
  | succ n =>
    unfold enforceLoop at h ⊢
    cases hb : w.exceededBound with
    | none => rfl
    | some bound =>
      simp only [hb] at h ⊢
      cases hv : w.victim bound with
      | none => rfl
      | some slot =>
        simp only [hv] at h
        have hlt := evict_victim hw hv
        have hle := enforceLoop_le n (hw.evict slot bound.reason)
        omega

theorem enforceBounds_quiet {w : WaitingSlots T} (hw : w.Books)
    (h : w.enforceBounds.boundEvictions = w.boundEvictions) : w.enforceBounds.pending = w.pending := by
  have hq := enforceLoop_quiet w.pending.size
    (w := { w with metrics := w.metrics.recordPeaks w.count w.oldestLag })
    ⟨hw.count, hw.nonempty, hw.metrics.recordPeaks _ _⟩ h
  rw [enforceBounds, hq]

theorem push_quiet {w : WaitingSlots T} (hw : w.Books) {slot : Nat} {payload : T}
    (h : (w.push slot payload).boundEvictions = w.boundEvictions) :
    (w.push slot payload).pending =
      w.pending.insert slot (w.pending.getD slot [] ++ [payload]) :=
  enforceBounds_quiet (hw.pushed slot payload) h

theorem release_quiet {w : WaitingSlots T} (hw : w.Books) {slot : Nat}
    (h : (w.release slot).2.boundEvictions = w.boundEvictions) :
    (w.release slot).2.pending = w.pending.erase slot :=
  enforceBounds_quiet ((hw.see slot).take slot) h

theorem observe_quiet {w : WaitingSlots T} (hw : w.Books) {slot : Nat}
    (h : (w.observe slot).boundEvictions = w.boundEvictions) :
    (w.observe slot).pending = w.pending :=
  enforceBounds_quiet (hw.see slot) h

theorem dropLosing_boundEvictions (w : WaitingSlots T) (slot : Nat) (isLosing : T → Bool) :
    (w.dropLosing slot isLosing).boundEvictions = w.boundEvictions := by
  unfold boundEvictions
  cases h : w.pending.get? slot with
  | none => rw [dropLosing_none h]
  | some waiting =>
    rw [(dropLosing_some h isLosing).2.2.1]
    split_ifs <;> rfl

/-- What `drop_losing` leaves of each slot. -/
theorem dropLosing_getD (w : WaitingSlots T) (slot : Nat) (isLosing : T → Bool) (s : Nat) :
    (w.dropLosing slot isLosing).pending.getD s [] =
      if s = slot then (w.pending.getD slot []).filter (fun t => !isLosing t)
      else w.pending.getD s [] := by
  cases h : w.pending.get? slot with
  | none =>
    rw [dropLosing_none h]
    split_ifs with hs
    · simp [OrdMap.getD, hs, h]
    · rfl
  | some waiting =>
    rw [(dropLosing_some h isLosing).2.2.2]
    simp only [OrdMap.getD, h, Option.getD_some]
    by_cases hs : s = slot
    · subst hs
      rw [if_pos rfl]
      split_ifs with hnil
      · simp [OrdMap.get?_erase, hnil]
      · simp
    · split_ifs with hnil
      · simp [OrdMap.get?_erase, hs]
      · simp [OrdMap.get?_insert, hs]

section Keys

variable (w : WaitingSlots T)

theorem evict_keys (slot : Nat) (reason : EvictionReason) :
    (w.evict slot reason).pending.keys ⊆ w.pending.keys := by
  rw [evict_eq]
  split_ifs <;> exact OrdMap.keys_filter_subset _ _

theorem enforceLoop_keys (n : Nat) : (enforceLoop n w).pending.keys ⊆ w.pending.keys := by
  induction n generalizing w with
  | zero => exact List.Subset.refl _
  | succ n ih =>
    unfold enforceLoop
    split
    · exact List.Subset.refl _
    · split
      · exact List.Subset.refl _
      · exact List.Subset.trans (ih _) (w.evict_keys _ _)

theorem enforceBounds_keys : w.enforceBounds.pending.keys ⊆ w.pending.keys :=
  enforceLoop_keys _ _

theorem push_keys {slot : Nat} {payload : T} {s : Nat} (h : s ∈ (w.push slot payload).pending.keys) :
    s = slot ∨ s ∈ w.pending.keys :=
  OrdMap.mem_keys_insert.mp (enforceBounds_keys _ h)

theorem release_keys (slot : Nat) : (w.release slot).2.pending.keys ⊆ w.pending.keys :=
  List.Subset.trans (enforceBounds_keys _) (OrdMap.keys_filter_subset _ _)

theorem observe_keys (slot : Nat) : (w.observe slot).pending.keys ⊆ w.pending.keys :=
  enforceBounds_keys _

theorem giveUp_keys (slot : Nat) : (w.giveUp slot).pending.keys ⊆ w.pending.keys :=
  List.Subset.trans (enforceBounds_keys _) (evict_keys _ _ _)

theorem dropLosing_keys (slot : Nat) (isLosing : T → Bool) :
    (w.dropLosing slot isLosing).pending.keys ⊆ w.pending.keys := by
  cases h : w.pending.get? slot with
  | none =>
    rw [dropLosing_none h]
    exact List.Subset.refl _
  | some waiting =>
    rw [(dropLosing_some h isLosing).2.2.2]
    split_ifs
    · exact OrdMap.keys_filter_subset _ _
    · intro s hs
      rcases OrdMap.mem_keys_insert.mp hs with rfl | hs
      · exact OrdMap.mem_keys.mpr ⟨waiting, h⟩
      · exact hs

end Keys

end WaitingSlots

namespace SlotTimestampBuffer

/-- The slots something waits for. -/
def pendingSlots (b : SlotTimestampBuffer T) : List Nat := b.waiting.pending.keys

theorem settle_pendingSlots (b : SlotTimestampBuffer T) (slot : Nat) :
    (b.settle slot).2.pendingSlots ⊆ b.pendingSlots := by
  unfold settle
  split
  · exact WaitingSlots.observe_keys _ _
  · next kept _ =>
    have hdrop := b.waiting.dropLosing_keys slot (fun held => !kept.admits held.bank)
    split
    · exact List.Subset.trans (WaitingSlots.release_keys _ _) hdrop
    · exact List.Subset.trans (WaitingSlots.giveUp_keys _ _) hdrop
    · exact List.Subset.trans (WaitingSlots.observe_keys _ _) hdrop

theorem onPayload_pendingSlots {b : SlotTimestampBuffer T} {slot : Nat} {bank : Bank} {payload : T}
    {s : Nat} (h : s ∈ (b.onPayload slot bank payload).2.pendingSlots) :
    s = slot ∨ s ∈ b.pendingSlots := by
  unfold onPayload at h
  split at h
  · exact Or.inr h
  · exact Or.inr h
  · exact Or.inr h
  · exact WaitingSlots.push_keys _ h

/-- Nothing waits below the oldest pending slot. -/
theorem oldestPendingSlot_le {b : SlotTimestampBuffer T} {oldest : Nat}
    (h : b.oldestPendingSlot = some oldest) :
    oldest ∈ b.pendingSlots ∧ ∀ s ∈ b.pendingSlots, oldest ≤ s := by
  obtain ⟨e, he, rfl⟩ := Option.map_eq_some_iff.mp h
  obtain ⟨hmem, hmin⟩ := OrdMap.first?_some he
  refine ⟨List.mem_map_of_mem hmem, ?_⟩
  intro s hs
  obtain ⟨e', he', rfl⟩ := List.mem_map.mp hs
  exact hmin e' he'

theorem oldestPendingSlot_none {b : SlotTimestampBuffer T} (h : b.oldestPendingSlot = none) :
    b.pendingSlots = [] := by
  have hnone := OrdMap.first?_none.mp (Option.map_eq_none_iff.mp h)
  simp [pendingSlots, OrdMap.keys, hnone]

def boundEvictions (b : SlotTimestampBuffer T) : Nat := b.waiting.boundEvictions

/-- What waits for a slot, in arrival order. -/
def waitingFor (b : SlotTimestampBuffer T) (slot : Nat) : List (Held T) :=
  b.waiting.pending.getD slot []

/-- What `settle` returns and leaves when no bound evicts, by what is known of the slot. -/
theorem settle_quiet {b : SlotTimestampBuffer T} (hb : b.waiting.Books) {slot : Nat}
    (hquiet : (b.settle slot).2.boundEvictions = b.boundEvictions)
    (hup : b.known.time slot ≠ some .givenUp) (s : Nat) :
    (b.settle slot).1 =
      (match b.known.kept slot, b.known.time slot with
      | some kept, some (.at instant) =>
        ((b.waitingFor slot).filter (fun h => kept.admits h.bank)).map (fun h => ⟨h.payload, instant⟩)
      | _, _ => []) ∧
    (b.settle slot).2.waitingFor s =
      (if s = slot then
        match b.known.kept slot, b.known.time slot with
        | none, _ => b.waitingFor slot
        | some kept, none => (b.waitingFor slot).filter (fun h => kept.admits h.bank)
        | some _, some _ => []
      else b.waitingFor s) := by
  unfold settle at hquiet ⊢
  cases hk : b.known.kept slot with
  | none =>
    simp only [hk] at hquiet ⊢
    refine ⟨trivial, ?_⟩
    simp only [waitingFor]
    rw [WaitingSlots.observe_quiet hb hquiet]
    split_ifs with hs
    · rw [hs]
    · rfl
  | some kept =>
    let w := b.waiting.dropLosing slot (fun held => !kept.admits held.bank)
    have hw : w.Books := hb.dropLosing slot _
    have hdrop : w.boundEvictions = b.waiting.boundEvictions :=
      WaitingSlots.dropLosing_boundEvictions _ _ _
    have hget (s : Nat) : w.pending.getD s [] = if s = slot
        then (b.waitingFor slot).filter (fun h => kept.admits h.bank) else b.waitingFor s := by
      have h := b.waiting.dropLosing_getD slot (fun held => !kept.admits held.bank) s
      simp only [Bool.not_not] at h
      exact h
    cases ht : b.known.time slot with
    | none =>
      simp only [hk, ht] at hquiet ⊢
      refine ⟨trivial, ?_⟩
      simp only [waitingFor] at hget ⊢
      rw [WaitingSlots.observe_quiet hw (hquiet.trans hdrop.symm), hget]
    | some outcome =>
      cases outcome with
      | givenUp => exact absurd ht hup
      | «at» instant =>
        simp only [hk, ht] at hquiet ⊢
        constructor
        · have h := hget slot
          rw [if_pos rfl] at h
          rw [← h]
          rfl
        · simp only [waitingFor] at hget ⊢
          rw [WaitingSlots.release_quiet hw (hquiet.trans hdrop.symm)]
          split_ifs with hs
          · simp [OrdMap.getD, OrdMap.get?_erase, hs]
          · have h := hget s
            rw [if_neg hs] at h
            simpa [OrdMap.getD, OrdMap.get?_erase, hs] using h

end SlotTimestampBuffer

end YogSothoth.Grpc
