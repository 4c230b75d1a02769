import YogSothoth.Grpc.Bounds
import YogSothoth.Grpc.Session

namespace YogSothoth.Grpc

variable {T : Type*}

namespace Update

/-- The slot of a transaction the session routes. -/
def transactionSlot : Update T → Option Nat
  | .transaction filters slot _ _ => (protocolOf filters).map (fun _ => slot.toNat)
  | _ => none

/-- The slot of a block-meta, with its block time or without. -/
def metaSlot : Update T → Option Nat
  | .blockMeta slot _ _ => some slot.toNat
  | _ => none

/-- The slot of a block-meta with a block time, and that time. -/
def timedMeta : Update T → Option (Nat × Instant)
  | .blockMeta slot _ seconds => (blockTime seconds).map (fun instant => (slot.toNat, instant))
  | _ => none

theorem transactionSlot_lt {u : Update T} {s : Nat} (h : u.transactionSlot = some s) : s < 2 ^ 64 := by
  cases u with
  | transaction filters slot bankId body =>
    obtain ⟨_, _, rfl⟩ := Option.map_eq_some_iff.mp h
    exact slot.toNat_lt
  | _ => cases h

theorem metaSlot_lt {u : Update T} {s : Nat} (h : u.metaSlot = some s) : s < 2 ^ 64 := by
  cases u with
  | blockMeta slot bankId seconds =>
    rw [← Option.some.inj h]
    exact slot.toNat_lt
  | _ => cases h

theorem timedMeta_slot {u : Update T} {e : Nat × Instant} (h : u.timedMeta = some e) :
    u.metaSlot = some e.1 := by
  cases u with
  | blockMeta slot bankId seconds =>
    obtain ⟨_, _, rfl⟩ := Option.map_eq_some_iff.mp h
    rfl
  | _ => cases h

end Update

/-- The slots of the transactions that arrived. -/
def transactionSlots (arrivals : List (Arrival T)) : List Nat :=
  arrivals.filterMap (fun a => a.update.transactionSlot)

def metaSlots (arrivals : List (Arrival T)) : List Nat :=
  arrivals.filterMap (fun a => a.update.metaSlot)

def timedMetas (arrivals : List (Arrival T)) : List (Nat × Instant) :=
  arrivals.filterMap (fun a => a.update.timedMeta)

/-- What a session's progress holds, against the arrivals it comes from. -/
structure SlotProgress.From (p : SlotProgress T) (arrivals : List (Arrival T)) : Prop where
  pending : ∀ s ∈ p.buffer.pendingSlots, s ∈ transactionSlots arrivals
  highest : ∀ h, p.highestMetaSlot = some h → h ∈ metaSlots arrivals
  below : ∀ m ∈ metaSlots arrivals, ∃ h, p.highestMetaSlot = some h ∧ m ≤ h

namespace SlotProgress

theorem onBlockMeta_pendingSlots (p : SlotProgress T) (slot bankId : UInt64) (seconds : Option Int) :
    (p.onBlockMeta slot bankId seconds).2.buffer.pendingSlots ⊆ p.buffer.pendingSlots := by
  unfold onBlockMeta
  cases blockTime seconds <;> exact SlotTimestampBuffer.settle_pendingSlots _ _

theorem onSlotStatus_pendingSlots (p : SlotProgress T) (slot : UInt64) (status : SlotStatus)
    (bankId : Option UInt64) :
    (p.onSlotStatus slot status bankId).2.buffer.pendingSlots ⊆ p.buffer.pendingSlots := by
  unfold onSlotStatus
  split_ifs
  · exact SlotTimestampBuffer.settle_pendingSlots _ _
  · exact List.Subset.refl _

theorem onSlotStatus_highest (p : SlotProgress T) (slot : UInt64) (status : SlotStatus)
    (bankId : Option UInt64) :
    (p.onSlotStatus slot status bankId).2.highestMetaSlot = p.highestMetaSlot := by
  unfold onSlotStatus
  split_ifs <;> rfl

end SlotProgress

namespace StreamSession

theorem handle_pendingSlots {s : StreamSession T} {deliver : Nat → SessionState} {u : Update T} {x : Nat}
    (h : x ∈ (s.handle deliver u).session.slots.buffer.pendingSlots) :
    u.transactionSlot = some x ∨ x ∈ s.slots.buffer.pendingSlots := by
  cases u with
  | transaction filters slot bankId body =>
    unfold handle at h
    cases hp : protocolOf filters with
    | none =>
      simp only [hp] at h
      exact Or.inr h
    | some protocol =>
      simp only [hp] at h
      rcases SlotTimestampBuffer.onPayload_pendingSlots h with rfl | h
      · exact Or.inl (by simp [Update.transactionSlot, hp])
      · exact Or.inr h
  | blockMeta slot bankId seconds => exact Or.inr (s.slots.onBlockMeta_pendingSlots slot bankId seconds h)
  | slotStatus slot status bankId => exact Or.inr (s.slots.onSlotStatus_pendingSlots slot status bankId h)
  | ping => exact Or.inr h
  | pong => exact Or.inr h
  | other => exact Or.inr h

theorem handle_highest (s : StreamSession T) (deliver : Nat → SessionState) (u : Update T) :
    (s.handle deliver u).session.slots.highestMetaSlot =
      (match u.metaSlot with
      | some slot => some (s.slots.highestMetaSlot.elim slot (fun seen => max seen slot))
      | none => s.slots.highestMetaSlot) := by
  cases u with
  | transaction filters slot bankId body =>
    simp only [handle]
    cases protocolOf filters <;> rfl
  | blockMeta slot bankId seconds => rfl
  | slotStatus slot status bankId => exact s.slots.onSlotStatus_highest slot status bankId
  | ping => rfl
  | pong => rfl
  | other => rfl

/-- One update leaves the progress true to the arrivals with it. -/
theorem handle_from {s : StreamSession T} {arrivals : List (Arrival T)} (h : s.slots.From arrivals)
    {a : Arrival T} : (s.handle a.deliver a.update).session.slots.From (arrivals ++ [a]) := by
  have hhigh := s.handle_highest a.deliver a.update
  refine ⟨?_, ?_, ?_⟩
  · intro x hx
    rw [transactionSlots, List.filterMap_append, List.mem_append]
    rcases handle_pendingSlots hx with hnew | hold
    · exact Or.inr (by simp [hnew])
    · exact Or.inl (h.pending x hold)
  · intro x hx
    rw [metaSlots, List.filterMap_append, List.mem_append]
    rw [hhigh] at hx
    cases hm : a.update.metaSlot with
    | none =>
      simp only [hm] at hx
      exact Or.inl (h.highest x hx)
    | some slot =>
      simp only [hm, Option.some.injEq] at hx
      cases hseen : s.slots.highestMetaSlot with
      | none =>
        rw [hseen, Option.elim_none] at hx
        exact Or.inr (by simp [hm, hx])
      | some seen =>
        rw [hseen, Option.elim_some] at hx
        rcases max_choice seen slot with hc | hc
        · exact Or.inl (h.highest x (by rw [hseen, ← hx, hc]))
        · exact Or.inr (by simp [hm, ← hx, hc])
  · intro m hm
    rw [metaSlots, List.filterMap_append, List.mem_append] at hm
    rw [hhigh]
    rcases hm with hm | hm
    · obtain ⟨highest, hseen, hle⟩ := h.below m hm
      cases a.update.metaSlot with
      | none => exact ⟨highest, hseen, hle⟩
      | some slot => exact ⟨max highest slot, by simp [hseen], hle.trans (le_max_left _ _)⟩
    · have hslot : a.update.metaSlot = some m := by simpa using hm
      simp only [hslot, Option.some.injEq, exists_eq_left']
      cases s.slots.highestMetaSlot with
      | none => exact le_refl _
      | some seen => exact le_max_right _ _

/-- A timed block-meta goes to the received slots, with what is settled once it is handled. -/
theorem handle_timed (s : StreamSession T) (deliver : Nat → SessionState) {u : Update T}
    {slot : Nat} {instant : Instant} (h : u.timedMeta = some (slot, instant)) :
    ((s.handle deliver u).published, (s.handle deliver u).session.receivedSlots) =
      s.receivedSlots.onBlockMeta slot instant (s.handle deliver u).session.slots.settledBelow := by
  cases u with
  | blockMeta slot bankId seconds =>
    obtain ⟨_, ht, he⟩ := Option.map_eq_some_iff.mp h
    cases he
    simp only [handle, ht]
  | _ => cases h

/-- Nothing else reaches them. -/
theorem handle_untimed (s : StreamSession T) (deliver : Nat → SessionState) {u : Update T}
    (h : u.timedMeta = none) :
    (s.handle deliver u).published = none ∧
      (s.handle deliver u).session.receivedSlots = s.receivedSlots := by
  cases u with
  | transaction filters slot bankId body =>
    simp only [handle]
    cases protocolOf filters <;> exact ⟨rfl, rfl⟩
  | blockMeta slot bankId seconds =>
    have ht := Option.map_eq_none_iff.mp h
    simp only [handle, ht, and_self]
  | _ => exact ⟨rfl, rfl⟩

end StreamSession

namespace SessionRun

theorem exec_concat (startedAt : Instant) (protocols : List Protocol) (arrivals : List (Arrival T))
    (a : Arrival T) :
    exec startedAt protocols (arrivals ++ [a]) = (exec startedAt protocols arrivals).step a := by
  simp [exec, List.foldl_append]

theorem exec_from (startedAt : Instant) (protocols : List Protocol) (arrivals : List (Arrival T)) :
    (exec startedAt protocols arrivals).session.slots.From arrivals := by
  induction arrivals using List.reverseRecOn with
  | nil =>
    refine ⟨?_, ?_, ?_⟩
    · intro s hs
      cases hs
    · intro h hh
      cases hh
    · intro m hm
      cases hm
  | append_singleton arrivals a ih =>
    rw [exec_concat]
    exact StreamSession.handle_from ih

end SessionRun

namespace SlotProgress

variable {p : SlotProgress T}

/-- A slot is settled below the oldest waiting one, or below the highest closed when nothing waits. -/
theorem settledBelow_some {bound : Nat} (h : p.settledBelow = some bound) :
    (∃ oldest, p.buffer.oldestPendingSlot = some oldest ∧ bound = oldest - heldBackSlots) ∨
      p.buffer.oldestPendingSlot = none ∧
        ∃ highest, p.highestMetaSlot = some highest ∧ bound = highest - heldBackSlots := by
  unfold settledBelow at h
  cases ho : p.buffer.oldestPendingSlot with
  | some oldest =>
    rw [ho] at h
    exact Or.inl ⟨oldest, rfl, (Option.some.inj h).symm⟩
  | none =>
    rw [ho, Option.none_or] at h
    obtain ⟨highest, hh, rfl⟩ := Option.map_eq_some_iff.mp h
    exact Or.inr ⟨rfl, highest, hh, rfl⟩

variable {arrivals : List (Arrival T)}

theorem From.settledBelow_isSome (hp : p.From arrivals) {m : Nat} (hm : m ∈ metaSlots arrivals) :
    ∃ bound, p.settledBelow = some bound := by
  obtain ⟨h, hh, _⟩ := hp.below m hm
  unfold settledBelow
  rw [hh]
  cases p.buffer.oldestPendingSlot <;> exact ⟨_, rfl⟩

/-- A settled slot is far enough from the top of the range for a margin not to saturate. -/
theorem From.settled_lt (hp : p.From arrivals) {bound x : Nat} (h : p.settledBelow = some bound)
    (hx : x < bound) : x + heldBackSlots < 2 ^ 64 - 1 := by
  rcases settledBelow_some h with ⟨oldest, ho, rfl⟩ | ⟨_, highest, hh, rfl⟩
  · have hmem := hp.pending oldest (SlotTimestampBuffer.oldestPendingSlot_le ho).1
    obtain ⟨a, _, ha⟩ := List.mem_filterMap.mp hmem
    have hlt := Update.transactionSlot_lt ha
    omega
  · obtain ⟨a, _, ha⟩ := List.mem_filterMap.mp (hp.highest highest hh)
    have hlt := Update.metaSlot_lt ha
    omega

end SlotProgress

end YogSothoth.Grpc
