import YogSothoth.Grpc.Enforced

namespace YogSothoth.Grpc

variable {T : Type*}

/-- The evictions of each reason and the losing drops counted between two readings. -/
structure Metrics.Adds (evicted : EvictionReason → Nat) (losing : Nat) (m m' : Metrics T) :
    Prop where
  evicted : ∀ reason, m'.evicted reason = m.evicted reason + evicted reason
  losing : m'.losingBank = m.losingBank + losing

namespace Metrics

theorem Adds.refl (m : Metrics T) : Adds (fun _ => 0) 0 m m := ⟨fun _ => rfl, rfl⟩

theorem Adds.trans {e e' : EvictionReason → Nat} {l l' : Nat} {m m' m'' : Metrics T}
    (h : Adds e l m m') (h' : Adds e' l' m' m'') :
    Adds (fun reason => e reason + e' reason) (l + l') m m'' := by
  refine ⟨?_, ?_⟩
  · intro reason
    rw [h'.evicted, h.evicted, Nat.add_assoc]
  · rw [h'.losing, h.losing, Nat.add_assoc]

theorem adds_recordPeaks (m : Metrics T) (payloads slotLag : Nat) :
    Adds (fun _ => 0) 0 m (m.recordPeaks payloads slotLag) := ⟨fun _ => rfl, rfl⟩

theorem adds_recordEvicted (m : Metrics T) (n : Nat) (reason : EvictionReason) (gone : List T) :
    Adds (fun r => if r = reason then n else 0) 0 m (m.recordEvicted n reason gone) := by
  refine ⟨?_, rfl⟩
  intro r
  change Function.update m.evicted reason (m.evicted reason + n) r = _
  by_cases hr : r = reason
  · rw [hr, Function.update_self, if_pos rfl]
  · rw [Function.update_of_ne hr, if_neg hr, Nat.add_zero]

theorem adds_recordLosingBank (m : Metrics T) (n : Nat) (gone : List T) :
    Adds (fun _ => 0) n m (m.recordLosingBank n gone) := ⟨fun _ => rfl, rfl⟩

end Metrics

namespace WaitingSlots

/-- Two queues equal but for what they have counted. -/
def Alike (w v : WaitingSlots T) : Prop := ∃ m, v = { w with metrics := m }

theorem Alike.refl (w : WaitingSlots T) : Alike w w := ⟨w.metrics, rfl⟩

theorem Alike.symm {w v : WaitingSlots T} (h : Alike w v) : Alike v w := by
  obtain ⟨m, hm⟩ := h
  exact ⟨w.metrics, by rw [hm]⟩

theorem Alike.trans {w v u : WaitingSlots T} (h : Alike w v) (h' : Alike v u) : Alike w u := by
  obtain ⟨m, hm⟩ := h
  obtain ⟨m', hm'⟩ := h'
  exact ⟨m', by rw [hm', hm]⟩

theorem Alike.pending {w v : WaitingSlots T} (h : Alike w v) : v.pending = w.pending := by
  obtain ⟨m, hm⟩ := h
  rw [hm]

theorem Alike.frame {w v : WaitingSlots T} (h : Alike w v) : SameFrame w v := by
  obtain ⟨m, hm⟩ := h
  rw [hm]
  exact ⟨rfl, rfl, rfl⟩

theorem Alike.bounds {w v : WaitingSlots T} (h : Alike w v) :
    v.exceededBound = w.exceededBound := by
  obtain ⟨m, hm⟩ := h
  rw [hm]
  rfl

/-- Two queues after a step of each: alike, and the same counted by both. -/
structure Twins (w v w' v' : WaitingSlots T) : Prop where
  alike : Alike w' v'
  counts : ∃ evicted losing, Metrics.Adds evicted losing w.metrics w'.metrics ∧
    Metrics.Adds evicted losing v.metrics v'.metrics

theorem Twins.refl {w v : WaitingSlots T} (h : Alike w v) : Twins w v w v :=
  ⟨h, _, _, Metrics.Adds.refl _, Metrics.Adds.refl _⟩

theorem Twins.trans {w v w' v' w'' v'' : WaitingSlots T} (h : Twins w v w' v')
    (h' : Twins w' v' w'' v'') : Twins w v w'' v'' := by
  obtain ⟨e, l, hw, hv⟩ := h.counts
  obtain ⟨e', l', hw', hv'⟩ := h'.counts
  exact ⟨h'.alike, _, _, hw.trans hw', hv.trans hv'⟩

section Twins

variable {w v : WaitingSlots T}

theorem Alike.see (h : Alike w v) (slot : Nat) : Twins w v (w.see slot) (v.see slot) := by
  obtain ⟨m, hm⟩ := h
  subst hm
  exact ⟨⟨m, rfl⟩, _, _, Metrics.Adds.refl _, Metrics.Adds.refl _⟩

theorem Alike.take (h : Alike w v) (slot : Nat) :
    (w.take slot).1 = (v.take slot).1 ∧ Twins w v (w.take slot).2 (v.take slot).2 := by
  obtain ⟨m, hm⟩ := h
  subst hm
  exact ⟨rfl, ⟨m, rfl⟩, _, _, Metrics.Adds.refl _, Metrics.Adds.refl _⟩

theorem Alike.evict (h : Alike w v) (slot : Nat) (reason : EvictionReason) :
    Twins w v (w.evict slot reason) (v.evict slot reason) := by
  obtain ⟨htaken, htake⟩ := h.take slot
  rw [evict_eq, evict_eq, ← htaken]
  split_ifs
  · exact htake
  · obtain ⟨m, hm⟩ := htake.alike
    refine ⟨⟨v.metrics.recordEvicted (w.take slot).1.length reason (w.take slot).1, ?_⟩, _, _,
      Metrics.adds_recordEvicted _ _ _ _, Metrics.adds_recordEvicted _ _ _ _⟩
    rw [hm]

theorem Alike.enforceLoop (n : Nat) {w v : WaitingSlots T} (h : Alike w v) :
    Twins w v (enforceLoop n w) (enforceLoop n v) := by
  induction n generalizing w v with
  | zero => exact Twins.refl h
  | succ n ih =>
    have hvictim : v.victim = w.victim := by
      obtain ⟨m, hm⟩ := h
      rw [hm]
      rfl
    unfold WaitingSlots.enforceLoop
    rw [h.bounds, hvictim]
    cases w.exceededBound with
    | none => exact Twins.refl h
    | some bound =>
      cases hslot : w.victim bound with
      | none =>
        simp only [hslot]
        exact Twins.refl h
      | some slot =>
        have hstep := h.evict slot bound.reason
        simp only [hslot]
        exact hstep.trans (ih hstep.alike)

theorem Alike.enforceBounds (h : Alike w v) : Twins w v w.enforceBounds v.enforceBounds := by
  obtain ⟨m, hm⟩ := h
  subst hm
  have hpeaks : Twins w { w with metrics := m }
      { w with metrics := w.metrics.recordPeaks w.count w.oldestLag }
      { w with metrics := m.recordPeaks w.count w.oldestLag } :=
    ⟨⟨_, rfl⟩, _, _, Metrics.adds_recordPeaks _ _ _, Metrics.adds_recordPeaks _ _ _⟩
  exact hpeaks.trans (hpeaks.alike.enforceLoop w.pending.size)

theorem Alike.push (h : Alike w v) (slot : Nat) (payload : T) :
    Twins w v (w.push slot payload) (v.push slot payload) := by
  obtain ⟨m, hm⟩ := h
  subst hm
  have hpushed : Twins w { w with metrics := m } (w.pushed slot payload)
      (pushed { w with metrics := m } slot payload) :=
    ⟨⟨m, rfl⟩, _, _, Metrics.Adds.refl _, Metrics.Adds.refl _⟩
  exact hpushed.trans hpushed.alike.enforceBounds

theorem Alike.release (h : Alike w v) (slot : Nat) :
    (w.release slot).1 = (v.release slot).1 ∧ Twins w v (w.release slot).2 (v.release slot).2 := by
  have hsee := h.see slot
  obtain ⟨htaken, htake⟩ := hsee.alike.take slot
  exact ⟨htaken, hsee.trans (htake.trans htake.alike.enforceBounds)⟩

theorem Alike.observe (h : Alike w v) (slot : Nat) :
    Twins w v (w.observe slot) (v.observe slot) :=
  (h.see slot).trans (h.see slot).alike.enforceBounds

theorem Alike.giveUp (h : Alike w v) (slot : Nat) : Twins w v (w.giveUp slot) (v.giveUp slot) := by
  have hsee := h.see slot
  have hevict := hsee.alike.evict slot .unresolvable
  exact hsee.trans (hevict.trans hevict.alike.enforceBounds)

theorem Alike.dropLosing (h : Alike w v) (slot : Nat) (isLosing : T → Bool) :
    Twins w v (w.dropLosing slot isLosing) (v.dropLosing slot isLosing) := by
  obtain ⟨m, hm⟩ := h
  subst hm
  unfold WaitingSlots.dropLosing
  cases w.pending.get? slot with
  | none => exact Twins.refl ⟨m, rfl⟩
  | some waiting =>
    simp only
    split_ifs
    · exact ⟨⟨m, rfl⟩, _, _, Metrics.Adds.refl _, Metrics.Adds.refl _⟩
    · exact ⟨⟨m, rfl⟩, _, _, Metrics.Adds.refl _, Metrics.Adds.refl _⟩
    · exact ⟨⟨_, rfl⟩, _, _, Metrics.adds_recordLosingBank _ _ _,
        Metrics.adds_recordLosingBank _ _ _⟩
    · exact ⟨⟨_, rfl⟩, _, _, Metrics.adds_recordLosingBank _ _ _,
        Metrics.adds_recordLosingBank _ _ _⟩

end Twins

end WaitingSlots

end YogSothoth.Grpc
