import YogSothoth.Framework.Checked
import YogSothoth.Grpc.Enforced

namespace YogSothoth.Grpc

variable {T : Type*}

/-! The calls with their faults: `none` for a count taken below zero, for a bound exceeded with no
slot to evict, and for a loop that does not end in the turns it is given. -/

namespace WaitingSlots

def strictTake (w : WaitingSlots T) (slot : Nat) : Option (List T × WaitingSlots T) :=
  let released := w.pending.getD slot []
  (checkedSub w.count released.length).map (fun count =>
    (released, { w with pending := w.pending.erase slot, count := count }))

def strictEvict (w : WaitingSlots T) (slot : Nat) (reason : EvictionReason) :
    Option (WaitingSlots T) := do
  let (dropped, w) ← w.strictTake slot
  return if dropped.isEmpty then w
    else { w with metrics := w.metrics.recordEvicted dropped.length reason dropped }

def strictLoop : Nat → WaitingSlots T → Option (WaitingSlots T)
  | 0, w => if w.exceededBound = none then some w else none
  | n + 1, w =>
    match w.exceededBound with
    | none => some w
    | some bound =>
      match w.victim bound with
      | none => none
      | some slot => (w.strictEvict slot bound.reason).bind (strictLoop n)

def strictBounds (w : WaitingSlots T) : Option (WaitingSlots T) :=
  strictLoop w.pending.size { w with metrics := w.metrics.recordPeaks w.count w.oldestLag }

def strictPush (w : WaitingSlots T) (slot : Nat) (payload : T) : Option (WaitingSlots T) :=
  (w.pushed slot payload).strictBounds

def strictRelease (w : WaitingSlots T) (slot : Nat) : Option (List T × WaitingSlots T) := do
  let (released, w) ← (w.see slot).strictTake slot
  let w ← w.strictBounds
  return (released, w)

def strictObserve (w : WaitingSlots T) (slot : Nat) : Option (WaitingSlots T) :=
  (w.see slot).strictBounds

def strictDropLosing (w : WaitingSlots T) (slot : Nat) (isLosing : T → Bool) :
    Option (WaitingSlots T) :=
  match w.pending.get? slot with
  | none => some w
  | some waiting =>
    let retained := waiting.filter (fun payload => !isLosing payload)
    (checkedSub waiting.length retained.length).bind (fun dropped =>
      let pending :=
        if retained.isEmpty then w.pending.erase slot else w.pending.insert slot retained
      if dropped = 0 then some { w with pending := pending }
      else (checkedSub w.count dropped).map (fun count => { w with
        pending := pending
        count := count
        metrics := w.metrics.recordLosingBank dropped (waiting.filter isLosing) }))

def strictGiveUp (w : WaitingSlots T) (slot : Nat) : Option (WaitingSlots T) := do
  let w ← (w.see slot).strictEvict slot .unresolvable
  w.strictBounds

end WaitingSlots

namespace SlotTimestampBuffer

def strictOnPayload (b : SlotTimestampBuffer T) (slot : Nat) (bank : Bank) (payload : T) :
    Option (Option (Resolved T) × SlotTimestampBuffer T) :=
  match b.known.settlement slot bank with
  | .pending => (b.waiting.strictPush slot ⟨bank, payload⟩).map
      (fun waiting => (none, { b with waiting := waiting }))
  | _ => some (b.onPayload slot bank payload)

def strictSettle (b : SlotTimestampBuffer T) (slot : Nat) :
    Option (List (Resolved T) × SlotTimestampBuffer T) :=
  match b.known.kept slot with
  | none => (b.waiting.strictObserve slot).map (fun waiting => ([], { b with waiting := waiting }))
  | some kept => do
    let waiting ← b.waiting.strictDropLosing slot (fun held => !kept.admits held.bank)
    match b.known.time slot with
    | some (.at instant) => (waiting.strictRelease slot).map (fun r =>
        (r.1.map (fun held => ⟨held.payload, instant⟩), { b with waiting := r.2 }))
    | some .givenUp =>
      (waiting.strictGiveUp slot).map (fun waiting => ([], { b with waiting := waiting }))
    | none => (waiting.strictObserve slot).map (fun waiting => ([], { b with waiting := waiting }))

end SlotTimestampBuffer

def Call.strictApply (b : SlotTimestampBuffer T) :
    Call T → Option (List (Resolved T) × SlotTimestampBuffer T)
  | .payload slot bank value =>
    (b.strictOnPayload slot bank value).map (fun r => (r.1.toList, r.2))
  | .blockTime slot bank instant =>
    { b with known := b.known.resolve slot bank instant }.strictSettle slot
  | .slotUnresolvable slot bank => { b with known := b.known.giveUp slot bank }.strictSettle slot
  | .finalized slot bank => { b with known := b.known.keep slot bank }.strictSettle slot

namespace WaitingSlots

variable {w : WaitingSlots T}

/-- What waits for a slot is counted. -/
theorem Books.length_le (hw : w.Books) (slot : Nat) :
    (w.pending.getD slot []).length ≤ w.count := by
  have hflat := congrArg Multiset.card (w.pending.flat_erase slot)
  rw [Multiset.card_add, Multiset.coe_card, ← hw.count] at hflat
  omega

theorem Books.strictTake (hw : w.Books) (slot : Nat) : w.strictTake slot = some (w.take slot) := by
  unfold WaitingSlots.strictTake
  simp only [checkedSub_of_le (hw.length_le slot), Option.map_some]
  rfl

theorem Books.strictEvict (hw : w.Books) (slot : Nat) (reason : EvictionReason) :
    w.strictEvict slot reason = some (w.evict slot reason) := by
  unfold WaitingSlots.strictEvict
  rw [hw.strictTake slot]
  rfl

/-- With a turn a pending slot the loop ends within its bounds, each turn with a slot to evict. -/
theorem Books.strictLoop (n : Nat) (hw : w.Books) (hn : w.pending.size ≤ n) :
    WaitingSlots.strictLoop n w = some (WaitingSlots.enforceLoop n w) := by
  induction n generalizing w with
  | zero =>
    have hempty := exceededBound_of_empty hw (List.length_eq_zero_iff.mp (Nat.le_zero.mp hn))
    exact if_pos hempty
  | succ n ih =>
    unfold WaitingSlots.strictLoop WaitingSlots.enforceLoop
    cases hbound : w.exceededBound with
    | none => rfl
    | some bound =>
      cases hvictim : w.victim bound with
      | none =>
        rw [exceededBound_of_empty hw (victim_eq_none hvictim)] at hbound
        cases hbound
      | some slot =>
        obtain ⟨v, hv⟩ := victim_mem hvictim
        have hlt := OrdMap.size_erase_lt (List.mem_map_of_mem hv)
        have hsize : (w.evict slot bound.reason).pending.size ≤ n := by
          rw [evict_pending]
          exact Nat.le_of_lt_succ (lt_of_lt_of_le hlt hn)
        simp only [hvictim, hw.strictEvict slot bound.reason, Option.bind_some]
        exact ih (hw.evict slot bound.reason) hsize

theorem Books.strictBounds (hw : w.Books) : w.strictBounds = some w.enforceBounds :=
  Books.strictLoop _ ⟨hw.count, hw.nonempty, hw.metrics.recordPeaks _ _⟩ (le_refl _)

theorem Books.strictPush (hw : w.Books) (slot : Nat) (payload : T) :
    w.strictPush slot payload = some (w.push slot payload) := (hw.pushed slot payload).strictBounds

theorem Books.strictRelease (hw : w.Books) (slot : Nat) :
    w.strictRelease slot = some (w.release slot) := by
  unfold WaitingSlots.strictRelease
  rw [(hw.see slot).strictTake slot]
  change (((w.see slot).take slot).2.strictBounds).bind _ = _
  rw [((hw.see slot).take slot).strictBounds]
  rfl

theorem Books.strictObserve (hw : w.Books) (slot : Nat) :
    w.strictObserve slot = some (w.observe slot) := (hw.see slot).strictBounds

theorem Books.strictGiveUp (hw : w.Books) (slot : Nat) :
    w.strictGiveUp slot = some (w.giveUp slot) := by
  unfold WaitingSlots.strictGiveUp
  rw [(hw.see slot).strictEvict slot .unresolvable]
  exact ((hw.see slot).evict slot .unresolvable).strictBounds

theorem Books.strictDropLosing (hw : w.Books) (slot : Nat) (isLosing : T → Bool) :
    w.strictDropLosing slot isLosing = some (w.dropLosing slot isLosing) := by
  have hcount := hw.length_le slot
  unfold WaitingSlots.strictDropLosing WaitingSlots.dropLosing
  unfold OrdMap.getD at hcount
  cases hget : w.pending.get? slot with
  | none => rfl
  | some waiting =>
    rw [hget, Option.getD_some] at hcount
    have hretained := List.length_filter_le (fun payload => !isLosing payload) waiting
    have hdropped : waiting.length - (waiting.filter (fun payload => !isLosing payload)).length ≤
        w.count := (Nat.sub_le _ _).trans hcount
    simp only [checkedSub_of_le hretained, Option.bind_some, checkedSub_of_le hdropped,
      Option.map_some]
    split_ifs <;> rfl

end WaitingSlots

namespace SlotTimestampBuffer

variable {b : SlotTimestampBuffer T}

theorem strictOnPayload_eq (hb : b.waiting.Books) (slot : Nat) (bank : Bank) (payload : T) :
    b.strictOnPayload slot bank payload = some (b.onPayload slot bank payload) := by
  unfold strictOnPayload onPayload
  cases b.known.settlement slot bank with
  | pending => simp only [hb.strictPush slot, Option.map_some]
  | losing => rfl
  | settled outcome => rfl

theorem strictSettle_eq (hb : b.waiting.Books) (slot : Nat) :
    b.strictSettle slot = some (b.settle slot) := by
  unfold strictSettle settle
  cases b.known.kept slot with
  | none => simp only [hb.strictObserve slot, Option.map_some]
  | some kept =>
    have hdrop := hb.dropLosing slot (fun held => !kept.admits held.bank)
    simp only [hb.strictDropLosing slot, Option.bind_eq_bind, Option.bind_some]
    cases b.known.time slot with
    | none => simp only [hdrop.strictObserve slot, Option.map_some]
    | some outcome =>
      cases outcome with
      | givenUp => simp only [hdrop.strictGiveUp slot, Option.map_some]
      | «at» instant => simp only [hdrop.strictRelease slot, Option.map_some]

end SlotTimestampBuffer

/-- A call on a buffer whose books are kept has no fault. -/
theorem Call.strictApply_eq {b : SlotTimestampBuffer T} (hb : b.waiting.Books) (c : Call T) :
    c.strictApply b = some (c.apply b) := by
  cases c with
  | payload slot bank value =>
    unfold Call.strictApply Call.apply
    simp only [SlotTimestampBuffer.strictOnPayload_eq hb, Option.map_some]
  | blockTime slot bank instant =>
    exact SlotTimestampBuffer.strictSettle_eq (b := { b with known := b.known.resolve slot bank instant })
      hb slot
  | slotUnresolvable slot bank =>
    exact SlotTimestampBuffer.strictSettle_eq (b := { b with known := b.known.giveUp slot bank }) hb slot
  | finalized slot bank =>
    exact SlotTimestampBuffer.strictSettle_eq (b := { b with known := b.known.keep slot bank }) hb slot

end YogSothoth.Grpc
