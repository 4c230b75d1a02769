import YogSothoth.Grpc.SlotTimestampBuffer
import Mathlib.Algebra.Order.Group.Multiset
import Mathlib.Data.List.Induction
import Mathlib.Tactic.Abel

namespace YogSothoth.Grpc

variable {T : Type*}

/-- The counters agree with the payloads behind them. -/
structure Metrics.Accurate (m : Metrics T) : Prop where
  evicted : ∀ reason, m.evicted reason = m.evictions.countP (fun e => e.1 = reason)
  losing : m.losingBank = m.losses.length

namespace Metrics

theorem Accurate.recordEvicted {m : Metrics T} (h : m.Accurate) (reason : EvictionReason)
    (gone : List T) : (m.recordEvicted gone.length reason gone).Accurate := by
  refine ⟨?_, h.losing⟩
  intro r
  have hcount : (gone.map (fun t => (reason, t))).countP (fun e => e.1 = r) =
      if r = reason then gone.length else 0 := by
    rw [List.countP_map]
    split_ifs with hr
    · subst hr
      simp [Function.comp_def]
    · simp [Function.comp_def, Ne.symm hr]
  change Function.update m.evicted reason (m.evicted reason + gone.length) r =
    (m.evictions ++ gone.map (fun t => (reason, t))).countP (fun e => e.1 = r)
  rw [List.countP_append, hcount, ← h.evicted r]
  by_cases hr : r = reason
  · subst hr
    simp
  · simp [hr]

theorem Accurate.recordLosingBank {m : Metrics T} (h : m.Accurate) (gone : List T) :
    (m.recordLosingBank gone.length gone).Accurate :=
  ⟨h.evicted, by simp [Metrics.recordLosingBank, h.losing]⟩

theorem Accurate.recordPeaks {m : Metrics T} (h : m.Accurate) (payloads slotLag : Nat) :
    (m.recordPeaks payloads slotLag).Accurate := ⟨h.evicted, h.losing⟩

/-- The three reasons cover every eviction. -/
theorem Accurate.evictions_length {m : Metrics T} (h : m.Accurate) :
    m.evictions.length =
      m.evicted .slotBound + m.evicted .payloadBound + m.evicted .unresolvable := by
  rw [h.evicted, h.evicted, h.evicted]
  induction m.evictions with
  | nil => rfl
  | cons e es ih =>
    obtain ⟨reason, t⟩ := e
    cases reason <;> simp [ih] <;> omega

end Metrics

namespace WaitingSlots

/-- Every payload the table has been given and has not released. -/
def held (w : WaitingSlots T) : Multiset T :=
  w.pending.flat + (w.metrics.evictions.map Prod.snd : List T) + w.metrics.losses

/-- The count is true, no entry is empty, and the counters are accurate. -/
structure Books (w : WaitingSlots T) : Prop where
  count : w.count = w.pending.flat.card
  nonempty : ∀ e ∈ w.pending.entries, e.2 ≠ []
  metrics : w.metrics.Accurate

theorem Books.new (slots payloads : Nat) : (WaitingSlots.new slots payloads : WaitingSlots T).Books :=
  ⟨rfl, by simp [WaitingSlots.new], ⟨fun _ => rfl, rfl⟩⟩

@[simp] theorem see_metrics (w : WaitingSlots T) (slot : Nat) : (w.see slot).metrics = w.metrics := rfl

theorem Books.see {w : WaitingSlots T} (h : w.Books) (slot : Nat) : (w.see slot).Books :=
  ⟨h.count, h.nonempty, h.metrics⟩

@[simp] theorem see_held (w : WaitingSlots T) (slot : Nat) : (w.see slot).held = w.held := rfl

theorem Books.take {w : WaitingSlots T} (h : w.Books) (slot : Nat) : (w.take slot).2.Books := by
  refine ⟨?_, fun e he => h.nonempty e (OrdMap.mem_erase.mp he).1, h.metrics⟩
  have hflat := congrArg Multiset.card (w.pending.flat_erase slot)
  rw [Multiset.card_add, Multiset.coe_card, ← h.count] at hflat
  simp only [WaitingSlots.take]
  omega

theorem take_held (w : WaitingSlots T) (slot : Nat) :
    ((w.take slot).1 : Multiset T) + (w.take slot).2.held = w.held := by
  simp only [WaitingSlots.take, held]
  rw [w.pending.flat_erase slot, add_assoc, add_assoc, add_assoc]

theorem evict_eq (w : WaitingSlots T) (slot : Nat) (reason : EvictionReason) :
    w.evict slot reason =
      if (w.take slot).1 = [] then (w.take slot).2
      else { (w.take slot).2 with
        metrics := w.metrics.recordEvicted (w.take slot).1.length reason (w.take slot).1 } := by
  simp only [evict, List.isEmpty_iff]
  rfl

theorem Books.evict {w : WaitingSlots T} (h : w.Books) (slot : Nat) (reason : EvictionReason) :
    (w.evict slot reason).Books := by
  rw [evict_eq]
  split_ifs
  · exact h.take slot
  · exact ⟨(h.take slot).count, (h.take slot).nonempty, h.metrics.recordEvicted reason _⟩

theorem evict_held (w : WaitingSlots T) (slot : Nat) (reason : EvictionReason) :
    (w.evict slot reason).held = w.held := by
  have hsplit := w.take_held slot
  rw [evict_eq]
  split_ifs with hnil
  · rw [hnil] at hsplit
    simpa using hsplit
  · rw [← hsplit]
    simp only [held, Metrics.recordEvicted, List.map_append, List.map_map, Function.comp_def,
      List.map_id', ← Multiset.coe_add]
    change (w.take slot).2.pending.flat + _ + _ =
      _ + ((w.take slot).2.pending.flat + (w.metrics.evictions.map Prod.snd : List T) + w.metrics.losses)
    abel

theorem Books.enforceLoop (n : Nat) {w : WaitingSlots T} (h : w.Books) : (enforceLoop n w).Books := by
  induction n generalizing w with
  | zero => exact h
  | succ n ih =>
    unfold WaitingSlots.enforceLoop
    split
    · exact h
    · split
      · exact h
      · exact ih (h.evict _ _)

theorem enforceLoop_held (n : Nat) (w : WaitingSlots T) : (enforceLoop n w).held = w.held := by
  induction n generalizing w with
  | zero => rfl
  | succ n ih =>
    unfold enforceLoop
    split
    · rfl
    · split
      · rfl
      · rw [ih, evict_held]

theorem Books.enforceBounds {w : WaitingSlots T} (h : w.Books) : w.enforceBounds.Books :=
  Books.enforceLoop _ ⟨h.count, h.nonempty, h.metrics.recordPeaks _ _⟩

@[simp] theorem enforceBounds_held (w : WaitingSlots T) : w.enforceBounds.held = w.held :=
  enforceLoop_held _ _

/-- `push` before it applies the bounds. -/
def pushed (w : WaitingSlots T) (slot : Nat) (payload : T) : WaitingSlots T :=
  { w.see slot with
    pending := w.pending.insert slot (w.pending.getD slot [] ++ [payload])
    count := w.count + 1 }

theorem push_eq (w : WaitingSlots T) (slot : Nat) (payload : T) :
    w.push slot payload = (w.pushed slot payload).enforceBounds := rfl

theorem Books.pushed {w : WaitingSlots T} (h : w.Books) (slot : Nat) (payload : T) :
    (w.pushed slot payload).Books := by
  refine ⟨?_, ?_, h.metrics⟩
  · have hflat := congrArg Multiset.card (w.pending.flat_erase slot)
    rw [Multiset.card_add, Multiset.coe_card, ← h.count] at hflat
    simp only [WaitingSlots.pushed, OrdMap.flat_insert, Multiset.card_add, Multiset.coe_card,
      List.length_append, List.length_singleton]
    omega
  · intro e he
    rcases OrdMap.mem_insert.mp he with rfl | ⟨he, -⟩
    · simp
    · exact h.nonempty e he

theorem Books.push {w : WaitingSlots T} (h : w.Books) (slot : Nat) (payload : T) :
    (w.push slot payload).Books := (h.pushed slot payload).enforceBounds

theorem push_held (w : WaitingSlots T) (slot : Nat) (payload : T) :
    (w.push slot payload).held = payload ::ₘ w.held := by
  rw [push_eq, enforceBounds_held]
  simp only [held, pushed, see_metrics, OrdMap.flat_insert]
  rw [w.pending.flat_erase slot, ← Multiset.coe_add, ← Multiset.singleton_add, Multiset.coe_singleton]
  abel

theorem Books.release {w : WaitingSlots T} (h : w.Books) (slot : Nat) : (w.release slot).2.Books :=
  ((h.see slot).take slot).enforceBounds

theorem release_held (w : WaitingSlots T) (slot : Nat) :
    ((w.release slot).1 : Multiset T) + (w.release slot).2.held = w.held := by
  have h := (w.see slot).take_held slot
  simpa only [release, enforceBounds_held, see_held] using h

theorem Books.observe {w : WaitingSlots T} (h : w.Books) (slot : Nat) : (w.observe slot).Books :=
  (h.see slot).enforceBounds

@[simp] theorem observe_held (w : WaitingSlots T) (slot : Nat) : (w.observe slot).held = w.held := by
  simp [observe]

theorem Books.giveUp {w : WaitingSlots T} (h : w.Books) (slot : Nat) : (w.giveUp slot).Books :=
  ((h.see slot).evict slot _).enforceBounds

@[simp] theorem giveUp_held (w : WaitingSlots T) (slot : Nat) : (w.giveUp slot).held = w.held := by
  simp [giveUp, evict_held]

theorem retained_length (isLosing : T → Bool) (waiting : List T) :
    waiting.length - (waiting.filter (fun t => !isLosing t)).length =
      (waiting.filter isLosing).length := by
  have h := (List.filter_append_perm isLosing waiting).length_eq
  rw [List.length_append] at h
  omega

/-- What `drop_losing` leaves for a slot with something waiting: the entry without its losing
payloads, which are counted. -/
theorem dropLosing_some {w : WaitingSlots T} {slot : Nat} {waiting : List T}
    (h : w.pending.get? slot = some waiting) (isLosing : T → Bool) :
    (w.dropLosing slot isLosing).pending.flat =
        (waiting.filter (fun t => !isLosing t) : List T) + (w.pending.erase slot).flat ∧
    (w.dropLosing slot isLosing).count = w.count - (waiting.filter isLosing).length ∧
    (w.dropLosing slot isLosing).metrics =
      (if waiting.filter isLosing = [] then w.metrics
      else w.metrics.recordLosingBank (waiting.filter isLosing).length (waiting.filter isLosing)) ∧
    (w.dropLosing slot isLosing).pending = (if waiting.filter (fun t => !isLosing t) = []
      then w.pending.erase slot
      else w.pending.insert slot (waiting.filter (fun t => !isLosing t))) := by
  have hpending : (w.dropLosing slot isLosing).pending =
      (if waiting.filter (fun t => !isLosing t) = [] then w.pending.erase slot
      else w.pending.insert slot (waiting.filter (fun t => !isLosing t))) := by
    simp only [dropLosing, h, List.isEmpty_iff]
    split_ifs <;> rfl
  refine ⟨?_, ?_, ?_, hpending⟩
  · rw [hpending]
    split_ifs with hnil
    · simp [hnil]
    · exact OrdMap.flat_insert _ _ _
  · simp only [dropLosing, h, retained_length]
    by_cases hz : (waiting.filter isLosing).length = 0
    · rw [if_pos hz, hz]
      rfl
    · rw [if_neg hz]
  · simp only [dropLosing, h, retained_length, List.length_eq_zero_iff]
    split_ifs <;> rfl

theorem dropLosing_none {w : WaitingSlots T} {slot : Nat} (h : w.pending.get? slot = none)
    (isLosing : T → Bool) : w.dropLosing slot isLosing = w := by
  simp [dropLosing, h]

theorem Books.dropLosing {w : WaitingSlots T} (hw : w.Books) (slot : Nat) (isLosing : T → Bool) :
    (w.dropLosing slot isLosing).Books := by
  cases h : w.pending.get? slot with
  | none => rwa [dropLosing_none h]
  | some waiting =>
    obtain ⟨hflat, hcount, hmetrics, hpending⟩ := dropLosing_some h isLosing
    refine ⟨?_, ?_, ?_⟩
    · have hcard := congrArg Multiset.card (w.pending.flat_erase slot)
      have hlen := retained_length isLosing waiting
      have hle := List.length_filter_le (fun t => !isLosing t) waiting
      rw [Multiset.card_add, Multiset.coe_card, ← hw.count] at hcard
      simp only [OrdMap.getD, h, Option.getD_some] at hcard
      rw [hflat, hcount, Multiset.card_add, Multiset.coe_card]
      omega
    · intro e he
      rw [hpending] at he
      split_ifs at he with hnil
      · exact hw.nonempty e (OrdMap.mem_erase.mp he).1
      · rcases OrdMap.mem_insert.mp he with rfl | ⟨he, -⟩
        · exact hnil
        · exact hw.nonempty e he
    · rw [hmetrics]
      split_ifs
      · exact hw.metrics
      · exact hw.metrics.recordLosingBank _

@[simp] theorem dropLosing_held (w : WaitingSlots T) (slot : Nat) (isLosing : T → Bool) :
    (w.dropLosing slot isLosing).held = w.held := by
  cases h : w.pending.get? slot with
  | none => rw [dropLosing_none h]
  | some waiting =>
    obtain ⟨hflat, -, hmetrics, -⟩ := dropLosing_some h isLosing
    have hsplit : ((waiting.filter isLosing : List T) : Multiset T) +
        (waiting.filter (fun t => !isLosing t) : List T) = waiting := by
      rw [Multiset.coe_add, Multiset.coe_eq_coe]
      exact List.filter_append_perm isLosing waiting
    have hold := w.pending.flat_erase slot
    simp only [OrdMap.getD, h, Option.getD_some] at hold
    simp only [held, hflat, hmetrics]
    rw [hold, ← hsplit]
    split_ifs with hnil
    · simp [hnil]
    · simp only [Metrics.recordLosingBank, ← Multiset.coe_add]
      abel

end WaitingSlots

namespace SlotTimestampBuffer

/-- Every payload the buffer has been given and has not returned. -/
def held (b : SlotTimestampBuffer T) : Multiset T := b.waiting.held.map Held.payload

def payloads (resolved : List (Resolved T)) : Multiset T := (resolved.map Resolved.payload : List T)

theorem settle_ledger (b : SlotTimestampBuffer T) (h : b.waiting.Books) (slot : Nat) :
    (b.settle slot).2.waiting.Books ∧
      payloads (b.settle slot).1 + (b.settle slot).2.held = b.held := by
  unfold settle
  cases hk : b.known.kept slot with
  | none => exact ⟨h.observe slot, by simp [payloads, held]⟩
  | some kept =>
    have hd := h.dropLosing slot (fun held => !kept.admits held.bank)
    cases ht : b.known.time slot with
    | none => exact ⟨hd.observe slot, by simp [payloads, held]⟩
    | some outcome =>
      cases outcome with
      | givenUp => exact ⟨hd.giveUp slot, by simp [payloads, held]⟩
      | «at» instant =>
        refine ⟨hd.release slot, ?_⟩
        have hr := WaitingSlots.release_held
          (b.waiting.dropLosing slot (fun held => !kept.admits held.bank)) slot
        rw [WaitingSlots.dropLosing_held] at hr
        have hm := congrArg (Multiset.map Held.payload) hr
        rw [Multiset.map_add, Multiset.map_coe] at hm
        simpa [payloads, held, Function.comp_def] using hm

theorem onPayload_ledger (b : SlotTimestampBuffer T) (h : b.waiting.Books) (slot : Nat) (bank : Bank)
    (payload : T) :
    (b.onPayload slot bank payload).2.waiting.Books ∧
      payloads (b.onPayload slot bank payload).1.toList + (b.onPayload slot bank payload).2.held =
        payload ::ₘ b.held := by
  unfold onPayload
  cases hs : b.known.settlement slot bank with
  | pending =>
    exact ⟨h.push slot _, by simp [payloads, held, WaitingSlots.push_held]⟩
  | losing =>
    refine ⟨⟨h.count, h.nonempty, h.metrics.recordLosingBank [⟨bank, payload⟩]⟩, ?_⟩
    simp only [payloads, held, WaitingSlots.held, Metrics.recordLosingBank, ← Multiset.coe_add,
      Multiset.map_add, Option.toList_none, List.map_nil, Multiset.coe_nil, zero_add,
      Multiset.coe_singleton, Multiset.map_singleton, ← Multiset.singleton_add]
    abel
  | settled outcome =>
    cases outcome with
    | «at» instant => exact ⟨h, by simp [payloads, ← Multiset.singleton_add]⟩
    | givenUp =>
      refine ⟨⟨h.count, h.nonempty, h.metrics.recordEvicted .unresolvable [⟨bank, payload⟩]⟩, ?_⟩
      simp only [payloads, held, WaitingSlots.held, Metrics.recordEvicted, List.map_append,
        ← Multiset.coe_add, Multiset.map_add, Option.toList_none, List.map_nil, Multiset.coe_nil,
        zero_add, List.map_cons, Multiset.coe_singleton, Multiset.map_singleton,
        ← Multiset.singleton_add]
      abel

end SlotTimestampBuffer

namespace Call

/-- The payload a call hands in, if it is one. -/
def handed : Call T → Option T
  | .payload _ _ value => some value
  | _ => none

theorem apply_ledger (b : SlotTimestampBuffer T) (h : b.waiting.Books) (c : Call T) :
    (c.apply b).2.waiting.Books ∧
      SlotTimestampBuffer.payloads (c.apply b).1 + (c.apply b).2.held =
        (c.handed.toList : Multiset T) + b.held := by
  cases c with
  | payload slot bank value =>
    obtain ⟨hb, he⟩ := b.onPayload_ledger h slot bank value
    exact ⟨hb, he.trans (by simp [handed])⟩
  | blockTime slot bank instant =>
    have hs := SlotTimestampBuffer.settle_ledger
      { b with known := b.known.resolve slot bank instant } h slot
    exact ⟨hs.1, hs.2.trans (by simp [handed, SlotTimestampBuffer.held])⟩
  | slotUnresolvable slot bank =>
    have hs := SlotTimestampBuffer.settle_ledger { b with known := b.known.giveUp slot bank } h slot
    exact ⟨hs.1, hs.2.trans (by simp [handed, SlotTimestampBuffer.held])⟩
  | finalized slot bank =>
    have hs := SlotTimestampBuffer.settle_ledger { b with known := b.known.keep slot bank } h slot
    exact ⟨hs.1, hs.2.trans (by simp [handed, SlotTimestampBuffer.held])⟩

end Call

namespace BufferRun

/-- The payloads returned as resolved. -/
def resolved (r : BufferRun T) : List T := r.returned.map (fun x => x.2.payload)

/-- The payloads behind the eviction counter. -/
def evicted (r : BufferRun T) : List T :=
  r.buffer.waiting.metrics.evictions.map (fun e => e.2.payload)

/-- The payloads behind the losing-bank counter. -/
def lost (r : BufferRun T) : List T := r.buffer.waiting.metrics.losses.map Held.payload

/-- The payloads still waiting, slot by slot. -/
def waiting (r : BufferRun T) : List T :=
  (r.buffer.waiting.pending.entries.flatMap Prod.snd).map Held.payload

theorem held_eq (r : BufferRun T) :
    r.buffer.held = r.waiting + r.evicted + r.lost := by
  simp [SlotTimestampBuffer.held, WaitingSlots.held, waiting, evicted, lost, OrdMap.flat,
    Function.comp_def]

theorem step_ledger (r : BufferRun T) (h : r.buffer.waiting.Books) (c : Call T) :
    (r.step c).buffer.waiting.Books ∧
      (r.step c).resolved + (r.step c).buffer.held =
        (c.handed.toList : Multiset T) + (r.resolved + r.buffer.held) := by
  obtain ⟨hb, he⟩ := c.apply_ledger r.buffer h
  refine ⟨hb, ?_⟩
  have hr : ((r.step c).resolved : Multiset T) =
      r.resolved + SlotTimestampBuffer.payloads (c.apply r.buffer).1 := by
    simp [resolved, step, SlotTimestampBuffer.payloads, Function.comp_def]
  rw [hr, add_assoc]
  change _ + (_ + (c.apply r.buffer).2.held) = _
  rw [he]
  abel

/-- Along every run the books are kept: what was handed in is what was returned, what the
counters stand for, and what waits. -/
theorem exec_ledger (slots payloads known : Nat) (calls : List (Call T)) :
    (exec (.withBounds slots payloads known) calls).buffer.waiting.Books ∧
      ((exec (.withBounds slots payloads known) calls).resolved : Multiset T) +
        (exec (.withBounds slots payloads known) calls).buffer.held =
        (calls.filterMap Call.handed : List T) := by
  induction calls using List.reverseRecOn with
  | nil => exact ⟨WaitingSlots.Books.new slots payloads, rfl⟩
  | append_singleton calls c ih =>
    have hstep := step_ledger _ ih.1 c
    rw [exec, List.foldl_append]
    refine ⟨hstep.1, hstep.2.trans ?_⟩
    have hone : [c].filterMap Call.handed = c.handed.toList := by
      cases hc : c.handed <;> simp [hc]
    rw [ih.2, List.filterMap_append, hone, ← Multiset.coe_add, add_comm]

/-- No payload is lost uncounted and none is duplicated: after any calls, under any bounds and
with any banks, the payloads handed in are those returned, those behind the eviction counter,
those behind the losing-bank counter and those waiting, each in one of these groups. -/
theorem exec_accounts (slots payloads known : Nat) (calls : List (Call T)) :
    let r := exec (.withBounds slots payloads known) calls
    let m := r.buffer.waiting.metrics
    let handed := calls.filterMap Call.handed
    handed.length = r.resolved.length +
        (m.evicted .slotBound + m.evicted .payloadBound + m.evicted .unresolvable) +
        m.losingBank + r.buffer.waiting.count ∧
      r.evicted.length = m.evicted .slotBound + m.evicted .payloadBound + m.evicted .unresolvable ∧
      r.lost.length = m.losingBank ∧
      r.waiting.length = r.buffer.waiting.count ∧
      (r.resolved ++ r.evicted ++ r.lost ++ r.waiting).Perm handed ∧
      (handed.Nodup → (r.resolved ++ r.evicted ++ r.lost ++ r.waiting).Nodup) := by
  intro r m handed
  obtain ⟨hbooks, hledger⟩ := exec_ledger slots payloads known calls
  have hperm : (r.resolved ++ r.evicted ++ r.lost ++ r.waiting).Perm handed := by
    rw [← Multiset.coe_eq_coe, ← hledger, held_eq]
    simp only [← Multiset.coe_add]
    change (r.resolved + r.evicted + r.lost + r.waiting : Multiset T) =
      r.resolved + (r.waiting + r.evicted + r.lost)
    abel
  have hevicted : r.evicted.length =
      m.evicted .slotBound + m.evicted .payloadBound + m.evicted .unresolvable := by
    rw [evicted, List.length_map]
    exact hbooks.metrics.evictions_length
  have hlost : r.lost.length = m.losingBank := by
    rw [lost, List.length_map]
    exact hbooks.metrics.losing.symm
  have hwaiting : r.waiting.length = r.buffer.waiting.count := by
    rw [waiting, List.length_map]
    exact hbooks.count.symm
  refine ⟨?_, hevicted, hlost, hwaiting, hperm, fun h => hperm.nodup_iff.mpr h⟩
  have hlen := hperm.length_eq
  simp only [List.length_append, hevicted, hlost, hwaiting] at hlen
  omega

end BufferRun

end YogSothoth.Grpc
