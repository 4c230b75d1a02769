import YogSothoth.Grpc.Forgetting

namespace YogSothoth.Grpc

variable {T : Type*}

/-- The call on a buffer that forgets no slot. -/
def Call.applyUnforgetting (b : SlotTimestampBuffer T) (c : Call T) :
    List (Resolved T) × SlotTimestampBuffer T :=
  match c with
  | .payload slot bank value =>
    let (resolved, b) := b.onPayload slot bank value
    (resolved.toList, b)
  | .blockTime slot _ _ | .slotUnresolvable slot _ | .finalized slot _ =>
    { b with known := c.noted b.known }.settle slot

namespace BufferRun

/-- The run of a buffer that forgets no slot. -/
def stepUnforgetting (r : BufferRun T) (c : Call T) : BufferRun T :=
  let (resolved, buffer) := c.applyUnforgetting r.buffer
  ⟨buffer, r.returned ++ resolved.map (fun x => (c.slot, x))⟩

def execUnforgetting (b : SlotTimestampBuffer T) (calls : List (Call T)) : BufferRun T :=
  calls.foldl stepUnforgetting ⟨b, []⟩

end BufferRun

namespace SlotTimestampBuffer

section SameFacts

variable {b u : SlotTimestampBuffer T} {slot : Nat}

/-- The same facts of a slot settle alike queues alike. -/
theorem settle_twins (h : b.waiting.Alike u.waiting)
    (hfacts : b.known.facts.get? slot = u.known.facts.get? slot) :
    (b.settle slot).1 = (u.settle slot).1 ∧
      b.waiting.Twins u.waiting (b.settle slot).2.waiting (u.settle slot).2.waiting := by
  have hkept : b.known.kept slot = u.known.kept slot := by
    rw [KnownSlots.kept, KnownSlots.kept, hfacts]
  have htime : b.known.time slot = u.known.time slot := by
    rw [KnownSlots.time, KnownSlots.time, hfacts]
  unfold settle
  rw [hkept, htime]
  cases u.known.kept slot with
  | none => exact ⟨rfl, h.observe slot⟩
  | some kept =>
    have hdrop := h.dropLosing slot (fun held => !kept.admits held.bank)
    obtain ⟨hreleased, hrelease⟩ := hdrop.alike.release slot
    cases u.known.time slot with
    | none => exact ⟨rfl, hdrop.trans (hdrop.alike.observe slot)⟩
    | some outcome =>
      cases outcome with
      | «at» instant =>
        refine ⟨?_, hdrop.trans hrelease⟩
        simp only
        rw [hreleased]
      | givenUp => exact ⟨rfl, hdrop.trans (hdrop.alike.giveUp slot)⟩

theorem onPayload_twins (h : b.waiting.Alike u.waiting)
    (hfacts : b.known.facts.get? slot = u.known.facts.get? slot) (bank : Bank) (payload : T) :
    (b.onPayload slot bank payload).1 = (u.onPayload slot bank payload).1 ∧
      b.waiting.Twins u.waiting (b.onPayload slot bank payload).2.waiting
        (u.onPayload slot bank payload).2.waiting := by
  have hsettlement : b.known.settlement slot bank = u.known.settlement slot bank := by
    rw [KnownSlots.settlement, KnownSlots.settlement, hfacts]
  obtain ⟨m, hm⟩ := h
  unfold onPayload
  rw [hsettlement]
  cases u.known.settlement slot bank with
  | pending => exact ⟨rfl, WaitingSlots.Alike.push ⟨m, hm⟩ slot ⟨bank, payload⟩⟩
  | losing =>
    refine ⟨rfl, ⟨u.waiting.metrics.recordLosingBank 1 [⟨bank, payload⟩], ?_⟩, _, _,
      Metrics.adds_recordLosingBank _ _ _, Metrics.adds_recordLosingBank _ _ _⟩
    rw [hm]
  | settled outcome =>
    cases outcome with
    | «at» instant => exact ⟨rfl, WaitingSlots.Twins.refl ⟨m, hm⟩⟩
    | givenUp =>
      refine ⟨rfl, ⟨u.waiting.metrics.recordEvicted 1 .unresolvable [⟨bank, payload⟩], ?_⟩, _, _,
        Metrics.adds_recordEvicted _ _ _ _, Metrics.adds_recordEvicted _ _ _ _⟩
      rw [hm]

theorem onPayload_frame (b : SlotTimestampBuffer T) (slot : Nat) (bank : Bank) (payload : T) :
    b.waiting.SameFrame (b.onPayload slot bank payload).2.waiting ∨
      (b.waiting.see slot).SameFrame (b.onPayload slot bank payload).2.waiting := by
  unfold onPayload
  split
  · exact .inl ⟨rfl, rfl, rfl⟩
  · exact .inl ⟨rfl, rfl, rfl⟩
  · exact .inl ⟨rfl, rfl, rfl⟩
  · exact .inr (b.waiting.push_frame slot ⟨bank, payload⟩)

theorem onPayload_known (b : SlotTimestampBuffer T) (slot : Nat) (bank : Bank) (payload : T) :
    (b.onPayload slot bank payload).2.known = b.known := by
  unfold onPayload
  split <;> rfl

end SameFacts

/-- A buffer that forgets and one that does not: the same queue, the same facts in the window. -/
structure Beside (b u : SlotTimestampBuffer T) : Prop where
  forgetting : b.Windowed
  unforgetting : u.Windowed
  alike : b.waiting.Alike u.waiting
  room : b.known.maxKnownSlots = b.waiting.maxPendingSlots + 1
  facts : ∀ s, b.waiting.InWindow s → b.known.facts.get? s = u.known.facts.get? s

section Step

variable {b u : SlotTimestampBuffer T} {slot : Nat}

theorem late_of_not_inWindow {w : WaitingSlots T} (h : ¬(w.see slot).InWindow slot) :
    w.Late slot := by
  have hseen : w.Seen slot := by
    by_contra hnew
    apply h
    cases hhead : w.headSlot with
    | none => exact ⟨slot, by rw [WaitingSlots.see, hhead]; rfl, le_refl slot, Nat.le_add_right _ _⟩
    | some head =>
      have hlt : head < slot := by
        by_contra hle
        exact hnew ⟨head, hhead, not_lt.mp hle⟩
      refine ⟨slot, ?_, le_refl slot, Nat.le_add_right _ _⟩
      rw [WaitingSlots.see, hhead]
      exact congrArg some (Nat.max_eq_right hlt.le)
  refine ⟨hseen, ?_⟩
  rw [hseen.see_eq] at h
  exact h

/-- A slot in the window once another is seen has the same facts already. -/
theorem Beside.facts_see (h : Beside b u) {s : Nat} (hs : (b.waiting.see slot).InWindow s) :
    b.known.facts.get? s = u.known.facts.get? s := by
  by_cases hseen : b.waiting.Seen s
  · exact h.facts s (hs.of_see hseen)
  · have hnone : b.known.facts.get? s = none :=
      OrdMap.get?_eq_none.mpr (fun hkey => hseen (h.forgetting.known s hkey))
    have hnone' : u.known.facts.get? s = none :=
      OrdMap.get?_eq_none.mpr (fun hkey =>
        hseen (h.alike.frame.seen.mp (h.unforgetting.known s hkey)))
    rw [hnone, hnone']

/-- The trim forgets no slot of the window. -/
theorem Beside.facts_trim (h : Beside b u) (f : Facts → Facts) {s : Nat}
    (hs : (b.waiting.see slot).InWindow s) :
    (b.known.edit slot f).trim.facts.get? s = (u.known.edit slot f).facts.get? s := by
  obtain ⟨head, hhead, hle, hwindow⟩ := hs
  have hkeys : ∀ k ∈ (b.known.edit slot f).facts.keys, k ≤ head := by
    intro k hk
    have hseen : (b.waiting.see slot).Seen k := by
      cases OrdMap.mem_keys_insert.mp hk with
      | inl hslot => exact hslot ▸ b.waiting.seen_see slot
      | inr hold => exact (h.forgetting.known k hold).see slot
    obtain ⟨head', hhead', hle'⟩ := hseen
    rw [hhead] at hhead'
    exact (Option.some.inj hhead') ▸ hle'
  have hroom : head < s + (b.known.edit slot f).maxKnownSlots := by
    change head < s + b.known.maxKnownSlots
    rw [h.room]
    exact Nat.lt_succ_of_le hwindow
  have htrim : (b.known.edit slot f).trim.facts.get? s = (b.known.edit slot f).facts.get? s :=
    OrdMap.get?_dropFirst hkeys hroom
  have hsame := h.facts_see ⟨head, hhead, hle, hwindow⟩
  rw [htrim]
  simp only [KnownSlots.edit, OrdMap.get?_insert, OrdMap.getD]
  split_ifs with hslot
  · rw [← hslot, hsame]
  · exact hsame

theorem mem_trim_edit {k : KnownSlots} {f : Facts → Facts} {s : Nat}
    (hs : s ∈ (k.edit slot f).trim.facts.keys) : s = slot ∨ s ∈ k.facts.keys := by
  obtain ⟨e, he, hes⟩ := List.mem_map.mp hs
  have hkey : e.1 ∈ (k.edit slot f).facts.keys := List.mem_map_of_mem (OrdMap.mem_dropFirst he)
  rw [hes] at hkey
  exact OrdMap.mem_keys_insert.mp hkey

/-- A fact learnt and settled by both keeps them beside each other. -/
theorem Beside.settle (h : Beside b u) (slot : Nat) (f : Facts → Facts) :
    let b' := ({ b with known := (b.known.edit slot f).trim } : SlotTimestampBuffer T).settle slot
    let u' := ({ u with known := u.known.edit slot f } : SlotTimestampBuffer T).settle slot
    Beside b'.2 u'.2 ∧ (b'.2.waiting.InWindow slot →
      b'.1 = u'.1 ∧ b.waiting.Twins u.waiting b'.2.waiting u'.2.waiting) := by
  intro b' u'
  have hframe : (b.waiting.see slot).SameFrame b'.2.waiting :=
    settle_frame { b with known := (b.known.edit slot f).trim } slot
  have hknown : b'.2.known = (b.known.edit slot f).trim := settle_known _ slot
  have hknown' : u'.2.known = u.known.edit slot f := settle_known _ slot
  have halike : b'.2.waiting.Alike u'.2.waiting ∧ (b'.2.waiting.InWindow slot →
      b'.1 = u'.1 ∧ b.waiting.Twins u.waiting b'.2.waiting u'.2.waiting) := by
    by_cases hslot : (b.waiting.see slot).InWindow slot
    · have htwins : b'.1 = u'.1 ∧ b.waiting.Twins u.waiting b'.2.waiting u'.2.waiting :=
        settle_twins (b := { b with known := (b.known.edit slot f).trim })
          (u := { u with known := u.known.edit slot f }) h.alike (h.facts_trim f hslot)
      exact ⟨htwins.2.alike, fun _ => htwins⟩
    · have hlate := late_of_not_inWindow hslot
      have hlate' : u.waiting.Late slot :=
        ⟨h.alike.frame.seen.mpr hlate.1, fun hin => hlate.2 (h.alike.frame.inWindow.mp hin)⟩
      have hleft := (settle_late h.forgetting (b.known.edit slot f).trim hlate).2
      have hleft' := (settle_late h.unforgetting (u.known.edit slot f) hlate').2
      exact ⟨hleft.symm.trans (h.alike.trans hleft'),
        fun hin => absurd (hframe.inWindow.mp hin) hslot⟩
  refine ⟨⟨h.forgetting.settle (fun s hs => mem_trim_edit hs),
    h.unforgetting.settle (fun s hs => OrdMap.mem_keys_insert.mp hs), halike.1, ?_, ?_⟩, halike.2⟩
  · rw [hknown, hframe.slots]
    exact h.room
  · intro s hs
    rw [hknown, hknown']
    exact h.facts_trim f (hframe.inWindow.mp hs)

theorem Beside.onPayload (h : Beside b u) (slot : Nat) (bank : Bank) (payload : T) :
    Beside (b.onPayload slot bank payload).2 (u.onPayload slot bank payload).2 ∧
      ((b.onPayload slot bank payload).2.waiting.InWindow slot →
        (b.onPayload slot bank payload).1 = (u.onPayload slot bank payload).1 ∧
        b.waiting.Twins u.waiting (b.onPayload slot bank payload).2.waiting
          (u.onPayload slot bank payload).2.waiting) := by
  have hfacts : ∀ s, (b.onPayload slot bank payload).2.waiting.InWindow s →
      (b.waiting.see slot).InWindow s ∨ b.waiting.InWindow s := by
    intro s hs
    cases b.onPayload_frame slot bank payload with
    | inl hframe => exact .inr (hframe.inWindow.mp hs)
    | inr hframe => exact .inl (hframe.inWindow.mp hs)
  have hsame : ∀ s, (b.onPayload slot bank payload).2.waiting.InWindow s →
      b.known.facts.get? s = u.known.facts.get? s := by
    intro s hs
    cases hfacts s hs with
    | inl hsee => exact h.facts_see hsee
    | inr hold => exact h.facts s hold
  have halike : (b.onPayload slot bank payload).2.waiting.Alike
      (u.onPayload slot bank payload).2.waiting := by
    by_cases hslot : (b.waiting.see slot).InWindow slot
    · exact (onPayload_twins h.alike (h.facts_see hslot) bank payload).2.alike
    · have hlate := late_of_not_inWindow hslot
      have hlate' : u.waiting.Late slot :=
        ⟨h.alike.frame.seen.mpr hlate.1, fun hin => hlate.2 (h.alike.frame.inWindow.mp hin)⟩
      exact (onPayload_late h.forgetting hlate bank payload).symm.trans
        (h.alike.trans (onPayload_late h.unforgetting hlate' bank payload))
  refine ⟨⟨h.forgetting.onPayload slot bank payload, h.unforgetting.onPayload slot bank payload,
    halike, ?_, ?_⟩, fun hin => onPayload_twins h.alike (hsame slot hin) bank payload⟩
  · rw [onPayload_known]
    cases b.onPayload_frame slot bank payload with
    | inl hframe => rw [hframe.slots, h.room]
    | inr hframe =>
      rw [hframe.slots]
      exact h.room
  · intro s hs
    rw [onPayload_known, onPayload_known]
    exact hsame s hs

/-- One call on both: beside each other still, and in the window with the same effect. -/
theorem Beside.apply (h : Beside b u) (c : Call T) :
    Beside (c.apply b).2 (c.applyUnforgetting u).2 ∧
      ((c.apply b).2.waiting.InWindow c.slot →
        (c.apply b).1 = (c.applyUnforgetting u).1 ∧
        b.waiting.Twins u.waiting (c.apply b).2.waiting (c.applyUnforgetting u).2.waiting) := by
  cases c with
  | payload slot bank value =>
    obtain ⟨hbeside, hsame⟩ := h.onPayload slot bank value
    refine ⟨hbeside, ?_⟩
    intro hin
    obtain ⟨hreturned, htwins⟩ := hsame hin
    exact ⟨congrArg Option.toList hreturned, htwins⟩
  | blockTime slot bank instant => exact h.settle slot (KnownSlots.resolveFacts bank instant)
  | slotUnresolvable slot bank => exact h.settle slot (KnownSlots.giveUpFacts bank)
  | finalized slot bank => exact h.settle slot (KnownSlots.keepFacts bank)

theorem apply_maxPendingSlots (b : SlotTimestampBuffer T) (c : Call T) :
    (c.apply b).2.waiting.maxPendingSlots = b.waiting.maxPendingSlots := by
  cases c with
  | payload slot bank value =>
    cases b.onPayload_frame slot bank value with
    | inl hframe => exact hframe.slots
    | inr hframe => exact hframe.slots
  | blockTime slot bank instant =>
    exact (settle_frame { b with known := b.known.resolve slot bank instant } slot).slots
  | slotUnresolvable slot bank =>
    exact (settle_frame { b with known := b.known.giveUp slot bank } slot).slots
  | finalized slot bank =>
    exact (settle_frame { b with known := b.known.keep slot bank } slot).slots

end Step

end SlotTimestampBuffer

namespace BufferRun

theorem exec_concat (b : SlotTimestampBuffer T) (calls : List (Call T)) (c : Call T) :
    exec b (calls ++ [c]) = (exec b calls).step c := List.foldl_concat _ _ _ _

theorem execUnforgetting_concat (b : SlotTimestampBuffer T) (calls : List (Call T)) (c : Call T) :
    execUnforgetting b (calls ++ [c]) = (execUnforgetting b calls).stepUnforgetting c :=
  List.foldl_concat _ _ _ _

theorem exec_beside (slots payloads : Nat) (calls : List (Call T)) :
    (exec (.withBounds slots payloads (slots + 1)) calls).buffer.Beside
      (execUnforgetting (.withBounds slots payloads (slots + 1)) calls).buffer := by
  induction calls using List.reverseRecOn with
  | nil =>
    exact ⟨.withBounds _ _ _, .withBounds _ _ _, WaitingSlots.Alike.refl _, rfl, fun _ _ => rfl⟩
  | append_singleton calls c ih =>
    rw [exec_concat, execUnforgetting_concat]
    exact (ih.apply c).1

theorem exec_maxPendingSlots (b : SlotTimestampBuffer T) (calls : List (Call T)) :
    (exec b calls).buffer.waiting.maxPendingSlots = b.waiting.maxPendingSlots := by
  induction calls using List.reverseRecOn with
  | nil => rfl
  | append_singleton calls c ih =>
    rw [exec_concat]
    exact (SlotTimestampBuffer.apply_maxPendingSlots _ c).trans ih

/-- With room for the whole window, head included, forgetting changes nothing in the window. -/
theorem exec_window (slots payloads : Nat) (calls : List (Call T)) :
    let b := (exec (.withBounds slots payloads (slots + 1)) calls).buffer
    let u := (execUnforgetting (.withBounds slots payloads (slots + 1)) calls).buffer
    (∀ head s, b.waiting.headSlot = some head → s ≤ head → head ≤ s + slots →
      b.known.facts.get? s = u.known.facts.get? s) ∧
    b.waiting.headSlot = u.waiting.headSlot ∧ b.waiting.pending = u.waiting.pending ∧
    ∀ (c : Call T) (head : Nat), (c.apply b).2.waiting.headSlot = some head → c.slot ≤ head →
      head ≤ c.slot + slots →
      (c.apply b).1 = (c.applyUnforgetting u).1 ∧
      ∃ evicted losing, b.waiting.metrics.Adds evicted losing (c.apply b).2.waiting.metrics ∧
        u.waiting.metrics.Adds evicted losing (c.applyUnforgetting u).2.waiting.metrics := by
  intro b u
  have h : b.Beside u := exec_beside slots payloads calls
  have hslots : b.waiting.maxPendingSlots = slots := exec_maxPendingSlots _ calls
  refine ⟨?_, h.alike.frame.head.symm, h.alike.pending.symm, ?_⟩
  · intro head s hhead hle hwindow
    exact h.facts s ⟨head, hhead, hle, by rw [hslots]; exact hwindow⟩
  intro c head hhead hle hwindow
  have hslots' := (SlotTimestampBuffer.apply_maxPendingSlots b c).trans hslots
  obtain ⟨hreturned, htwins⟩ :=
    (h.apply c).2 ⟨head, hhead, hle, by rw [hslots']; exact hwindow⟩
  exact ⟨hreturned, htwins.counts⟩

end BufferRun

end YogSothoth.Grpc
