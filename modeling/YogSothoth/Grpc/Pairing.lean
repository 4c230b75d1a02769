import YogSothoth.Grpc.Messages

namespace YogSothoth.Grpc

variable {T : Type*}

/-- The payloads of slot `s`, in arrival order. -/
def heldOf (ms : List (Message T)) (s : Nat) : List (Held T) := ms.filterMap (Message.held s)

/-- Those of them in bank `b`. -/
def bankOf (ms : List (Message T)) (s b : Nat) : List (Held T) :=
  (heldOf ms s).filter (fun h => (Bank.id b).admits h.bank)

/-- What still waits for slot `s`. -/
def waitingOf (ms : List (Message T)) (s : Nat) : List (Held T) :=
  match keptBank ms s with
  | none => heldOf ms s
  | some b => if (instantOf ms s b).isSome then [] else bankOf ms s b

/-- What the messages say is to be returned of the payloads `held` of slot `s`. -/
def owed (ms : List (Message T)) (s : Nat) (held : List (Held T)) : List (Resolved T) :=
  match keptBank ms s with
  | none => []
  | some b =>
    match instantOf ms s b with
    | none => []
    | some i => (held.filter (fun h => (Bank.id b).admits h.bank)).map (fun h => ⟨h.payload, i⟩)

/-- What has been returned of slot `s`. -/
def returnedOf (ms : List (Message T)) (s : Nat) : List (Resolved T) := owed ms s (heldOf ms s)

theorem owed_append (ms : List (Message T)) (s : Nat) (held held' : List (Held T)) :
    owed ms s (held ++ held') = owed ms s held ++ owed ms s held' := by
  unfold owed
  cases keptBank ms s with
  | none => rfl
  | some kept => cases h : instantOf ms s kept <;> simp [h]

@[simp] theorem owed_nil (ms : List (Message T)) (s : Nat) : owed ms s [] = [] := by
  unfold owed
  cases keptBank ms s with
  | none => rfl
  | some kept => cases h : instantOf ms s kept <;> simp [h]

theorem heldOf_concat (ms : List (Message T)) (m : Message T) (s : Nat) :
    heldOf (ms ++ [m]) s = heldOf ms s ++ (m.held s).toList := by
  cases h : m.held s <;> simp [heldOf, h]

theorem bankOf_concat (ms : List (Message T)) (m : Message T) (s b : Nat) :
    bankOf (ms ++ [m]) s b =
      bankOf ms s b ++ (m.held s).toList.filter (fun h => (Bank.id b).admits h.bank) := by
  rw [bankOf, heldOf_concat, List.filter_append, bankOf]

section OtherSlot

variable {m : Message T} {s : Nat}

theorem Message.keeps_of_ne (h : m.slot ≠ s) : m.keeps s = none := by
  cases m <;> simp_all [keeps, slot]

theorem Message.times_of_ne (h : m.slot ≠ s) (b : Nat) : m.times s b = none := by
  cases m <;> simp_all [times, slot]

theorem Message.held_of_ne (h : m.slot ≠ s) : m.held s = none := by
  cases m <;> simp_all [held, slot]

theorem waitingOf_concat_of_ne (ms : List (Message T)) (h : m.slot ≠ s) :
    waitingOf (ms ++ [m]) s = waitingOf ms s := by
  simp [waitingOf, keptBank_concat, instantOf_concat, heldOf_concat, bankOf_concat,
    Message.keeps_of_ne h, Message.times_of_ne h, Message.held_of_ne h]

theorem returnedOf_concat_of_ne (ms : List (Message T)) (h : m.slot ≠ s) :
    returnedOf (ms ++ [m]) s = returnedOf ms s := by
  simp [returnedOf, owed, keptBank_concat, instantOf_concat, heldOf_concat,
    Message.keeps_of_ne h, Message.times_of_ne h, Message.held_of_ne h]

end OtherSlot

namespace SlotTimestampBuffer

variable {b : SlotTimestampBuffer T} {ms : List (Message T)}

theorem push_waitingFor (hb : b.waiting.Books) {slot : Nat} {h : Held T}
    (hq : (b.waiting.push slot h).boundEvictions = b.boundEvictions) (s : Nat) :
    ({ b with waiting := b.waiting.push slot h } : SlotTimestampBuffer T).waitingFor s =
      if s = slot then b.waitingFor slot ++ [h] else b.waitingFor s := by
  simp only [waitingFor]
  rw [WaitingSlots.push_quiet hb hq]
  simp only [OrdMap.getD, OrdMap.get?_insert]
  split_ifs <;> rfl

/-- A payload waits or leaves as the messages before it say. -/
theorem onPayload_fits (hb : b.waiting.Books) (hk : b.known.Fit ms) (hc : Consistent ms)
    (hw : ∀ s, b.waitingFor s = waitingOf ms s) {slot bank : Nat} {value : T}
    (hq : (b.onPayload slot (.id bank) value).2.boundEvictions = b.boundEvictions) :
    (b.onPayload slot (.id bank) value).2.waitingFor slot =
        waitingOf (ms ++ [.payload slot bank value]) slot ∧
      (∀ s, s ≠ slot → (b.onPayload slot (.id bank) value).2.waitingFor s = b.waitingFor s) ∧
      returnedOf (ms ++ [.payload slot bank value]) slot =
        returnedOf ms slot ++ (b.onPayload slot (.id bank) value).1.toList := by
  have hset := hk.settlement hc slot bank
  have hws := hw slot
  unfold onPayload at hq ⊢
  simp only [waitingOf, returnedOf, owed, keptBank_concat, instantOf_concat, heldOf_concat, bankOf_concat,
    Message.keeps, Message.times, Message.held, if_true, Option.or_none, Option.toList_some]
  cases hkept : keptBank ms slot with
  | none =>
    simp only [hkept, Option.elim_none] at hset
    simp only [hset] at hq ⊢
    refine ⟨?_, fun s hs => ?_, by simp⟩
    · rw [push_waitingFor hb hq, if_pos rfl, hws, waitingOf, hkept]
    · rw [push_waitingFor hb hq, if_neg hs]
  | some kept =>
    by_cases hbank : kept = bank
    · subst hbank
      cases hi : instantOf ms slot kept with
      | none =>
        simp only [hkept, hi, Option.elim_some, if_true, Option.elim_none] at hset
        simp only [hset, hi] at hq ⊢
        refine ⟨?_, fun s hs => ?_, rfl⟩
        · rw [push_waitingFor hb hq, if_pos rfl, hws]
          simp [waitingOf, hkept, hi]
        · rw [push_waitingFor hb hq, if_neg hs]
      | some i =>
        simp only [hkept, hi, Option.elim_some, if_true] at hset
        simp only [hset, hi]
        refine ⟨?_, fun s hs => trivial, by simp⟩
        rw [hws]
        simp [waitingOf, hkept, hi]
    · simp only [hkept, Option.elim_some, if_neg hbank] at hset
      simp only [hset]
      refine ⟨?_, fun s hs => rfl, by simp [hbank]⟩
      change b.waitingFor slot = _
      rw [hws]
      simp [waitingOf, hkept, hbank]

/-- A fact about a slot releases and drops what the messages say. -/
theorem settle_fits (hb : b.waiting.Books) {m : Message T} (hheld : m.held m.slot = none)
    (hk : b.known.Fit (ms ++ [m])) (hc : Consistent (ms ++ [m]))
    (hw : ∀ s, b.waitingFor s = waitingOf ms s)
    (hq : (b.settle m.slot).2.boundEvictions = b.boundEvictions) :
    (b.settle m.slot).2.waitingFor m.slot = waitingOf (ms ++ [m]) m.slot ∧
      (∀ s, s ≠ m.slot → (b.settle m.slot).2.waitingFor s = b.waitingFor s) ∧
      returnedOf (ms ++ [m]) m.slot = returnedOf ms m.slot ++ (b.settle m.slot).1 := by
  have hup : b.known.time m.slot ≠ some .givenUp := by
    rw [hk.time hc]
    cases keptBank (ms ++ [m]) m.slot with
    | none => simp
    | some kept => cases instantOf (ms ++ [m]) m.slot kept <;> simp
  have hsettle := settle_quiet hb hq hup
  have hheldOf : heldOf (ms ++ [m]) m.slot = heldOf ms m.slot := by
    rw [heldOf_concat, hheld, Option.toList_none, List.append_nil]
  have hrest := (hsettle m.slot).2
  have hnew := (hsettle m.slot).1
  rw [if_pos rfl] at hrest
  rw [hk.kept, hk.time hc, hw] at hrest hnew
  suffices h : (b.settle m.slot).2.waitingFor m.slot = waitingOf (ms ++ [m]) m.slot ∧
      returnedOf (ms ++ [m]) m.slot = returnedOf ms m.slot ++ (b.settle m.slot).1 from
    ⟨h.1, fun s hs => by rw [(hsettle s).2, if_neg hs], h.2⟩
  rw [hrest, hnew]
  simp only [waitingOf, returnedOf, owed, bankOf, hheldOf]
  cases hkept : keptBank (ms ++ [m]) m.slot with
  | none =>
    have hkept' : keptBank ms m.slot = none := by
      rw [keptBank_concat, Option.or_eq_none_iff] at hkept
      exact hkept.1
    simp [hkept']
  | some kept =>
    have hkept' : keptBank ms m.slot = none ∨ keptBank ms m.slot = some kept := by
      rw [keptBank_concat, Option.or_eq_some_iff] at hkept
      rcases hkept with h | ⟨h, -⟩
      · exact Or.inr h
      · exact Or.inl h
    cases hi : instantOf (ms ++ [m]) m.slot kept with
    | none =>
      have hi' : instantOf ms m.slot kept = none := by
        rw [instantOf_concat, Option.or_eq_none_iff] at hi
        exact hi.1
      rcases hkept' with hkept' | hkept' <;> simp [hkept', hi, hi']
    | some i =>
      have hi' : instantOf ms m.slot kept = none ∨ instantOf ms m.slot kept = some i := by
        rw [instantOf_concat, Option.or_eq_some_iff] at hi
        rcases hi with h | ⟨h, -⟩
        · exact Or.inr h
        · exact Or.inl h
      rcases hkept' with hkept' | hkept' <;> rcases hi' with hi' | hi' <;> simp [hkept', hi, hi']

end SlotTimestampBuffer

theorem Call.Quiet.known_eq {b : SlotTimestampBuffer T} {c : Call T} (hq : c.Quiet b) :
    (c.apply b).2.known = c.noted b.known := by
  have settle_known (b : SlotTimestampBuffer T) (slot : Nat) : (b.settle slot).2.known = b.known := by
    unfold SlotTimestampBuffer.settle
    split
    · rfl
    · split <;> rfl
  cases c with
  | payload slot bank value =>
    simp only [Call.apply, SlotTimestampBuffer.onPayload]
    split <;> rfl
  | blockTime slot bank instant => exact (settle_known _ _).trans (KnownSlots.trim_of_le hq.known)
  | slotUnresolvable slot bank => exact (settle_known _ _).trans (KnownSlots.trim_of_le hq.known)
  | finalized slot bank => exact (settle_known _ _).trans (KnownSlots.trim_of_le hq.known)

/-- What a message of the stream does to the buffer, in the messages' own terms. -/
theorem Message.apply_fits {b : SlotTimestampBuffer T} {ms : List (Message T)} {m : Message T}
    (hb : b.waiting.Books) (hk : b.known.Fit ms) (hc : Consistent (ms ++ [m]))
    (hw : ∀ s, b.waitingFor s = waitingOf ms s) (hq : m.call.Quiet b) :
    (m.call.apply b).2.waitingFor m.slot = waitingOf (ms ++ [m]) m.slot ∧
      (∀ s, s ≠ m.slot → (m.call.apply b).2.waitingFor s = b.waitingFor s) ∧
      returnedOf (ms ++ [m]) m.slot = returnedOf ms m.slot ++ (m.call.apply b).1 := by
  have hnoted := hk.noted m hc
  cases m with
  | payload slot bank value =>
    exact SlotTimestampBuffer.onPayload_fits hb hk (hc.of_subset (List.subset_append_left _ _)) hw
      hq.evictions
  | blockMeta slot bank instant =>
    have htrim := KnownSlots.trim_of_le hq.known
    refine SlotTimestampBuffer.settle_fits (b := ⟨b.waiting, b.known.resolve slot (.id bank) instant⟩)
      hb rfl ?_ hc hw hq.evictions
    rw [KnownSlots.resolve]
    exact htrim ▸ hnoted
  | finalized slot bank =>
    have htrim := KnownSlots.trim_of_le hq.known
    refine SlotTimestampBuffer.settle_fits (b := ⟨b.waiting, b.known.keep slot (.id bank)⟩)
      hb rfl ?_ hc hw hq.evictions
    rw [KnownSlots.keep]
    exact htrim ▸ hnoted

namespace BufferRun

/-- What was returned under slot `s`, in the order of return. -/
def returnedFor (r : BufferRun T) (s : Nat) : List (Resolved T) :=
  (r.returned.filter (fun x => x.1 = s)).map Prod.snd

theorem returnedFor_keyed (r : BufferRun T) (s : Nat) :
    (r.returnedFor s).map (fun x => (s, x)) = r.returned.filter (fun x => x.1 = s) := by
  unfold returnedFor
  rw [List.map_map]
  conv_rhs => rw [← List.map_id (r.returned.filter (fun x => x.1 = s))]
  apply List.map_congr_left
  intro x hx
  have hs : x.1 = s := by simpa using (List.mem_filter.mp hx).2
  rw [← hs]
  rfl

/-- The run is where the messages say. -/
structure Fit (r : BufferRun T) (ms : List (Message T)) : Prop where
  books : r.buffer.waiting.Books
  known : r.buffer.known.Fit ms
  waiting : ∀ s, r.buffer.waitingFor s = waitingOf ms s
  returned : ∀ s, r.returnedFor s = returnedOf ms s

theorem Fit.new (slots payloads known : Nat) :
    (⟨.withBounds slots payloads known, []⟩ : BufferRun T).Fit [] :=
  ⟨.new slots payloads, fun _ => ⟨rfl, by simp [KnownSlots.factsOf, OrdMap.getD, KnownSlots.new,
    SlotTimestampBuffer.withBounds, Facts.default], by simp⟩, fun _ => rfl, fun _ => rfl⟩

theorem returnedFor_step (r : BufferRun T) (c : Call T) (s : Nat) :
    (r.step c).returnedFor s =
      r.returnedFor s ++ (if c.slot = s then (c.apply r.buffer).1 else []) := by
  simp only [returnedFor, step, List.filter_append, List.map_append, List.append_cancel_left_eq]
  split_ifs with hs
  · simp [List.filter_map, Function.comp_def, hs]
  · simp [List.filter_map, Function.comp_def, hs]

theorem Fit.step {r : BufferRun T} {ms : List (Message T)} (hr : r.Fit ms) {m : Message T}
    (hc : Consistent (ms ++ [m])) (hq : m.call.Quiet r.buffer) : (r.step m.call).Fit (ms ++ [m]) := by
  obtain ⟨hslot, hother, hret⟩ := Message.apply_fits hr.books hr.known hc hr.waiting hq
  have hcall : m.call.slot = m.slot := by cases m <;> rfl
  refine ⟨(r.step_ledger hr.books m.call).1, ?_, ?_, ?_⟩
  · change (m.call.apply r.buffer).2.known.Fit _
    rw [hq.known_eq]
    exact hr.known.noted m hc
  · intro s
    change (m.call.apply r.buffer).2.waitingFor s = _
    by_cases hs : m.slot = s
    · rw [← hs, hslot]
    · rw [hother s (Ne.symm hs), hr.waiting, waitingOf_concat_of_ne ms hs]
  · intro s
    rw [returnedFor_step, hr.returned, hcall]
    split_ifs with hs
    · rw [← hs, hret]
    · rw [List.append_nil, returnedOf_concat_of_ne ms hs]

theorem exec_fit (slots payloads known : Nat) {ms : List (Message T)} (hc : Consistent ms)
    (hq : WithinBounds ⟨.withBounds slots payloads known, []⟩ (ms.map Message.call)) :
    (exec (.withBounds slots payloads known) (ms.map Message.call)).Fit ms := by
  induction ms using List.reverseRecOn with
  | nil => exact Fit.new slots payloads known
  | append_singleton ms m ih =>
    rw [List.map_append] at hq ⊢
    obtain ⟨hms, hm⟩ := withinBounds_concat hq
    have hfit := ih (hc.of_subset (List.subset_append_left _ _)) hms
    rw [exec, List.foldl_append]
    exact hfit.step hc hm

end BufferRun

theorem paired_slot {ms : List (Message T)} {m : Message T} {x : Nat × Resolved T}
    (h : paired ms m = some x) : x.1 = m.slot := by
  cases m with
  | payload slot bank value =>
    simp only [paired] at h
    split_ifs at h
    obtain ⟨i, -, rfl⟩ := Option.map_eq_some_iff.mp h
    rfl
  | blockMeta slot bank instant => simp [paired] at h
  | finalized slot bank => simp [paired] at h

/-- The pairing of one message, slot by slot. -/
theorem paired_owed (ms : List (Message T)) (m : Message T) (s : Nat) :
    (paired ms m).toList.filter (fun x => x.1 = s) =
      (owed ms s (m.held s).toList).map (fun x => (s, x)) := by
  by_cases hs : m.slot = s
  · subst hs
    cases m with
    | payload slot bank value =>
      simp only [Message.slot, paired, owed, Message.held, if_true]
      cases hk : keptBank ms slot with
      | none => simp
      | some kept =>
        by_cases hb : kept = bank
        · subst hb
          cases hi : instantOf ms slot kept <;> simp [hi]
        · cases hi : instantOf ms slot kept <;> simp [hi, hb]
    | blockMeta slot bank instant => simp [paired, Message.held]
    | finalized slot bank => simp [paired, Message.held]
  · rw [Message.held_of_ne hs, Option.toList_none, owed_nil, List.map_nil, List.filter_eq_nil_iff]
    intro x hx
    have hslot := paired_slot (Option.mem_toList.mp hx)
    simp [hslot, hs]

theorem paired_filter (ms ms' : List (Message T)) (s : Nat) :
    (ms'.filterMap (paired ms)).filter (fun x => x.1 = s) =
      (owed ms s (heldOf ms' s)).map (fun x => (s, x)) := by
  induction ms' using List.reverseRecOn with
  | nil => simp [heldOf]
  | append_singleton ms' m ih =>
    have hlast : [m].filterMap (paired ms) = (paired ms m).toList := by
      cases h : paired ms m <;> simp [h]
    rw [List.filterMap_append, List.filter_append, ih, hlast, paired_owed, heldOf_concat, owed_append,
      List.map_append]

/-- Lists that agree key by key are permutations of each other. -/
theorem perm_of_filter_eq {K V : Type*} [DecidableEq K] {l l' : List (K × V)}
    (h : ∀ k, l.filter (fun x => x.1 = k) = l'.filter (fun x => x.1 = k)) : l.Perm l' := by
  classical
  rw [List.perm_iff_count]
  intro a
  have hcount (l : List (K × V)) : (l.filter (fun x => x.1 = a.1)).count a = l.count a :=
    List.count_filter (by simp)
  rw [← hcount l, ← hcount l', h]

theorem Consistent.mem_paired {ms : List (Message T)} (hc : Consistent ms) {s : Nat} {v : T}
    {i : Instant} : (s, (⟨v, i⟩ : Resolved T)) ∈ ms.filterMap (paired ms) ↔
      ∃ b, .payload s b v ∈ ms ∧ .finalized s b ∈ ms ∧ .blockMeta s b i ∈ ms := by
  rw [List.mem_filterMap]
  constructor
  · rintro ⟨m, hm, hp⟩
    cases m with
    | payload slot bank value =>
      simp only [paired] at hp
      split_ifs at hp with hk
      obtain ⟨i', hi, he⟩ := Option.map_eq_some_iff.mp hp
      simp only [Prod.mk.injEq, Resolved.mk.injEq] at he
      obtain ⟨rfl, rfl, rfl⟩ := he
      exact ⟨bank, hm, keptBank_mem hk, instantOf_mem hi⟩
    | blockMeta slot bank instant => simp [paired] at hp
    | finalized slot bank => simp [paired] at hp
  · rintro ⟨b, hp, hf, hi⟩
    refine ⟨_, hp, ?_⟩
    simp [paired, hc.keptBank_eq_some.mpr hf, hc.instantOf_eq_some.mpr hi]

/-- Slot pairing is order-independent: whatever the order `ms'` of the messages `ms` in which no
bound is exceeded, what is returned is each payload whose bank its slot was finalized under and a
block-meta timed, once and with that instant, in arrival order within a slot. -/
theorem exec_pairs (slots payloads known : Nat) (ms ms' : List (Message T)) (hc : Consistent ms)
    (hp : ms'.Perm ms)
    (hq : WithinBounds ⟨.withBounds slots payloads known, []⟩ (ms'.map Message.call)) :
    let returned := (BufferRun.exec (.withBounds slots payloads known) (ms'.map Message.call)).returned
    returned.Perm (ms.filterMap (paired ms)) ∧
      (∀ s, returned.filter (fun x => x.1 = s) =
        (ms'.filterMap (paired ms)).filter (fun x => x.1 = s)) ∧
      ∀ s v i, (s, ⟨v, i⟩) ∈ returned ↔
        ∃ b, .payload s b v ∈ ms ∧ .finalized s b ∈ ms ∧ .blockMeta s b i ∈ ms := by
  intro returned
  have hfit := BufferRun.exec_fit slots payloads known (hc.of_subset hp.subset) hq
  have hslot (s : Nat) : returned.filter (fun x => x.1 = s) =
      (ms'.filterMap (paired ms)).filter (fun x => x.1 = s) := by
    rw [← hc.paired_eq hp, paired_filter, ← BufferRun.returnedFor_keyed]
    exact congrArg _ (hfit.returned s)
  have hperm : returned.Perm (ms.filterMap (paired ms)) :=
    (perm_of_filter_eq hslot).trans (hp.filterMap _)
  exact ⟨hperm, hslot, fun s v i => by rw [hperm.mem_iff, hc.mem_paired]⟩

/-- Two banks compete for slot 5, and slot 6 is never finalized. -/
def forked : List (Message Nat) :=
  [.payload 5 1 100, .payload 5 2 101, .blockMeta 5 1 7, .finalized 5 1, .payload 6 3 102,
    .payload 5 1 103]

theorem forked_consistent : Consistent forked := by
  refine ⟨?_, ?_⟩
  · intro slot b b' h h'
    simp [forked] at h h'
    omega
  · intro slot bank i i' h h'
    simp [forked] at h h'
    rw [h.2.2, h'.2.2]

theorem exec_pairs_forked :
    (BufferRun.exec (.withBounds 256 8192 257) (forked.reverse.map Message.call)).returned.Perm
      [(5, ⟨100, 7⟩), (5, ⟨103, 7⟩)] :=
  (exec_pairs 256 8192 257 forked forked.reverse forked_consistent (List.reverse_perm _)
    (by decide)).1

end YogSothoth.Grpc
