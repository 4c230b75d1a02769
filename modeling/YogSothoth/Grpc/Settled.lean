import YogSothoth.Grpc.SessionSpans

namespace YogSothoth.Grpc

variable {T : Type*}

/-- No block-meta comes before a transaction more than the margin below it. -/
def Prompt (arrivals : List (Arrival T)) : Prop :=
  arrivals.Pairwise (fun earlier later => ∀ closed ∈ earlier.update.metaSlot,
    ∀ slot ∈ later.update.transactionSlot, closed ≤ slot + heldBackSlots)

theorem Prompt.closed_le {before after : List (Arrival T)} (h : Prompt (before ++ after))
    {closed slot : Nat} (hc : closed ∈ metaSlots before) (hs : slot ∈ transactionSlots after) :
    closed ≤ slot + heldBackSlots := by
  obtain ⟨a, ha, hc⟩ := List.mem_filterMap.mp hc
  obtain ⟨b, hb, hs⟩ := List.mem_filterMap.mp hs
  exact (List.pairwise_append.mp h).2.2 a ha b hb closed hc slot hs

/-- Where the last slot of a span comes from: the span before, or a slot settled now. -/
theorem ReceivedSlots.onBlockMeta_last {r : ReceivedSlots} {slot : Nat} {instant : Instant} {bound : Nat}
    {span : ReceivedSpan} (hr : ∀ old, r.span = some old → old.first ≤ old.last)
    (hs : (r.onBlockMeta slot instant (some bound)).2.span = some span) :
    (∃ old, r.span = some old ∧ span.last ≤ old.last) ∨
      span.last ∈ (r.withMeta slot instant).keys ∧ span.last < bound := by
  by_cases hp : r.protocols = []
  · rw [onBlockMeta_unwatched hp] at hs
    exact Or.inl ⟨span, hs, le_refl _⟩
  · rw [onBlockMeta_some hp] at hs
    have hend := (foldl_count hr hs).ends (span.last, span.lastAt) (by simp [ReceivedSpan.ends])
    rcases hend with he | ⟨old, ho, he⟩
    · obtain ⟨hw, hlt⟩ := OrdMap.mem_filter.mp he
      exact Or.inr ⟨List.mem_map_of_mem hw, by simpa using hlt⟩
    · refine Or.inl ⟨old, ho, ?_⟩
      have hord := hr old ho
      simp only [ReceivedSpan.ends, List.mem_cons, Prod.mk.injEq, List.not_mem_nil, or_false] at he
      omega

/-- A kept slot that is settled is inside what gets published. -/
theorem ReceivedSlots.onBlockMeta_publishes {r : ReceivedSlots} {slot : Nat} {instant : Instant}
    {bound x : Nat} (hr : ∀ old, r.span = some old → old.first ≤ old.last) (hp : r.protocols ≠ [])
    (hx : x ∈ (r.withMeta slot instant).keys) (hlt : x < bound) :
    ∃ range, (r.onBlockMeta slot instant (some bound)).1 = some range ∧ range.span.Covers x := by
  obtain ⟨e, he, rfl⟩ := List.mem_map.mp hx
  rw [onBlockMeta_some hp]
  dsimp only
  generalize hes : ((r.withMeta slot instant).filter (fun e => e.1 < bound)).entries = es
  have hin : e ∈ es := hes ▸ OrdMap.mem_filter.mpr ⟨he, by simpa using hlt⟩
  have hne : es ≠ [] := List.ne_nil_of_mem hin
  rw [if_neg hne]
  cases hs : es.foldl count r.span with
  | none => exact absurd (foldl_count_none hs).2 hne
  | some span => exact ⟨_, rfl, (foldl_count hr hs).covers e hin⟩

namespace SessionRun

variable (startedAt : Instant) (protocols : List Protocol)

/-- At `a`, every slot kept for the span that is settled below the oldest waiting slot is settled
below a closed one as well. -/
def Clears (before : List (Arrival T)) (a : Arrival T) : Prop :=
  ∀ closing ∈ a.update.timedMeta,
    ∀ oldest ∈ (exec startedAt protocols (before ++ [a])).session.slots.buffer.oldestPendingSlot,
    ∀ x ∈ ((exec startedAt protocols before).session.receivedSlots.withMeta closing.1 closing.2).keys,
      x + heldBackSlots < oldest → ∃ closed ∈ metaSlots (before ++ [a]), x + heldBackSlots < closed

/-- A span ends more than the margin below a closed slot, and below everything that waits. -/
def Passed (arrivals : List (Arrival T)) : Prop :=
  ∀ span, (exec startedAt protocols arrivals).session.receivedSlots.span = some span →
    (∃ closed ∈ metaSlots arrivals, span.last + heldBackSlots < closed) ∧
    ∀ s ∈ (exec startedAt protocols arrivals).session.slots.buffer.pendingSlots, span.last < s

theorem exec_ordered (arrivals : List (Arrival T)) (span : ReceivedSpan)
    (h : (exec startedAt protocols arrivals).session.receivedSlots.span = some span) :
    span.first ≤ span.last := by
  by_cases hp : protocols = []
  · subst hp
    rw [(exec_unwatched startedAt arrivals).1] at h
    cases h
  · exact ((exec_receivedSlots startedAt protocols hp arrivals).span span h).ordered

variable {startedAt protocols}

/-- What passed stays passed: a later transaction is of a slot above the span. -/
theorem Passed.kept {before : List (Arrival T)} (h : Passed startedAt protocols before) {a : Arrival T}
    (hp : Prompt (before ++ [a])) {old : ReceivedSpan}
    (ho : (exec startedAt protocols before).session.receivedSlots.span = some old) :
    (∃ closed ∈ metaSlots (before ++ [a]), old.last + heldBackSlots < closed) ∧
    ∀ s ∈ (exec startedAt protocols (before ++ [a])).session.slots.buffer.pendingSlots, old.last < s := by
  obtain ⟨⟨closed, hc, hlt⟩, hpending⟩ := h old ho
  refine ⟨⟨closed, ?_, hlt⟩, ?_⟩
  · rw [metaSlots, List.filterMap_append]
    exact List.mem_append_left _ hc
  · intro s hs
    rw [exec_concat] at hs
    rcases StreamSession.handle_pendingSlots hs with hs | hs
    · have hle := hp.closed_le hc (List.mem_filterMap.mpr ⟨a, List.mem_cons_self, hs⟩)
      omega
    · exact hpending s hs

theorem Passed.step {before : List (Arrival T)} (h : Passed startedAt protocols before) {a : Arrival T}
    (hp : Prompt (before ++ [a])) (hc : Clears startedAt protocols before a) :
    Passed startedAt protocols (before ++ [a]) := by
  intro span hs
  cases ht : a.update.timedMeta with
  | none =>
    rw [(exec_untimed startedAt protocols before ht).1] at hs
    exact h.kept hp hs
  | some closing =>
    obtain ⟨bound, hb, _, hrec, _⟩ := exec_timed startedAt protocols before ht
    rw [hrec] at hs
    rcases ReceivedSlots.onBlockMeta_last (exec_ordered startedAt protocols before) hs with
      ⟨old, ho, hle⟩ | ⟨hkey, hlt⟩
    · obtain ⟨⟨closed, hmem, hclosed⟩, hpending⟩ := h.kept hp ho
      refine ⟨⟨closed, hmem, by omega⟩, ?_⟩
      intro s hs
      exact lt_of_le_of_lt hle (hpending s hs)
    · have hfrom := exec_from startedAt protocols (before ++ [a])
      rcases SlotProgress.settledBelow_some hb with ⟨oldest, ho, rfl⟩ | ⟨hnone, highest, hh, rfl⟩
      · have hbelow : span.last + heldBackSlots < oldest := by omega
        refine ⟨hc closing ht oldest ho span.last hkey hbelow, ?_⟩
        intro s hs
        have hle := (SlotTimestampBuffer.oldestPendingSlot_le ho).2 s hs
        omega
      · refine ⟨⟨highest, hfrom.highest highest hh, by omega⟩, ?_⟩
        intro s hs
        rw [SlotTimestampBuffer.oldestPendingSlot_none hnone] at hs
        cases hs

theorem exec_passed {arrivals : List (Arrival T)} (hp : Prompt arrivals)
    (hc : ∀ before a after, arrivals = before ++ a :: after → Clears startedAt protocols before a) :
    Passed startedAt protocols arrivals := by
  induction arrivals using List.reverseRecOn with
  | nil =>
    intro span hs
    cases hs
  | append_singleton arrivals a ih =>
    refine (ih (List.pairwise_append.mp hp).1 ?_).step hp (hc arrivals a [] rfl)
    intro before b after h
    exact hc before b (after ++ [a]) (by simp [h])

/-- In a run of prompt transactions whose block-metas all clear, a published span covers no slot that
something waits for or that a later transaction is of. -/
theorem exec_cleared {arrivals : List (Arrival T)} (hp : Prompt arrivals)
    (hc : ∀ before a after, arrivals = before ++ a :: after → Clears startedAt protocols before a)
    (before after : List (Arrival T)) (h : arrivals = before ++ after) :
    ∀ range ∈ (exec startedAt protocols before).published, ∀ slot, range.span.Covers slot →
      slot ∉ (exec startedAt protocols before).session.slots.buffer.pendingSlots ∧
        slot ∉ transactionSlots after := by
  intro range hr slot hcov
  subst h
  have hwatched : protocols ≠ [] := by
    rintro rfl
    rw [(exec_unwatched startedAt before).2] at hr
    cases hr
  obtain ⟨span, hs, hw⟩ := (exec_receivedSlots startedAt protocols hwatched before).within range hr
  have hpassed : Passed startedAt protocols before :=
    exec_passed (List.pairwise_append.mp hp).1
      (fun b a rest hb => hc b a (rest ++ after) (by simp [hb]))
  obtain ⟨⟨closed, hmem, hclosed⟩, hpending⟩ := hpassed span hs
  have hle : slot ≤ span.last := hcov.2.trans hw.2
  refine ⟨?_, ?_⟩
  · intro hs
    exact absurd (hpending slot hs) (not_lt.mpr hle)
  · intro hs
    have hclosed' := hp.closed_le hmem hs
    omega

/-- At a block-meta that does not clear, the margin is missing: a transaction of a slot inside the
published span may still come. -/
theorem exec_unclear (hw : protocols ≠ []) {before : List (Arrival T)} {a : Arrival T} (body : T)
    (hp : Prompt (before ++ [a])) (h : ¬ Clears startedAt protocols before a) :
    ∃ later : Arrival T, Prompt (before ++ [a] ++ [later]) ∧
      ∃ range ∈ (exec startedAt protocols (before ++ [a])).published, ∃ slot, range.span.Covers slot ∧
        slot ∈ transactionSlots [later] := by
  simp only [Clears, not_forall, not_exists, not_and, not_lt] at h
  obtain ⟨closing, ht, oldest, ho, x, hx, hlt, hall⟩ := h
  obtain ⟨bound, hb, _, _, hpub⟩ := exec_timed startedAt protocols before ht
  have hbound : x < bound := by
    rcases SlotProgress.settledBelow_some hb with ⟨oldest', ho', rfl⟩ | ⟨hnone, _⟩
    · rw [Option.mem_def.mp ho, Option.some.injEq] at ho'
      omega
    · rw [Option.mem_def.mp ho] at hnone
      cases hnone
  obtain ⟨range, hrange, hcov⟩ := ReceivedSlots.onBlockMeta_publishes
    (exec_ordered startedAt protocols before) (by rwa [exec_protocols]) hx hbound
  have hword : (UInt64.ofNat x).toNat = x := by
    have hsmall := (exec_from startedAt protocols (before ++ [a])).settled_lt hb hbound
    rw [UInt64.toNat_ofNat', Nat.mod_eq_of_lt (by omega)]
  let later : Arrival T := ⟨.transaction ["meteora_dlmm"] (UInt64.ofNat x) 0 body, fun _ => .open⟩
  have hslot : later.update.transactionSlot = some x := by
    have hroute : protocolOf ["meteora_dlmm"] = some .meteoraDlmm := by decide
    change (protocolOf ["meteora_dlmm"]).map (fun _ => (UInt64.ofNat x).toNat) = some x
    rw [hroute, hword]
    rfl
  refine ⟨later, ?_, range, ?_, x, hcov, List.mem_filterMap.mpr ⟨later, List.mem_cons_self, hslot⟩⟩
  · refine List.pairwise_append.mpr ⟨hp, List.pairwise_singleton _ _, ?_⟩
    intro earlier he later' hl closed hclosed slot hs
    rw [List.mem_singleton.mp hl, hslot, Option.mem_some_iff] at hs
    rw [← hs]
    exact hall closed (List.mem_filterMap.mpr ⟨earlier, he, hclosed⟩)
  · rw [hpub, hrange]
    exact List.mem_append_right _ List.mem_cons_self

/-- Block-metas that clear keep every published span clear of what waits and of what comes; at the
first that does not, a transaction of a slot inside the span may still come. -/
theorem exec_settled (startedAt : Instant) (protocols : List Protocol) :
    (∀ arrivals : List (Arrival T), Prompt arrivals →
      (∀ before a after, arrivals = before ++ a :: after → Clears startedAt protocols before a) →
      ∀ before after, arrivals = before ++ after →
        ∀ range ∈ (exec startedAt protocols before).published, ∀ slot, range.span.Covers slot →
          slot ∉ (exec startedAt protocols before).session.slots.buffer.pendingSlots ∧
            slot ∉ transactionSlots after) ∧
    (protocols ≠ [] → ∀ (before : List (Arrival T)) (a : Arrival T) (_ : T),
      Prompt (before ++ [a]) → ¬ Clears startedAt protocols before a →
      ∃ later : Arrival T, Prompt (before ++ [a] ++ [later]) ∧
        ∃ range ∈ (exec startedAt protocols (before ++ [a])).published,
          ∃ slot, range.span.Covers slot ∧ slot ∈ transactionSlots [later]) :=
  ⟨fun _ hp hc before after h => exec_cleared hp hc before after h,
    fun hw _ _ body hp hunclear => exec_unclear hw body hp hunclear⟩

/-- 16 waits, 12 is counted in, and 15 has closed above it. -/
theorem exec_settled_waiting :
    (exec 0 [.meteoraDlmm] [closing 10, closing 12, carrying 16, closing 15]).published =
        [⟨[.meteoraDlmm], ⟨12, 12000000000, 12, 12000000000⟩, false⟩] ∧
      ∀ range ∈ (exec 0 [.meteoraDlmm] [closing 10, closing 12, carrying 16, closing 15]).published,
        ∀ slot, range.span.Covers slot →
        slot ∉ (exec 0 [.meteoraDlmm]
          [closing 10, closing 12, carrying 16, closing 15]).session.slots.buffer.pendingSlots ∧
        slot ∉ transactionSlots [carrying 16] := by
  have hp : Prompt [closing 10, closing 12, carrying 16, closing 15, carrying 16] := by
    unfold Prompt
    decide +kernel
  refine ⟨by decide +kernel, (exec_settled 0 [.meteoraDlmm]).1 _ hp ?_ _ _ rfl⟩
  intro before a after h
  rcases before with _ | ⟨_, _ | ⟨_, _ | ⟨_, _ | ⟨_, _ | ⟨_, before⟩⟩⟩⟩⟩ <;>
    simp only [List.cons_append, List.nil_append, List.cons.injEq, List.nil_eq, List.append_eq_nil_iff,
      reduceCtorEq, and_false] at h
  · obtain ⟨rfl, _⟩ := h
    unfold Clears
    decide +kernel
  · obtain ⟨rfl, rfl, _⟩ := h
    unfold Clears
    decide +kernel
  · obtain ⟨rfl, rfl, rfl, _⟩ := h
    unfold Clears
    decide +kernel
  · obtain ⟨rfl, rfl, rfl, rfl, _⟩ := h
    unfold Clears
    decide +kernel
  · obtain ⟨rfl, rfl, rfl, rfl, rfl, _⟩ := h
    unfold Clears
    decide +kernel

/-- 20 waits when 12 closes, so 12 is counted at once, and then its transaction comes. -/
theorem exec_published_early :
    Prompt [closing 10, carrying 20, closing 12, carrying 12] ∧
      (exec 0 [.meteoraDlmm]
        [closing 10, carrying 20, closing 12, carrying 12]).session.slots.buffer.boundEvictions = 0 ∧
      ∃ range ∈ (exec 0 [.meteoraDlmm] [closing 10, carrying 20, closing 12]).published,
        range.span.Covers 12 ∧ 12 ∈ transactionSlots [carrying 12] := by
  have hp : Prompt [closing 10, carrying 20, closing 12, carrying 12] := by
    unfold Prompt
    decide +kernel
  refine ⟨hp, by decide +kernel, ⟨[.meteoraDlmm], ⟨12, 12000000000, 12, 12000000000⟩, false⟩, ?_⟩
  refine ⟨by decide +kernel, ⟨?_, ?_⟩, by decide +kernel⟩ <;> exact le_refl _

end SessionRun

end YogSothoth.Grpc
