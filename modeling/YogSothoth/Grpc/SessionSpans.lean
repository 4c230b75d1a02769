import YogSothoth.Grpc.Progress
import YogSothoth.Grpc.Spans

namespace YogSothoth.Grpc

namespace SessionRun

section Exec

variable {T : Type*} (startedAt : Instant) (protocols : List Protocol)

theorem exec_protocols (arrivals : List (Arrival T)) :
    (exec startedAt protocols arrivals).session.receivedSlots.protocols = protocols := by
  induction arrivals using List.reverseRecOn with
  | nil => rfl
  | append_singleton arrivals a ih =>
    rw [exec_concat]
    change ((exec startedAt protocols arrivals).session.handle a.deliver
      a.update).session.receivedSlots.protocols = protocols
    cases ht : a.update.timedMeta with
    | none => rw [(StreamSession.handle_untimed _ _ ht).2, ih]
    | some e =>
      have hh := congrArg Prod.snd ((exec startedAt protocols arrivals).session.handle_timed a.deliver ht)
      dsimp only at hh
      rw [hh, ReceivedSlots.onBlockMeta_protocols, ih]

theorem timedMetas_concat (arrivals : List (Arrival T)) (a : Arrival T) :
    timedMetas (arrivals ++ [a]) = timedMetas arrivals ++ a.update.timedMeta.toList := by
  cases h : a.update.timedMeta <;> simp [timedMetas, h]

/-- What a timed block-meta leaves, with the bound it settles below. -/
theorem exec_timed (before : List (Arrival T)) {a : Arrival T} {slot : Nat} {instant : Instant}
    (h : a.update.timedMeta = some (slot, instant)) :
    ∃ bound, (exec startedAt protocols (before ++ [a])).session.slots.settledBelow = some bound ∧
      (∀ x < bound, x < 2 ^ 64 - 1) ∧
      (exec startedAt protocols (before ++ [a])).session.receivedSlots =
        ((exec startedAt protocols before).session.receivedSlots.onBlockMeta slot instant (some bound)).2 ∧
      (exec startedAt protocols (before ++ [a])).published =
        (exec startedAt protocols before).published ++
          ((exec startedAt protocols before).session.receivedSlots.onBlockMeta slot instant
            (some bound)).1.toList := by
  have hfrom := exec_from startedAt protocols (before ++ [a])
  have hmeta : slot ∈ metaSlots (before ++ [a]) :=
    List.mem_filterMap.mpr ⟨a, by simp, Update.timedMeta_slot h⟩
  obtain ⟨bound, hb⟩ := hfrom.settledBelow_isSome hmeta
  have hh := (exec startedAt protocols before).session.handle_timed a.deliver h
  have hset := hb
  rw [exec_concat] at hset
  change ((exec startedAt protocols before).session.handle a.deliver
    a.update).session.slots.settledBelow = some bound at hset
  rw [hset] at hh
  refine ⟨bound, hb, ?_, ?_, ?_⟩
  · intro x hx
    have hlt := hfrom.settled_lt hb hx
    omega
  · rw [exec_concat, ← hh]
    rfl
  · rw [exec_concat, ← hh]
    rfl

theorem exec_untimed (before : List (Arrival T)) {a : Arrival T} (h : a.update.timedMeta = none) :
    (exec startedAt protocols (before ++ [a])).session.receivedSlots =
        (exec startedAt protocols before).session.receivedSlots ∧
      (exec startedAt protocols (before ++ [a])).published =
        (exec startedAt protocols before).published := by
  obtain ⟨hpub, hrec⟩ := (exec startedAt protocols before).session.handle_untimed a.deliver h
  rw [exec_concat]
  refine ⟨hrec, ?_⟩
  change _ ++ ((exec startedAt protocols before).session.handle a.deliver a.update).published.toList = _
  simp [hpub]

theorem exec_receivedSlots (hp : protocols ≠ []) (arrivals : List (Arrival T)) :
    (exec startedAt protocols arrivals).session.receivedSlots.From
      (exec startedAt protocols arrivals).published (timedMetas arrivals) := by
  induction arrivals using List.reverseRecOn with
  | nil =>
    refine ⟨rfl, ?_, ?_, ?_, ?_, ?_, List.Pairwise.nil⟩
    · intro e he
      cases he
    · intro span hs
      cases hs
    · intro e he
      cases he
    · intro range hr
      cases hr
    · intro range hr
      cases hr
  | append_singleton arrivals a ih =>
    rw [timedMetas_concat]
    cases ht : a.update.timedMeta with
    | none =>
      obtain ⟨hrec, hpub⟩ := exec_untimed startedAt protocols arrivals ht
      rw [hrec, hpub]
      simpa using ih
    | some e =>
      obtain ⟨bound, _, hlt, hrec, hpub⟩ := exec_timed startedAt protocols arrivals ht
      rw [hrec, hpub]
      exact ih.onBlockMeta (by rwa [exec_protocols]) hlt

theorem exec_unwatched (arrivals : List (Arrival T)) :
    (exec startedAt [] arrivals).session.receivedSlots = .new startedAt [] ∧
      (exec startedAt [] arrivals).published = [] := by
  induction arrivals using List.reverseRecOn with
  | nil => exact ⟨rfl, rfl⟩
  | append_singleton arrivals a ih =>
    cases ht : a.update.timedMeta with
    | none =>
      obtain ⟨hrec, hpub⟩ := exec_untimed startedAt [] arrivals ht
      rw [hrec, hpub]
      exact ih
    | some e =>
      obtain ⟨bound, _, _, hrec, hpub⟩ := exec_timed startedAt [] arrivals ht
      rw [hrec, hpub, ih.1, ih.2, ReceivedSlots.onBlockMeta_unwatched rfl]
      exact ⟨rfl, rfl⟩

theorem exec_ranges (arrivals : List (Arrival T)) :
    ∀ range ∈ (exec startedAt protocols arrivals).published, range = ⟨protocols, range.span, false⟩ := by
  induction arrivals using List.reverseRecOn with
  | nil =>
    intro range hr
    cases hr
  | append_singleton arrivals a ih =>
    intro range hr
    cases ht : a.update.timedMeta with
    | none =>
      rw [(exec_untimed startedAt protocols arrivals ht).2] at hr
      exact ih range hr
    | some e =>
      obtain ⟨bound, _, _, _, hpub⟩ := exec_timed startedAt protocols arrivals ht
      rw [hpub, List.mem_append, Option.mem_toList] at hr
      rcases hr with hr | hr
      · exact ih range hr
      · have hrange := ReceivedSlots.onBlockMeta_range hr
        rwa [exec_protocols] at hrange

/-- What enters the span at a timed block-meta is settled then, and what is settled is inside. -/
theorem exec_settles (before : List (Arrival T)) {a : Arrival T} {closed : Nat} {instant : Instant}
    (h : a.update.timedMeta = some (closed, instant)) :
    ∃ bound, (exec startedAt protocols (before ++ [a])).session.slots.settledBelow = some bound ∧
      (∀ x, (exec startedAt protocols before).session.receivedSlots.Enters
        (exec startedAt protocols (before ++ [a])).session.receivedSlots closed x → x < bound) ∧
      (protocols ≠ [] → ∀ x ∈ (exec startedAt protocols (before ++ [a])).session.receivedSlots.notYet.keys,
        bound ≤ x) := by
  obtain ⟨bound, hb, hlt, hrec, _⟩ := exec_timed startedAt protocols before h
  refine ⟨bound, hb, ?_, ?_⟩
  · intro x hx
    by_cases hp : protocols = []
    · obtain ⟨_, _, span, hs, _⟩ := hx
      subst hp
      rw [(exec_unwatched startedAt _).1] at hs
      cases hs
    · rw [hrec] at hx
      exact (exec_receivedSlots startedAt protocols hp before).enters_lt (by rwa [exec_protocols]) hlt hx
  · intro hp x hx
    rw [hrec, ReceivedSlots.mem_onBlockMeta_notYet (by rwa [exec_protocols])] at hx
    exact hx.2

/-- The spans one session publishes: well formed, between received slots above the start, and only
widening. What enters is settled when it does, and a session that watches something drops nothing. -/
theorem exec_spans (arrivals : List (Arrival T)) :
    (∀ range ∈ (exec startedAt protocols arrivals).published, range.span.first ≤ range.span.last) ∧
    (exec startedAt protocols arrivals).published.Pairwise (fun a b => a.span.Widens b.span) ∧
    (∀ range ∈ (exec startedAt protocols arrivals).published, ∀ e ∈ range.span.ends,
      e ∈ timedMetas arrivals ∧ AboveStart (timedMetas arrivals) e.1) ∧
    (∀ before a after closed instant, arrivals = before ++ a :: after →
      a.update.timedMeta = some (closed, instant) →
      let old := (exec startedAt protocols before).session
      let new := (exec startedAt protocols (before ++ [a])).session
      (∀ x, old.receivedSlots.Enters new.receivedSlots closed x →
        (∀ oldest, new.slots.buffer.oldestPendingSlot = some oldest → x < oldest - heldBackSlots) ∧
        (new.slots.buffer.oldestPendingSlot = none →
          ∃ highest, new.slots.highestMetaSlot = some highest ∧ x < highest - heldBackSlots)) ∧
      (protocols ≠ [] → ∀ e ∈ timedMetas (before ++ [a]), AboveStart (timedMetas (before ++ [a])) e.1 →
        (∃ span, new.receivedSlots.span = some span ∧ span.Covers e.1) ∨
          ∃ bound, new.slots.settledBelow = some bound ∧ bound ≤ e.1)) ∧
    (protocols = [] → (exec startedAt protocols arrivals).published = []) := by
  have hsound : ∀ range ∈ (exec startedAt protocols arrivals).published,
      range.span.Sound (timedMetas arrivals) := by
    intro range hr
    by_cases hp : protocols = []
    · subst hp
      rw [(exec_unwatched startedAt arrivals).2] at hr
      cases hr
    · exact (exec_receivedSlots startedAt protocols hp arrivals).sound range hr
  refine ⟨fun range hr => (hsound range hr).ordered, ?_, fun range hr => (hsound range hr).ends, ?_, ?_⟩
  · by_cases hp : protocols = []
    · subst hp
      rw [(exec_unwatched startedAt arrivals).2]
      exact List.Pairwise.nil
    · exact (exec_receivedSlots startedAt protocols hp arrivals).widening
  · intro before a after closed instant _ ht
    obtain ⟨bound, hb, henters, hleft⟩ := exec_settles startedAt protocols before ht
    refine ⟨?_, ?_⟩
    · intro x hx
      have hlt := henters x hx
      rcases SlotProgress.settledBelow_some hb with ⟨oldest, ho, rfl⟩ | ⟨hnone, highest, hh, rfl⟩
      · refine ⟨?_, ?_⟩
        · intro oldest' ho'
          rw [ho, Option.some.injEq] at ho'
          exact ho' ▸ hlt
        · intro hnone
          rw [ho] at hnone
          cases hnone
      · refine ⟨?_, fun _ => ⟨highest, hh, hlt⟩⟩
        intro oldest ho
        rw [hnone] at ho
        cases ho
    · intro hp e he hstart
      rcases (exec_receivedSlots startedAt protocols hp (before ++ [a])).kept e he hstart with hc | hk
      · exact Or.inl hc
      · exact Or.inr ⟨bound, hb, hleft hp e.1 hk⟩
  · rintro rfl
    exact (exec_unwatched startedAt arrivals).2

end Exec

/-- The block-meta of `slot`, dated `slot` seconds in. -/
def closing (slot : UInt64) : Arrival Unit :=
  ⟨.blockMeta slot slot (some slot.toNat), fun _ => .open⟩

def carrying (slot : UInt64) : Arrival Unit :=
  ⟨.transaction ["meteora_dlmm"] slot slot (), fun _ => .open⟩

/-- A session watching nothing keeps no slot for its span: 12 is settled, above the start, and
nowhere. And a span grown downward to 12 comes to cover 15 while it waits. -/
theorem exec_spans_gaps :
    (¬ ∀ e ∈ timedMetas [closing 10, closing 12, closing 30],
      AboveStart (timedMetas [closing 10, closing 12, closing 30]) e.1 →
      (∃ span, (exec 0 [] [closing 10, closing 12, closing 30]).session.receivedSlots.span = some span ∧
        span.Covers e.1) ∨
      ∃ bound, (exec 0 [] [closing 10, closing 12, closing 30]).session.slots.settledBelow = some bound ∧
        bound ≤ e.1) ∧
    (let before := [closing 8, closing 20, closing 30, closing 33, carrying 15]
    let old := (exec 0 [.meteoraDlmm] before).session
    let new := (exec 0 [.meteoraDlmm] (before ++ [closing 12])).session
    old.receivedSlots.span.map (fun span => (span.first, span.last)) = some (20, 30) ∧
      new.receivedSlots.span.map (fun span => (span.first, span.last)) = some (12, 30) ∧
      new.slots.buffer.oldestPendingSlot = some 15) := by
  refine ⟨?_, by decide +kernel⟩
  intro h
  have hstart : AboveStart (timedMetas [closing 10, closing 12, closing 30]) 12 :=
    ⟨(10, 10000000000), by decide +kernel, by decide⟩
  have hbound : (exec 0 [] [closing 10, closing 12, closing 30]).session.slots.settledBelow = some 28 := by
    decide +kernel
  rcases h (12, 12000000000) (by decide +kernel) hstart with ⟨span, hs, _⟩ | ⟨bound, hb, hle⟩
  · rw [(exec_unwatched 0 _).1] at hs
    cases hs
  · rw [hbound, Option.some.injEq] at hb
    subst hb
    exact absurd hle (by decide)

end SessionRun

end YogSothoth.Grpc
