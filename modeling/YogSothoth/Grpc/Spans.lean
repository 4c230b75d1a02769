import YogSothoth.Grpc.ReceivedSlots
import Mathlib.Data.List.Induction

namespace YogSothoth.Grpc

namespace ReceivedSpan

def Covers (span : ReceivedSpan) (slot : Nat) : Prop := span.first ≤ slot ∧ slot ≤ span.last

/-- `span` holds all that `old` held. -/
def Widens (old span : ReceivedSpan) : Prop := span.first ≤ old.first ∧ old.last ≤ span.last

/-- The two slots a span keeps, each with its block time. -/
def ends (span : ReceivedSpan) : List (Nat × Instant) :=
  [(span.first, span.firstAt), (span.last, span.lastAt)]

theorem Widens.refl (span : ReceivedSpan) : span.Widens span := ⟨le_refl _, le_refl _⟩

theorem Widens.trans {a b c : ReceivedSpan} (h : a.Widens b) (h' : b.Widens c) : a.Widens c :=
  ⟨h'.1.trans h.1, h.2.trans h'.2⟩

theorem Widens.covers {a b : ReceivedSpan} (h : a.Widens b) {slot : Nat} (hs : a.Covers slot) :
    b.Covers slot := ⟨h.1.trans hs.1, hs.2.trans h.2⟩

theorem includeSlot_widens (span : ReceivedSpan) (slot : Nat) (instant : Instant)
    (h : span.first ≤ span.last) :
    span.Widens (span.includeSlot slot instant) ∧ (span.includeSlot slot instant).Covers slot := by
  unfold includeSlot Widens Covers
  split_ifs with hin hlow
  · exact ⟨⟨le_refl _, le_refl _⟩, hin⟩
  · exact ⟨⟨hlow.le, le_refl _⟩, le_refl _, hlow.le.trans h⟩
  · have hle : span.first ≤ slot := not_lt.mp hlow
    have hlast : span.last ≤ slot := (not_le.mp (fun hs => hin ⟨hle, hs⟩)).le
    exact ⟨⟨le_refl _, hlast⟩, hle, le_refl _⟩

theorem includeSlot_ends {span : ReceivedSpan} {slot : Nat} {instant : Instant} {e : Nat × Instant}
    (h : e ∈ (span.includeSlot slot instant).ends) : e = (slot, instant) ∨ e ∈ span.ends := by
  unfold includeSlot at h
  split_ifs at h
  · exact Or.inr h
  · rcases List.mem_cons.mp h with h | h
    · exact Or.inl h
    · exact Or.inr (List.mem_cons_of_mem _ h)
  · rcases List.mem_cons.mp h with h | h
    · exact Or.inr (h ▸ List.mem_cons_self)
    · exact Or.inl (List.mem_singleton.mp h)

end ReceivedSpan

/-- How a span comes from another one, or from none, by counting entries in. -/
structure Counted (span : Option ReceivedSpan) (es : List (Nat × Instant)) (new : ReceivedSpan) :
    Prop where
  ordered : new.first ≤ new.last
  widens : ∀ old, span = some old → old.Widens new
  covers : ∀ e ∈ es, new.Covers e.1
  ends : ∀ e ∈ new.ends, e ∈ es ∨ ∃ old, span = some old ∧ e ∈ old.ends

namespace ReceivedSlots

theorem foldl_count_none {span : Option ReceivedSpan} {es : List (Nat × Instant)}
    (h : es.foldl count span = none) : span = none ∧ es = [] := by
  cases es using List.reverseRecOn with
  | nil => exact ⟨h, rfl⟩
  | append_singleton es e =>
    rw [List.foldl_append] at h
    cases h

theorem foldl_count {span : Option ReceivedSpan} {es : List (Nat × Instant)} {new : ReceivedSpan}
    (hspan : ∀ old, span = some old → old.first ≤ old.last) (h : es.foldl count span = some new) :
    Counted span es new := by
  induction es using List.reverseRecOn generalizing new with
  | nil =>
    change span = some new at h
    refine ⟨hspan new h, ?_, ?_, ?_⟩
    · intro old ho
      rw [h, Option.some.injEq] at ho
      exact ho ▸ .refl _
    · intro e he
      cases he
    · intro e he
      exact Or.inr ⟨new, h, he⟩
  | append_singleton es e ih =>
    rw [List.foldl_append] at h
    change count (es.foldl count span) e = some new at h
    cases hprev : es.foldl count span with
    | none =>
      obtain ⟨rfl, rfl⟩ := foldl_count_none hprev
      cases h
      refine ⟨le_refl _, ?_, ?_, ?_⟩
      · intro old ho
        cases ho
      · intro e' he'
        rw [List.mem_singleton.mp he']
        exact ⟨le_refl _, le_refl _⟩
      · intro e' he'
        left
        simpa [ReceivedSpan.ends, ReceivedSpan.starting] using he'
    | some prev =>
      have hp := ih hprev
      rw [hprev] at h
      cases h
      obtain ⟨hw, hc⟩ := prev.includeSlot_widens e.1 e.2 hp.ordered
      refine ⟨(hc.1.trans hc.2 :), ?_, ?_, ?_⟩
      · intro old ho
        exact (hp.widens old ho).trans hw
      · intro e' he'
        rcases List.mem_append.mp he' with he' | he'
        · exact hw.covers (hp.covers e' he')
        · rw [List.mem_singleton.mp he']
          exact hc
      · intro e' he'
        rcases ReceivedSpan.includeSlot_ends he' with rfl | he'
        · exact Or.inl (List.mem_append_right _ List.mem_cons_self)
        · rcases hp.ends e' he' with h | h
          · exact Or.inl (List.mem_append_left _ h)
          · exact Or.inr h

/-- What a timed block-meta does once slots are watched and something is settled. -/
theorem onBlockMeta_some {r : ReceivedSlots} (hp : r.protocols ≠ []) (slot : Nat) (instant : Instant)
    (bound : Nat) :
    r.onBlockMeta slot instant (some bound) =
      (let received := ((r.withMeta slot instant).filter (fun e => e.1 < bound)).entries
      let span := received.foldl count r.span
      (if received = [] then none else span.map (fun span => ⟨r.protocols, span, false⟩),
        ⟨r.startedAt, r.protocols, span, some (r.countsFrom slot),
          (r.withMeta slot instant).filter (fun e => bound ≤ e.1)⟩)) := by
  unfold onBlockMeta
  rw [if_neg hp]
  dsimp only
  split_ifs with h
  · rw [h]
    rfl
  · rfl

theorem onBlockMeta_range {r : ReceivedSlots} {slot : Nat} {instant : Instant} {bound : Nat}
    {range : RangeToRecord} (h : (r.onBlockMeta slot instant (some bound)).1 = some range) :
    range = ⟨r.protocols, range.span, false⟩ := by
  by_cases hp : r.protocols = []
  · rw [onBlockMeta, if_pos hp] at h
    cases h
  · rw [onBlockMeta_some hp] at h
    dsimp only at h
    split_ifs at h
    obtain ⟨span, _, rfl⟩ := Option.map_eq_some_iff.mp h
    rfl

theorem onBlockMeta_unwatched {r : ReceivedSlots} (hp : r.protocols = []) (slot : Nat)
    (instant : Instant) (settledBelow : Option Nat) :
    r.onBlockMeta slot instant settledBelow = (none, r) := if_pos hp

theorem mem_withMeta {r : ReceivedSlots} {slot : Nat} {instant : Instant} {e : Nat × Instant} :
    e ∈ (r.withMeta slot instant).entries ↔
      (e = (slot, instant) ∧ r.countsFrom slot ≤ slot) ∨
      (e ∈ r.notYet.entries ∧ ¬ (e.1 = slot ∧ r.countsFrom slot ≤ slot)) := by
  unfold withMeta
  split_ifs with h
  · simp [OrdMap.mem_insert, h]
  · simp [h]

end ReceivedSlots

/-- `slot` is at least the margin above the first timed block-meta. -/
def AboveStart (timed : List (Nat × Instant)) (slot : Nat) : Prop :=
  ∃ start, timed.head? = some start ∧ start.1 + heldBackSlots ≤ slot

theorem AboveStart.append {timed : List (Nat × Instant)} {slot : Nat} (h : AboveStart timed slot)
    (l : List (Nat × Instant)) : AboveStart (timed ++ l) slot := by
  obtain ⟨start, hs, hle⟩ := h
  exact ⟨start, by simp [List.head?_append, hs], hle⟩

/-- A span between two received slots above the start. -/
structure ReceivedSpan.Sound (span : ReceivedSpan) (timed : List (Nat × Instant)) : Prop where
  ordered : span.first ≤ span.last
  ends : ∀ e ∈ span.ends, e ∈ timed ∧ AboveStart timed e.1

theorem ReceivedSpan.Sound.append {span : ReceivedSpan} {timed : List (Nat × Instant)}
    (h : span.Sound timed) (l : List (Nat × Instant)) : span.Sound (timed ++ l) := by
  refine ⟨h.ordered, ?_⟩
  intro e he
  obtain ⟨hmem, hstart⟩ := h.ends e he
  exact ⟨List.mem_append_left _ hmem, hstart.append l⟩

/-- The received slots of a session watching something, with what they published, against the timed
block-metas they come from. -/
structure ReceivedSlots.From (r : ReceivedSlots) (published : List RangeToRecord)
    (timed : List (Nat × Instant)) : Prop where
  countedFrom : r.countedFrom = timed.head?.map (fun start => saturatingAdd start.1 heldBackSlots)
  notYet : ∀ e ∈ r.notYet.entries, e ∈ timed ∧ ∃ start, r.countedFrom = some start ∧ start ≤ e.1
  span : ∀ span, r.span = some span → span.Sound timed
  kept : ∀ e ∈ timed, AboveStart timed e.1 →
    (∃ span, r.span = some span ∧ span.Covers e.1) ∨ e.1 ∈ r.notYet.keys
  sound : ∀ range ∈ published, range.span.Sound timed
  within : ∀ range ∈ published, ∃ span, r.span = some span ∧ range.span.Widens span
  widening : published.Pairwise (fun a b => a.span.Widens b.span)

namespace ReceivedSlots

section Step

variable {r : ReceivedSlots} {published : List RangeToRecord} {timed : List (Nat × Instant)}
  {slot : Nat} {instant : Instant}

theorem From.countsFrom_eq (h : r.From published timed) (slot : Nat) (instant : Instant) :
    some (r.countsFrom slot) =
      (timed ++ [(slot, instant)]).head?.map (fun start => saturatingAdd start.1 heldBackSlots) := by
  unfold countsFrom
  rw [h.countedFrom, List.head?_append]
  cases timed.head? <;> rfl

theorem From.countsFrom_le (h : r.From published timed) {x : Nat}
    (hx : AboveStart (timed ++ [(slot, instant)]) x) : r.countsFrom slot ≤ x := by
  obtain ⟨start, hs, hle⟩ := hx
  have hc := h.countsFrom_eq slot instant
  rw [hs, Option.map_some, Option.some.injEq] at hc
  rw [hc, saturatingAdd]
  omega

/-- The start is the margin above the first timed block-meta, unless that leaves the range. -/
theorem From.aboveStart (h : r.From published timed) {x : Nat} (hx : r.countsFrom slot ≤ x)
    (hlt : x < 2 ^ 64 - 1) : AboveStart (timed ++ [(slot, instant)]) x := by
  obtain ⟨start, hs, heq⟩ := Option.map_eq_some_iff.mp (h.countsFrom_eq slot instant).symm
  refine ⟨start, hs, ?_⟩
  rw [← heq, saturatingAdd] at hx
  omega

theorem From.withMeta_mem (h : r.From published timed) {e : Nat × Instant}
    (he : e ∈ (r.withMeta slot instant).entries) :
    e ∈ timed ++ [(slot, instant)] ∧ r.countsFrom slot ≤ e.1 := by
  rcases mem_withMeta.mp he with ⟨rfl, hle⟩ | ⟨hmem, _⟩
  · exact ⟨by simp, hle⟩
  · obtain ⟨ht, start, hs, hle⟩ := h.notYet e hmem
    exact ⟨List.mem_append_left _ ht, by simpa [countsFrom, hs] using hle⟩

/-- A timed slot above the start is in the span already or is kept for it. -/
theorem From.withMeta_kept (h : r.From published timed) {e : Nat × Instant}
    (he : e ∈ timed ++ [(slot, instant)]) (hs : AboveStart (timed ++ [(slot, instant)]) e.1) :
    (∃ span, r.span = some span ∧ span.Covers e.1) ∨ e.1 ∈ (r.withMeta slot instant).keys := by
  rcases List.mem_append.mp he with he | he
  · have hstart : AboveStart timed e.1 := by
      obtain ⟨start, hhead, hle⟩ := hs
      rw [List.head?_append_of_ne_nil _ (List.ne_nil_of_mem he)] at hhead
      exact ⟨start, hhead, hle⟩
    refine (h.kept e he hstart).imp_right ?_
    intro hk
    unfold withMeta
    split_ifs
    · exact OrdMap.mem_keys_insert.mpr (Or.inr hk)
    · exact hk
  · rw [List.mem_singleton.mp he] at hs ⊢
    right
    rw [withMeta, if_pos (h.countsFrom_le hs)]
    exact OrdMap.mem_keys_insert.mpr (Or.inl rfl)

/-- Settled slots come from timed block-metas above the start, so does the span they are counted
into. -/
theorem From.count_sound (h : r.From published timed) (slot : Nat) (instant : Instant)
    {es : List (Nat × Instant)} {span : ReceivedSpan}
    (hes : ∀ e ∈ es, e ∈ (r.withMeta slot instant).entries ∧ e.1 < 2 ^ 64 - 1)
    (hspan : es.foldl count r.span = some span) :
    Counted r.span es span ∧ span.Sound (timed ++ [(slot, instant)]) := by
  have hc : Counted r.span es span := foldl_count (fun old ho => (h.span old ho).ordered) hspan
  refine ⟨hc, hc.ordered, ?_⟩
  intro e he
  rcases hc.ends e he with he | ⟨old, ho, he⟩
  · obtain ⟨hw, hlt⟩ := hes e he
    obtain ⟨hmem, hle⟩ := h.withMeta_mem hw
    exact ⟨hmem, h.aboveStart hle hlt⟩
  · exact ((h.span old ho).append _).ends e he

theorem From.onBlockMeta (h : r.From published timed) (hp : r.protocols ≠ []) {bound : Nat}
    (hb : ∀ x < bound, x < 2 ^ 64 - 1) :
    (r.onBlockMeta slot instant (some bound)).2.From
      (published ++ (r.onBlockMeta slot instant (some bound)).1.toList) (timed ++ [(slot, instant)]) := by
  rw [onBlockMeta_some hp]
  dsimp only
  generalize hes : ((r.withMeta slot instant).filter (fun e => e.1 < bound)).entries = es
  have hmem {e : Nat × Instant} : e ∈ es ↔ e ∈ (r.withMeta slot instant).entries ∧ e.1 < bound := by
    rw [← hes, OrdMap.mem_filter, decide_eq_true_iff]
  have hcount {span : ReceivedSpan} (hs : es.foldl count r.span = some span) :=
    h.count_sound slot instant (fun e he => ⟨(hmem.mp he).1, hb e.1 (hmem.mp he).2⟩) hs
  have hsome (hne : r.span ≠ none ∨ es ≠ []) : ∃ span, es.foldl count r.span = some span := by
    rw [← Option.ne_none_iff_exists']
    intro hn
    obtain ⟨h1, h2⟩ := foldl_count_none hn
    exact hne.elim (· h1) (· h2)
  have hgrow {old : ReceivedSpan} (ho : r.span = some old) :
      ∃ span, es.foldl count r.span = some span ∧ old.Widens span := by
    obtain ⟨span, hs⟩ := hsome (Or.inl (by simp [ho]))
    exact ⟨span, hs, (hcount hs).1.widens old ho⟩
  have hnew : ∀ range ∈ (if es = [] then none else
      (es.foldl count r.span).map (fun span => (⟨r.protocols, span, false⟩ : RangeToRecord))).toList,
      es.foldl count r.span = some range.span := by
    intro range hr
    split_ifs at hr with hnil
    · cases hr
    · obtain ⟨span, hs, rfl⟩ := Option.map_eq_some_iff.mp (Option.mem_toList.mp hr)
      exact hs
  refine ⟨h.countsFrom_eq slot instant, ?_, ?_, ?_, ?_, ?_, ?_⟩
  · intro e he
    obtain ⟨ht, hle⟩ := h.withMeta_mem (OrdMap.mem_filter.mp he).1
    exact ⟨ht, _, rfl, hle⟩
  · intro span hs
    exact (hcount hs).2
  · intro e he hstart
    rcases h.withMeta_kept he hstart with ⟨old, ho, hc⟩ | hk
    · obtain ⟨span, hs, hw⟩ := hgrow ho
      exact Or.inl ⟨span, hs, hw.covers hc⟩
    · obtain ⟨e', he', hslot⟩ := List.mem_map.mp hk
      rw [← hslot]
      rcases lt_or_ge e'.1 bound with hlt | hge
      · have hin := hmem.mpr ⟨he', hlt⟩
        obtain ⟨span, hs⟩ := hsome (Or.inr (List.ne_nil_of_mem hin))
        exact Or.inl ⟨span, hs, (hcount hs).1.covers e' hin⟩
      · exact Or.inr (List.mem_map_of_mem (OrdMap.mem_filter.mpr ⟨he', by simpa using hge⟩))
  · intro range hr
    rcases List.mem_append.mp hr with hr | hr
    · exact (h.sound range hr).append _
    · exact (hcount (hnew range hr)).2
  · intro range hr
    rcases List.mem_append.mp hr with hr | hr
    · obtain ⟨old, ho, hw⟩ := h.within range hr
      obtain ⟨span, hs, hw'⟩ := hgrow ho
      exact ⟨span, hs, hw.trans hw'⟩
    · exact ⟨range.span, hnew range hr, .refl _⟩
  · rw [List.pairwise_append]
    refine ⟨h.widening, ?_, ?_⟩
    · split_ifs
      · exact List.Pairwise.nil
      · cases es.foldl count r.span <;> simp
    · intro a ha b hbr
      obtain ⟨old, ho, hw⟩ := h.within a ha
      obtain ⟨span, hs, hw'⟩ := hgrow ho
      rw [hnew b hbr, Option.some.injEq] at hs
      exact hs ▸ hw.trans hw'

theorem onBlockMeta_protocols (r : ReceivedSlots) (slot : Nat) (instant : Instant)
    (settledBelow : Option Nat) :
    (r.onBlockMeta slot instant settledBelow).2.protocols = r.protocols := by
  unfold onBlockMeta
  cases settledBelow <;> dsimp only <;> split_ifs <;> rfl

theorem mem_onBlockMeta_notYet (hp : r.protocols ≠ []) {bound x : Nat} :
    x ∈ (r.onBlockMeta slot instant (some bound)).2.notYet.keys ↔
      x ∈ (r.withMeta slot instant).keys ∧ bound ≤ x := by
  rw [onBlockMeta_some hp]
  simp [OrdMap.keys]

/-- `x` is counted into the span between two states, the block-meta of `closed` between them: it was
kept for the span, or has just closed, is kept no more, and is inside. -/
def Enters (old new : ReceivedSlots) (closed x : Nat) : Prop :=
  (x = closed ∨ x ∈ old.notYet.keys) ∧ x ∉ new.notYet.keys ∧
    ∃ span, new.span = some span ∧ span.Covers x

theorem From.enters_lt (h : r.From published timed) (hp : r.protocols ≠ []) {bound x : Nat}
    (hb : ∀ x < bound, x < 2 ^ 64 - 1)
    (hx : r.Enters (r.onBlockMeta slot instant (some bound)).2 slot x) : x < bound := by
  obtain ⟨hold, hnot, span, hs, hc⟩ := hx
  rw [mem_onBlockMeta_notYet hp] at hnot
  have hfirst := ((h.onBlockMeta hp hb).span span hs).ends _ List.mem_cons_self
  have hle : r.countsFrom slot ≤ x := (h.countsFrom_le hfirst.2).trans hc.1
  have hkey : x ∈ (r.withMeta slot instant).keys := by
    unfold withMeta
    split_ifs with hfrom
    · exact OrdMap.mem_keys_insert.mpr hold
    · rcases hold with rfl | hold
      · exact absurd hle hfrom
      · exact hold
  by_contra hge
  exact hnot ⟨hkey, not_lt.mp hge⟩

end Step

end ReceivedSlots

end YogSothoth.Grpc
