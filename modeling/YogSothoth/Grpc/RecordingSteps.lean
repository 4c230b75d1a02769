import YogSothoth.Grpc.Recording

namespace YogSothoth.Grpc.Recording

variable {w : Watch} {s s' : Recording}

/-- The invariant after a step that leaves what is due, writes nothing off, and loses only entries
that are done with. -/
theorem Inv.extend (h : Inv w s) (he : s.Extends s') (hheld : Held w s')
    (hentry : ∀ session range, s'.recorder.ranges.get? session = some range →
      range.protocols = w.protocols session ∧ s'.latest.get? session = some range.span ∧
        (range.ended = true → session ∈ s'.ended))
    (hdue : s'.recorder.due = s.recorder.due)
    (hwritten : ∀ session span, s'.recorder.written.get? session = some span →
      s.recorder.written.get? session = some span)
    (hgone : ∀ session final, s'.latest.get? session = some final →
      s'.recorder.ranges.get? session = none → Done w s session final) : Inv w s' := by
  refine ⟨hheld, hentry, ?_, ?_, ?_⟩
  · intro session range hr
    rw [hdue] at hr
    exact (h.due session range hr).mono he
  · intro session span hs protocol hp
    exact (h.written session span (hwritten session span hs) protocol hp).mono he
  · intro session final hl hr
    exact (hgone session final hl hr).mono he hheld

theorem publish_inv (h : Inv w s) {session : Instant} {span : ReceivedSpan}
    (hsession : session ∈ w.sessions) (hover : session ∉ s.ended) (hdated : span.Dated (w.timeOf session))
    (hwider : ∀ old, s.latest.get? session = some old → old.Widens span) :
    s.Extends (s.publish session ⟨w.protocols session, span, false⟩) ∧
      Inv w (s.publish session ⟨w.protocols session, span, false⟩) := by
  have hlatest (k : Instant) : (s.publish session ⟨w.protocols session, span, false⟩).latest.get? k =
      if k = session then some span else s.latest.get? k := OrdMap.get?_insert _ _ _ _
  have hranges (k : Instant) :
      (s.publish session ⟨w.protocols session, span, false⟩).recorder.ranges.get? k =
        if k = session then some ⟨w.protocols session, span, false⟩ else s.recorder.ranges.get? k :=
    OrdMap.get?_insert _ _ _ _
  have he : s.Extends (s.publish session ⟨w.protocols session, span, false⟩) := by
    refine ⟨fun protocol k row hr => ⟨row, hr, .refl _⟩, ?_, List.Subset.refl _⟩
    intro k old ho
    rw [hlatest]
    split_ifs with hk
    · subst hk
      exact ⟨span, rfl, hwider old ho, fun hin => absurd hin hover⟩
    · exact ⟨old, ho, .refl _, fun _ => rfl⟩
  refine ⟨he, h.extend he ⟨?_, ?_⟩ ?_ rfl (fun _ _ hs => hs) ?_⟩
  · intro k span' hs
    rw [hlatest] at hs
    split_ifs at hs with hk
    · rw [← Option.some.inj hs, hk]
      exact ⟨hsession, hdated⟩
    · exact h.held.latest k span' hs
  · intro protocol k hk row hr
    obtain ⟨hrow, old, ho, hw⟩ := h.held.table protocol k hk row hr
    obtain ⟨span', hs, hw', _⟩ := he.latest k old ho
    exact ⟨hrow, span', hs, hw.trans hw'⟩
  · intro k range hr
    rw [hranges] at hr
    rw [hlatest]
    split_ifs at hr ⊢ with hk
    · rw [← Option.some.inj hr, hk]
      exact ⟨rfl, rfl, fun hf => absurd hf Bool.false_ne_true⟩
    · exact h.entry k range hr
  · intro k final hl hr
    rw [hranges] at hr
    rw [hlatest] at hl
    split_ifs at hr hl
    exact h.gone k final hl hr

theorem endSession_inv (h : Inv w s) (session : Instant) :
    s.Extends (s.endSession session) ∧ Inv w (s.endSession session) := by
  have hover : s.ended ⊆ (s.endSession session).ended := List.subset_cons_self _ _
  have hranges (k : Instant) : (s.endSession session).recorder.ranges.get? k =
      (s.recorder.ranges.get? k).map
        (fun range => if k = session then { range with ended := true } else range) := by
    change (s.recorder.ranges.endSession session).get? k = _
    unfold RangesToRecord.endSession
    cases hr : s.recorder.ranges.get? session with
    | none =>
      dsimp only
      by_cases hk : k = session
      · rw [hk, hr, Option.map_none]
      · simp [hk]
    | some range =>
      rw [OrdMap.get?_insert]
      by_cases hk : k = session
      · simp [hk, hr]
      · simp [hk]
  have he : s.Extends (s.endSession session) := .of_eq rfl rfl (Or.inr hover)
  refine ⟨he, h.extend he ⟨h.held.latest, h.held.table⟩ ?_ rfl (fun _ _ hs => hs) ?_⟩
  · intro k range hr
    rw [hranges] at hr
    obtain ⟨old, ho, rfl⟩ := Option.map_eq_some_iff.mp hr
    obtain ⟨hp, hl, hend⟩ := h.entry k old ho
    split_ifs with hk
    · exact ⟨hp, hl, fun _ => hk ▸ List.mem_cons_self⟩
    · exact ⟨hp, hl, fun hended => hover (hend hended)⟩
  · intro k final hl hr
    rw [hranges, Option.map_eq_none_iff] at hr
    exact h.gone k final hl hr

/-- A step of the recorder that touches neither the entries, nor what is due or written, nor the
table. -/
theorem Inv.same (h : Inv w s) (hranges : s'.recorder.ranges = s.recorder.ranges)
    (hdue : s'.recorder.due = s.recorder.due) (hwritten : s'.recorder.written = s.recorder.written)
    (htable : s'.recorder.table = s.recorder.table) (hlatest : s'.latest = s.latest)
    (hover : s'.ended = s.ended) : s.Extends s' ∧ Inv w s' := by
  have he : s.Extends s' := .of_eq htable hlatest (Or.inl hover)
  refine ⟨he, h.extend he (h.held.of_eq htable hlatest) ?_ hdue (fun _ _ hs => hwritten ▸ hs) ?_⟩
  · rw [hranges, hlatest, hover]
    exact h.entry
  · rw [hranges, hlatest]
    exact h.gone

/-- What is ended, due and written is done with. -/
theorem Inv.finished (h : Inv w s) {session : Instant} (hs : session ∈ s.recorder.finished) :
    ∃ final, Done w s session final := by
  obtain ⟨e, he, rfl⟩ := List.mem_map.mp hs
  obtain ⟨hmem, hcond⟩ := OrdMap.mem_filter.mp he
  obtain ⟨hended, hwritten⟩ : e.2.ended = true ∧ s.recorder.written.get? e.1 = some e.2.span := by
    simpa using hcond
  have hdue := h.due e.1 e.2 (OrdMap.get?_eq_some.mpr hmem)
  obtain ⟨final, hl, _, hfinal⟩ := hdue.latest
  obtain ⟨hover, rfl⟩ := hfinal hended
  refine ⟨e.2.span, hover, hl, ?_⟩
  intro protocol hp
  exact h.held.row_eq hl (h.written e.1 e.2.span hwritten protocol hp)

theorem next_inv (h : Inv w s) {stopping : Bool} {changed : List (Instant × RangeToRecord)}
    (hc : changed ⊆ s.recorder.due.entries) (hrec : s'.recorder = s.recorder.next stopping changed)
    (hlatest : s'.latest = s.latest) (hover : s'.ended = s.ended) :
    s.Extends s' ∧ Inv w s' ∧ Working w s' s'.recorder.phase := by
  have hsame : s.Extends s' ∧ Inv w s' := by
    refine h.same ?_ ?_ ?_ ?_ hlatest hover <;> rw [hrec] <;> cases changed <;> rfl
  obtain ⟨he, hinv⟩ := hsame
  refine ⟨he, hinv, ?_⟩
  cases changed with
  | nil =>
    rw [hrec]
    intro session hs
    obtain ⟨final, hd⟩ := h.finished hs
    exact ⟨final, hd.mono he hinv.held⟩
  | cons e changed =>
    have hdue : s'.recorder.due = s.recorder.due := by
      rw [hrec]
      rfl
    have hphase : s'.recorder.phase = .recording stopping e.1 e.2 (e.2.rows e.1) true changed := by
      rw [hrec]
      rfl
    rw [hphase]
    refine ⟨?_, List.Subset.refl _, ?_, fun _ row hr => Or.inl hr⟩
    · rw [hdue]
      exact OrdMap.get?_eq_some.mpr (hc List.mem_cons_self)
    · rw [hdue]
      exact fun x hx => hc (List.mem_cons_of_mem _ hx)

/-- A row sent is of the session due and carries its span. -/
theorem mem_rows {range : RangeToRecord} {session : Instant} {row : ObservedSlots}
    (h : row ∈ range.rows session) :
    row.sessionStartedAt = session ∧ row.span = range.span ∧ row.protocol ∈ range.protocols := by
  obtain ⟨protocol, hp, rfl⟩ := List.mem_map.mp h
  exact ⟨rfl, rfl, hp⟩

theorem upsert_inv (hw : w.Apart) (h : Inv w s) {session : Instant} {range : RangeToRecord}
    {row : ObservedSlots}
    (hdue : Due w s session range) (hrow : row ∈ range.rows session)
    (hr : s'.recorder.ranges = s.recorder.ranges) (hd : s'.recorder.due = s.recorder.due)
    (hwritten : s'.recorder.written = s.recorder.written)
    (ht : s'.recorder.table = s.recorder.table.upsert row) (hlatest : s'.latest = s.latest)
    (hover : s'.ended = s.ended) : s.Extends s' ∧ Inv w s' := by
  obtain ⟨rfl, hspan, _⟩ := mem_rows hrow
  obtain ⟨span, hs, hwid, _⟩ := hdue.latest
  obtain ⟨hsession, _⟩ := h.held.latest row.sessionStartedAt span hs
  have he : s.Extends s' := by
    refine ⟨?_, ?_, hover ▸ List.Subset.refl _⟩
    · intro protocol k old ho
      rw [ht]
      exact ObservedSlotRanges.upsert_widens ho
    · intro k old ho
      exact ⟨old, by rw [hlatest, ho], .refl _, fun _ => rfl⟩
  refine ⟨he, h.extend he ⟨?_, ?_⟩ ?_ hd (fun _ _ hs => hwritten ▸ hs) ?_⟩
  · rw [hlatest]
    exact h.held.latest
  · intro protocol k hk new hn
    rw [ht] at hn
    rw [hlatest]
    by_cases hsame : protocol = row.protocol ∧ columnInstant k = row.key
    · -- one row a session: the sessions' starts are apart in the column
      obtain ⟨rfl, hkey⟩ := hsame
      obtain rfl : k = row.sessionStartedAt := hw hk hsession hkey
      rw [← ObservedSlots.key, ObservedSlotRanges.upsert_self, hspan, Option.some.injEq] at hn
      subst hn
      cases ho : (s.recorder.table row.protocol).get? row.key with
      | none => exact ⟨hdue.dated.stored, span, hs, hwid⟩
      | some old =>
        obtain ⟨hdated, span', hs', hwid'⟩ := h.held.table _ _ hsession old ho
        rw [hs, Option.some.injEq] at hs'
        exact ⟨hdated.outward hdue.dated.stored, span, hs,
          ReceivedSpan.outward_within (hs' ▸ hwid') hwid⟩
    · rw [ObservedSlotRanges.upsert_other hsame] at hn
      exact h.held.table protocol k hk new hn
  · rw [hr, hlatest, hover]
    exact h.entry
  · rw [hr, hlatest]
    exact h.gone

theorem written_inv (h : Inv w s) {session : Instant} {span : ReceivedSpan}
    (hall : ∀ protocol ∈ w.protocols session, s.Holds protocol session span)
    (hr : s'.recorder = { s.recorder with written := s.recorder.written.insert session span })
    (hlatest : s'.latest = s.latest) (hover : s'.ended = s.ended) : s.Extends s' ∧ Inv w s' := by
  have he : s.Extends s' := .of_eq (by rw [hr]) hlatest (Or.inl hover)
  have hheld : Held w s' := h.held.of_eq (by rw [hr]) hlatest
  refine ⟨he, hheld, ?_, ?_, ?_, ?_⟩
  · rw [hr, hlatest, hover]
    exact h.entry
  · intro k range hd
    rw [hr] at hd
    exact (h.due k range hd).mono he
  · intro k span' hs protocol hp
    rw [hr, OrdMap.get?_insert] at hs
    split_ifs at hs with hk
    · rw [hk] at hp ⊢
      exact Option.some.inj hs ▸ (hall protocol hp).mono he
    · exact (h.written k span' hs protocol hp).mono he
  · intro k final hl hg
    rw [hlatest] at hl
    rw [hr] at hg
    exact (h.gone k final hl hg).mono he hheld

theorem forget_inv (h : Inv w s) {session : Instant} {final : ReceivedSpan}
    (hdone : Done w s session final) (hd : s'.recorder.due = s.recorder.due)
    (ht : s'.recorder.table = s.recorder.table)
    (hr : s'.recorder.ranges = s.recorder.ranges.erase session)
    (hw : s'.recorder.written = s.recorder.written.erase session) (hlatest : s'.latest = s.latest)
    (hover : s'.ended = s.ended) : s.Extends s' ∧ Inv w s' := by
  have he : s.Extends s' := .of_eq ht hlatest (Or.inl hover)
  refine ⟨he, h.extend he (h.held.of_eq ht hlatest) ?_ hd ?_ ?_⟩
  · intro k range hk
    rw [hr, OrdMap.get?_erase] at hk
    split_ifs at hk
    rw [hlatest, hover]
    exact h.entry k range hk
  · intro k span hs
    rw [hw, OrdMap.get?_erase] at hs
    split_ifs at hs
    exact hs
  · intro k final' hl hk
    rw [hlatest] at hl
    rw [hr, OrdMap.get?_erase] at hk
    split_ifs at hk with heq
    · subst heq
      rw [hdone.latest, Option.some.injEq] at hl
      exact hl ▸ hdone
    · exact h.gone k final' hl hk

theorem read_inv (h : Inv w s) (hr : s'.recorder.ranges = s.recorder.ranges)
    (hd : s'.recorder.due = s.recorder.ranges) (hw : s'.recorder.written = s.recorder.written)
    (ht : s'.recorder.table = s.recorder.table) (hlatest : s'.latest = s.latest)
    (hover : s'.ended = s.ended) : s.Extends s' ∧ Inv w s' := by
  have he : s.Extends s' := .of_eq ht hlatest (Or.inl hover)
  have hheld : Held w s' := h.held.of_eq ht hlatest
  refine ⟨he, hheld, ?_, ?_, ?_, ?_⟩
  · rw [hr, hlatest, hover]
    exact h.entry
  · intro session range hs
    rw [hd] at hs
    obtain ⟨hp, hl, hend⟩ := h.entry session range hs
    refine Due.mono ⟨hp, (h.held.latest session range.span hl).2, range.span, hl, .refl _, ?_⟩ he
    exact fun hended => ⟨hend hended, rfl⟩
  · intro session span hs protocol hp
    rw [hw] at hs
    exact (h.written session span hs protocol hp).mono he
  · intro session final hl hg
    rw [hlatest] at hl
    rw [hr] at hg
    exact (h.gone session final hl hg).mono he hheld

/-- One call: the row it is about is in the table if it answers well, and nothing is lost if not. -/
theorem record_inv (happ : w.Apart) (h : Inv w s) {stopping : Bool} {session : Instant}
    {range : RangeToRecord} {row : ObservedSlots} {rows : List ObservedSlots} {recorded : Bool}
    {changed : List (Instant × RangeToRecord)} (reply : Reply)
    (hwork : Working w s (.recording stopping session range (row :: rows) recorded changed))
    (hr : s'.recorder.ranges = s.recorder.ranges) (hd : s'.recorder.due = s.recorder.due)
    (hw : s'.recorder.written = s.recorder.written)
    (ht : s'.recorder.table = (s.recorder.table.record row reply).2) (hlatest : s'.latest = s.latest)
    (hover : s'.ended = s.ended) :
    s.Extends s' ∧ Inv w s' ∧ Working w s' (.recording stopping session range rows
      (recorded && (s.recorder.table.record row reply).1.isOk) changed) := by
  obtain ⟨hdue, hrows, hchanged, hdone⟩ := hwork
  have hrows' : rows ⊆ range.rows session := List.Subset.trans (List.subset_cons_self _ _) hrows
  have hrow : row ∈ range.rows session := hrows List.mem_cons_self
  rcases s.recorder.table.record_cases row reply with ⟨htable, hfail⟩ | htable
  · obtain ⟨he, hinv⟩ := h.same hr hd hw (ht.trans htable) hlatest hover
    refine ⟨he, hinv, by rw [hd, hdue], hrows', by rwa [hd], ?_⟩
    rw [hfail, Bool.and_false]
    exact fun hf => absurd hf Bool.false_ne_true
  · rw [htable] at ht
    obtain ⟨he, hinv⟩ := upsert_inv happ h (h.due session range hdue) hrow hr hd hw ht hlatest hover
    refine ⟨he, hinv, by rw [hd, hdue], hrows', by rwa [hd], ?_⟩
    intro hok row' hr'
    rcases hdone (Bool.and_eq_true_iff.mp hok).1 row' hr' with hin | hheld
    · rcases List.mem_cons.mp hin with rfl | hin
      · obtain ⟨rfl, hspan, _⟩ := mem_rows hrow
        right
        unfold Holds
        rw [ht, ← hspan]
        exact ObservedSlotRanges.upsert_holds _ _
      · exact Or.inl hin
    · exact Or.inr (hheld.mono he)

/-- The rows of one session are all sent: its span is written if they all went through. -/
theorem recorded_inv (h : Inv w s) {stopping : Bool} {session : Instant} {range : RangeToRecord}
    {recorded : Bool} {changed : List (Instant × RangeToRecord)}
    (hwork : Working w s (.recording stopping session range [] recorded changed))
    (hrec : s'.recorder = { s.recorder with
      written := if recorded then s.recorder.written.insert session range.span
        else s.recorder.written }.next stopping changed)
    (hlatest : s'.latest = s.latest) (hover : s'.ended = s.ended) :
    s.Extends s' ∧ Inv w s' ∧ Working w s' s'.recorder.phase := by
  obtain ⟨hdue, _, hchanged, hdone⟩ := hwork
  cases recorded with
  | false => exact next_inv h hchanged hrec hlatest hover
  | true =>
    have hall : ∀ protocol ∈ w.protocols session, s.Holds protocol session range.span := by
      intro protocol hp
      rw [← (h.due session range hdue).protocols] at hp
      have hrow := hdone rfl _ (List.mem_map_of_mem hp)
      exact hrow.resolve_left List.not_mem_nil
    let s₁ : Recording := { s with
      recorder := { s.recorder with written := s.recorder.written.insert session range.span } }
    have hs₁ : s.Extends s₁ ∧ Inv w s₁ := written_inv h hall rfl rfl rfl
    obtain ⟨he, hinv, hphase⟩ := next_inv hs₁.2 hchanged hrec hlatest hover
    exact ⟨hs₁.1.trans he, hinv, hphase⟩

theorem advance_recorder (s : Recording) (reply : Reply) :
    (s.advance reply).recorder = s.recorder.advance reply ∧ (s.advance reply).latest = s.latest ∧
      (s.advance reply).ended = s.ended := by
  unfold advance
  dsimp only
  split <;> exact ⟨rfl, rfl, rfl⟩

theorem advance_inv (happ : w.Apart) (h : Inv w s) (hwork : Working w s s.recorder.phase) (reply : Reply) :
    s.Extends (s.advance reply) ∧ Inv w (s.advance reply) ∧
      Working w (s.advance reply) (s.advance reply).recorder.phase := by
  obtain ⟨hrec, hlatest, hover⟩ := s.advance_recorder reply
  unfold SlotsRecorder.advance at hrec
  cases hph : s.recorder.phase with
  | waiting =>
    rw [hph] at hrec
    dsimp only at hrec
    obtain ⟨he, hinv⟩ := h.same (by rw [hrec]) (by rw [hrec]) (by rw [hrec]) (by rw [hrec]) hlatest hover
    refine ⟨he, hinv, ?_⟩
    rw [hrec, hph]
    trivial
  | stopped =>
    rw [hph] at hrec
    dsimp only at hrec
    obtain ⟨he, hinv⟩ := h.same (by rw [hrec]) (by rw [hrec]) (by rw [hrec]) (by rw [hrec]) hlatest hover
    refine ⟨he, hinv, ?_⟩
    rw [hrec, hph]
    trivial
  | recording stopping session range rows recorded changed =>
    rw [hph] at hwork hrec
    cases rows with
    | nil => exact recorded_inv h hwork hrec hlatest hover
    | cons row rows =>
      obtain ⟨he, hinv, hphase⟩ := record_inv happ h reply hwork (by rw [hrec]) (by rw [hrec]) (by rw [hrec])
        (by rw [hrec]) hlatest hover
      refine ⟨he, hinv, ?_⟩
      rw [hrec]
      exact hphase
  | forgetting stopping finished =>
    rw [hph] at hwork hrec
    cases finished with
    | nil =>
      cases stopping with
      | true =>
        dsimp only at hrec
        obtain ⟨he, hinv⟩ := h.same (by rw [hrec]) (by rw [hrec]) (by rw [hrec]) (by rw [hrec]) hlatest hover
        refine ⟨he, hinv, ?_⟩
        rw [hrec]
        trivial
      | false =>
        dsimp only at hrec
        obtain ⟨he, hinv⟩ := read_inv h (by rw [hrec]) (by rw [hrec]) (by rw [hrec]) (by rw [hrec]) hlatest
          hover
        refine ⟨he, hinv, ?_⟩
        rw [hrec]
        trivial
    | cons session finished =>
      dsimp only at hrec
      obtain ⟨final, hdone⟩ := hwork session List.mem_cons_self
      obtain ⟨he, hinv⟩ := forget_inv h hdone (by rw [hrec]) (by rw [hrec]) (by rw [hrec]; rfl)
        (by rw [hrec]) hlatest hover
      refine ⟨he, hinv, ?_⟩
      rw [hrec]
      intro k hk
      obtain ⟨final', hd⟩ := hwork k (List.mem_cons_of_mem _ hk)
      exact ⟨final', hd.mono he hinv.held⟩

theorem Step.inv (happ : w.Apart) (hstep : Step w s s') (h : Inv w s)
    (hwork : Working w s s.recorder.phase) :
    s.Extends s' ∧ Inv w s' ∧ Working w s' s'.recorder.phase := by
  cases hstep with
  | publish session span hsession hover hdated hwider =>
    obtain ⟨he, hinv⟩ := publish_inv h hsession hover hdated hwider
    exact ⟨he, hinv, hwork.mono he hinv.held rfl⟩
  | endSession session hover =>
    obtain ⟨he, hinv⟩ := endSession_inv h session
    exact ⟨he, hinv, hwork.mono he hinv.held rfl⟩
  | wake stopping hwaiting => exact next_inv h List.filter_sublist.subset rfl rfl rfl
  | advance reply => exact advance_inv happ h hwork reply

theorem new_inv : Inv w .new := by
  refine ⟨⟨?_, ?_⟩, ?_, ?_, ?_, ?_⟩
  · intro session span hs
    cases hs
  · intro protocol session _ row hr
    cases hr
  · intro session range hr
    cases hr
  · intro session range hr
    cases hr
  · intro session span hs
    cases hs
  · intro session final hl
    cases hl

/-- The steps of any run of the sessions and the recorder. -/
def Reaches (w : Watch) : Recording → Recording → Prop := Relation.ReflTransGen (Step w)

theorem Reaches.inv (happ : w.Apart) (hreach : Reaches w s s') (h : Inv w s)
    (hwork : Working w s s.recorder.phase) :
    s.Extends s' ∧ Inv w s' ∧ Working w s' s'.recorder.phase := by
  induction hreach with
  | refl => exact ⟨.refl _, h, hwork⟩
  | tail _ hstep ih =>
    obtain ⟨he, hinv, hphase⟩ := ih
    obtain ⟨he', hinv', hphase'⟩ := hstep.inv happ hinv hphase
    exact ⟨he.trans he', hinv', hphase'⟩

end YogSothoth.Grpc.Recording
