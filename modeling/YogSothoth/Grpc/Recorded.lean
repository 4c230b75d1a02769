import YogSothoth.Grpc.RecordingSteps
import YogSothoth.Grpc.SessionSpans

namespace YogSothoth.Grpc.Recording

variable {w : Watch} {s s' : Recording}

/-- What is due is what the last tick read, and each row sent was read at the tick before its own. -/
structure Sent (s : Recording) : Prop where
  due : s.recorder.due = s.read.getLast?.getD ∅
  sent : ∀ e ∈ s.sent, ∃ k snapshot range, e.1 = k + 1 ∧ s.read[k]? = some snapshot ∧
    snapshot.get? e.2.sessionStartedAt = some range ∧ e.2.span = range.span

theorem Sent.send (h : Sent s) {session : Instant} {range : RangeToRecord} {row : ObservedSlots}
    (hdue : s.recorder.due.get? session = some range) (hrow : row ∈ range.rows session) :
    ∃ k snapshot range, s.read.length = k + 1 ∧ s.read[k]? = some snapshot ∧
      snapshot.get? row.sessionStartedAt = some range ∧ row.span = range.span := by
  obtain ⟨hsession, hspan, _⟩ := mem_rows hrow
  rw [h.due] at hdue
  cases hread : s.read using List.reverseRecOn with
  | nil =>
    rw [hread] at hdue
    cases hdue
  | append_singleton read snapshot =>
    rw [hread, List.getLast?_concat, Option.getD_some] at hdue
    exact ⟨read.length, snapshot, range, by simp, by simp, hsession ▸ hdue, hspan⟩

theorem Sent.of_eq (h : Sent s) (hd : s'.recorder.due = s.recorder.due) (hr : s'.read = s.read)
    (hs : s'.sent = s.sent) : Sent s' := by
  refine ⟨by rw [hd, hr, h.due], ?_⟩
  rw [hr, hs]
  exact h.sent

theorem next_due (r : SlotsRecorder) (stopping : Bool) (changed : List (Instant × RangeToRecord)) :
    (r.next stopping changed).due = r.due ∧ (r.next stopping changed).ranges = r.ranges := by
  cases changed <;> exact ⟨rfl, rfl⟩

/-- The recorder loses an entry only where it forgets one. -/
theorem advance_ranges (r : SlotsRecorder) (reply : Reply) :
    (r.advance reply).ranges = r.ranges ∨
      ∃ stopping session finished, r.phase = .forgetting stopping (session :: finished) ∧
        (r.advance reply).ranges = r.ranges.erase session := by
  obtain ⟨ranges, due, written, phase, table⟩ := r
  cases phase with
  | waiting => exact Or.inl rfl
  | stopped => exact Or.inl rfl
  | recording stopping session range rows recorded changed =>
    cases rows with
    | nil => exact Or.inl (next_due _ _ _).2
    | cons row rows => exact Or.inl rfl
  | forgetting stopping finished =>
    cases finished with
    | nil => cases stopping <;> exact Or.inl rfl
    | cons session finished =>
      exact Or.inr ⟨stopping, session, finished, rfl, by cases stopping <;> rfl⟩

theorem advance_sent (h : Sent s) (hwork : Working w s s.recorder.phase) (reply : Reply) :
    Sent (s.advance reply) := by
  obtain ⟨⟨ranges, due, written, phase, table⟩, latest, ended, read, sent⟩ := s
  cases phase with
  | waiting => exact h.of_eq rfl rfl rfl
  | stopped => exact h.of_eq rfl rfl rfl
  | recording stopping session range rows recorded changed =>
    cases rows with
    | nil => exact h.of_eq (next_due _ _ _).1 rfl rfl
    | cons row rows =>
      refine ⟨h.due, ?_⟩
      intro e he
      rcases List.mem_append.mp he with he | he
      · exact h.sent e he
      · rw [List.mem_singleton.mp he]
        exact h.send hwork.1 (hwork.2.1 List.mem_cons_self)
  | forgetting stopping finished =>
    cases finished with
    | cons session finished => cases stopping <;> exact h.of_eq rfl rfl rfl
    | nil =>
      cases stopping with
      | true => exact h.of_eq rfl rfl rfl
      | false =>
        refine ⟨?_, ?_⟩
        · change ranges = (read ++ [ranges]).getLast?.getD ∅
          simp
        · intro e he
          obtain ⟨k, snapshot, range, hk, hread, hrest⟩ := h.sent e he
          refine ⟨k, snapshot, range, hk, ?_, hrest⟩
          exact List.getElem?_append_left (List.getElem?_eq_some_iff.mp hread).1 ▸ hread

theorem Step.sent (hstep : Step w s s') (hwork : Working w s s.recorder.phase) (h : Sent s) : Sent s' := by
  cases hstep with
  | publish session span hsession hover hdated hwider => exact h.of_eq rfl rfl rfl
  | endSession session hover => exact h.of_eq rfl rfl rfl
  | wake stopping hwaiting => exact h.of_eq (next_due _ _ _).1 rfl rfl
  | advance reply => exact advance_sent h hwork reply

/-- What a step may do to an entry: a session that is not over publishes or ends it, and the recorder
drops it where it forgets. -/
theorem Step.entry (hstep : Step w s s') (session : Instant) :
    s'.recorder.ranges.get? session = s.recorder.ranges.get? session ∨
      session ∉ s.ended ∧
        (s'.recorder.ranges.get? session = none → s.recorder.ranges.get? session = none) ∨
      ∃ stopping finished, s.recorder.phase = .forgetting stopping (session :: finished) ∧
        s'.recorder.ranges.get? session = none := by
  cases hstep with
  | publish k span hsession hover hdated hwider =>
    by_cases hk : session = k
    · subst hk
      refine Or.inr (Or.inl ⟨hover, ?_⟩)
      intro hn
      have hsome : (s.recorder.ranges.insert session ⟨w.protocols session, span, false⟩).get? session =
        none := hn
      rw [OrdMap.get?_insert_self] at hsome
      cases hsome
    · exact Or.inl (OrdMap.get?_insert_of_ne _ _ hk)
  | endSession k hover =>
    change (s.recorder.ranges.endSession k).get? session = _ ∨
      _ ∧ ((s.recorder.ranges.endSession k).get? session = none → _) ∨ _
    unfold RangesToRecord.endSession
    split
    · by_cases hk : session = k
      · subst hk
        rw [OrdMap.get?_insert_self]
        exact Or.inr (Or.inl ⟨hover, fun hn => by cases hn⟩)
      · exact Or.inl (OrdMap.get?_insert_of_ne _ _ hk)
    · exact Or.inl rfl
  | wake stopping hwaiting =>
    exact Or.inl (congrArg (fun ranges : RangesToRecord => ranges.get? session) (next_due _ _ _).2)
  | advance reply =>
    rw [(s.advance_recorder reply).1]
    rcases advance_ranges s.recorder reply with hr | ⟨stopping, k, finished, hph, hr⟩
    · exact Or.inl (by rw [hr])
    · rw [hr, OrdMap.get?_erase]
      split_ifs with hk
      · subst hk
        exact Or.inr (Or.inr ⟨stopping, finished, hph, rfl⟩)
      · exact Or.inl rfl

theorem Step.forgotten (hstep : Step w s s') {session : Instant} (hover : session ∈ s.ended)
    (h : s.recorder.ranges.get? session = none) : s'.recorder.ranges.get? session = none := by
  rcases hstep.entry session with hsame | ⟨hnot, _⟩ | ⟨_, _, _, hnone⟩
  · exact hsame.trans h
  · exact absurd hover hnot
  · exact hnone

/-- An entry that goes is that of a session done with. -/
theorem Step.forgets (hstep : Step w s s') (h : Inv w s) (hwork : Working w s s.recorder.phase)
    {session : Instant} {range : RangeToRecord} (hin : s.recorder.ranges.get? session = some range)
    (hout : s'.recorder.ranges.get? session = none) : Done w s session range.span := by
  rcases hstep.entry session with hsame | ⟨_, hback⟩ | ⟨stopping, finished, hph, _⟩
  · rw [hsame, hin] at hout
    cases hout
  · rw [hback hout] at hin
    cases hin
  · rw [hph] at hwork
    obtain ⟨final, hdone⟩ := hwork session List.mem_cons_self
    have hl := (h.entry session range hin).2.1
    rw [hdone.latest, Option.some.injEq] at hl
    exact hl ▸ hdone

theorem Reaches.sent (happ : w.Apart) (hreach : Reaches w .new s) : Sent s := by
  induction hreach with
  | refl =>
    refine ⟨rfl, ?_⟩
    intro e he
    cases he
  | tail hreach hstep ih => exact hstep.sent (Reaches.inv happ hreach new_inv trivial).2.2 ih

theorem Reaches.forgotten (happ : w.Apart) (hreach : Reaches w s s') (h : Inv w s)
    (hwork : Working w s s.recorder.phase) {session : Instant} (hover : session ∈ s.ended)
    (hnone : s.recorder.ranges.get? session = none) :
    s'.recorder.ranges.get? session = none := by
  induction hreach with
  | refl => exact hnone
  | tail hreach hstep ih => exact hstep.forgotten ((Reaches.inv happ hreach h hwork).1.ended hover) ih

/-- In every run of sessions that start in different microseconds: a row sent was in the entries at the
tick before; a row in the table lies within the latest span of its session, only widens, and is dated
by its slots; an entry goes only once its session is over and all its rows are its last span; from
then on they stay it; and what another session publishes changes neither the entry nor the rows. -/
theorem Reaches.records (happ : w.Apart) (hreach : Reaches w .new s) :
    (∀ e ∈ s.sent, ∃ k snapshot range, e.1 = k + 1 ∧ s.read[k]? = some snapshot ∧
      snapshot.get? e.2.sessionStartedAt = some range ∧ e.2.span = range.span) ∧
    (∀ protocol, ∀ session ∈ w.sessions, ∀ row,
      (s.recorder.table protocol).get? (columnInstant session) = some row →
      (∃ span, s.latest.get? session = some span ∧ row.Widens span) ∧
      row.Dated (w.columnTimeOf session) ∧
      ∀ s', Reaches w s s' → ∃ row',
        (s'.recorder.table protocol).get? (columnInstant session) = some row' ∧ row.Widens row') ∧
    (∀ s' session range, Step w s s' → s.recorder.ranges.get? session = some range →
      s'.recorder.ranges.get? session = none →
      session ∈ s.ended ∧ s.latest.get? session = some range.span ∧
        ∀ protocol ∈ w.protocols session,
          (s.recorder.table protocol).get? (columnInstant session) = some range.span.stored) ∧
    (∀ session final, session ∈ s.ended → s.latest.get? session = some final →
      s.recorder.ranges.get? session = none → ∀ s', Reaches w s s' →
      s'.latest.get? session = some final ∧ s'.recorder.ranges.get? session = none ∧
        ∀ protocol ∈ w.protocols session,
          (s'.recorder.table protocol).get? (columnInstant session) = some final.stored) ∧
    (∀ session ∈ w.sessions, ∀ later ∈ w.sessions, later ≠ session →
      (∀ range, (s.publish later range).recorder.ranges.get? session = s.recorder.ranges.get? session ∧
        (s.publish later range).recorder.table = s.recorder.table) ∧
      ∀ row reply protocol, row.sessionStartedAt = later →
        ((s.recorder.table.record row reply).2 protocol).get? (columnInstant session) =
          (s.recorder.table protocol).get? (columnInstant session)) := by
  obtain ⟨_, hinv, hwork⟩ := hreach.inv happ new_inv trivial
  refine ⟨(hreach.sent happ).sent, ?_, ?_, ?_, ?_⟩
  · intro protocol session hsession row hr
    obtain ⟨hdated, hwithin⟩ := hinv.held.table protocol session hsession row hr
    refine ⟨hwithin, hdated, ?_⟩
    intro s' hreach'
    exact (hreach'.inv happ hinv hwork).1.table protocol (columnInstant session) row hr
  · intro s' session range hstep hin hout
    have hdone := hstep.forgets hinv hwork hin hout
    exact ⟨hdone.ended, hdone.latest, hdone.rows⟩
  · intro session final hover hl hnone s' hreach'
    obtain ⟨he, hinv', _⟩ := hreach'.inv happ hinv hwork
    have hdone := (hinv.gone session final hl hnone).mono he hinv'.held
    exact ⟨hdone.latest, hreach'.forgotten happ hinv hwork hover hnone, hdone.rows⟩
  · intro session hsession later hlater hne
    refine ⟨fun range => ⟨OrdMap.get?_insert_of_ne _ _ hne.symm, rfl⟩, ?_⟩
    rintro row reply protocol rfl
    rcases s.recorder.table.record_cases row reply with ⟨ht, _⟩ | ht
    · rw [ht]
    · rw [ht, ObservedSlotRanges.upsert_other (fun h => hne (happ hlater hsession h.2.symm))]

/-- Spans that only widen, dated by their slots, are steps of the recording when published in order. -/
theorem publishes_reached {session : Instant} {ranges : List RangeToRecord}
    (hsession : session ∈ w.sessions) (hover : session ∉ s.ended)
    (hrange : ∀ range ∈ ranges, range = ⟨w.protocols session, range.span, false⟩ ∧
      range.span.Dated (w.timeOf session))
    (hwiden : ranges.Pairwise (fun a b => a.span.Widens b.span))
    (hlatest : ∀ old, s.latest.get? session = some old → ∀ range ∈ ranges, old.Widens range.span) :
    Reaches w s (ranges.foldl (fun s range => s.publish session range) s) := by
  induction ranges generalizing s with
  | nil => exact .refl
  | cons range ranges ih =>
    obtain ⟨hhead, htail⟩ := List.pairwise_cons.mp hwiden
    obtain ⟨heq, hdated⟩ := hrange range List.mem_cons_self
    have hstep : Step w s (s.publish session range) := by
      rw [heq]
      exact .publish session range.span hsession hover hdated
        (fun old ho => hlatest old ho range List.mem_cons_self)
    refine .head hstep (ih hover (fun r hr => hrange r (List.mem_cons_of_mem _ hr)) htail ?_)
    intro old ho
    have hold : (s.latest.insert session range.span).get? session = some old := ho
    rw [OrdMap.get?_insert_self, Option.some.injEq] at hold
    exact hold ▸ hhead

/-- What one session publishes, whatever arrives, as long as a slot's block time does not change. -/
theorem session_reached {T : Type*} {startedAt : Instant} (arrivals : List (Arrival T))
    (hsession : startedAt ∈ w.sessions)
    (htime : ∀ e ∈ timedMetas arrivals, e.2 = w.timeOf startedAt e.1) (hover : startedAt ∉ s.ended)
    (hnew : s.latest.get? startedAt = none) :
    Reaches w s ((SessionRun.exec startedAt (w.protocols startedAt) arrivals).published.foldl
      (fun s range => s.publish startedAt range) s) := by
  by_cases hp : w.protocols startedAt = []
  · rw [hp, (SessionRun.exec_unwatched startedAt arrivals).2]
    exact .refl
  · have hfrom := SessionRun.exec_receivedSlots startedAt (w.protocols startedAt) hp arrivals
    refine publishes_reached hsession hover ?_ hfrom.widening ?_
    · intro range hr
      have hends := (hfrom.sound range hr).ends
      refine ⟨SessionRun.exec_ranges startedAt _ arrivals range hr, ⟨?_, ?_⟩⟩
      · exact htime _ (hends (range.span.first, range.span.firstAt) (by simp [ReceivedSpan.ends])).1
      · exact htime _ (hends (range.span.last, range.span.lastAt) (by simp [ReceivedSpan.ends])).1
    · intro old ho
      rw [hnew] at ho
      cases ho

/-- Slot `n` at second `n`, and one protocol. -/
def everySecond (sessions : Set Instant) : Watch :=
  ⟨sessions, fun _ => [.meteoraDlmm], fun _ slot => slot * 1000000000⟩

def spanning (first last : Nat) : ReceivedSpan :=
  ⟨first, first * 1000000000, last, last * 1000000000⟩

theorem publishes {sessions : Set Instant} {session : Instant} (first last : Nat)
    (hsession : session ∈ sessions) (hover : session ∉ s.ended)
    (hwider : ∀ old, s.latest.get? session = some old → old.Widens (spanning first last)) :
    Step (everySecond sessions) s
      (s.publish session ⟨[.meteoraDlmm], spanning first last, false⟩) :=
  .publish session (spanning first last) hsession hover ⟨rfl, rfl⟩ hwider

/-- A nanosecond past the start of 2026. -/
def newYear : Instant := 1767225600000000001

/-- A session widens its span after the first reading and ends; the call that writes its last span
loses its answer, is made again, and the entry goes. -/
def retried : Recording :=
  let s := Recording.new.publish newYear ⟨[.meteoraDlmm], spanning 10 20, false⟩
  let s := ((s.wake false).advance .accepted).publish newYear ⟨[.meteoraDlmm], spanning 10 25, false⟩
  let s := (((s.endSession newYear).wake false).advance .accepted).advance .accepted
  let s := (((s.advance .accepted).wake false).advance (.lost (.timeout "57014"))).advance .accepted
  let s := (((s.advance .accepted).wake false).advance .accepted).advance .accepted
  s.advance .accepted

theorem retried_reached {sessions : Set Instant} (hsession : newYear ∈ sessions) :
    Reaches (everySecond sessions) .new retried := by
  refine .head (publishes 10 20 hsession List.not_mem_nil ?_) ?_
  · intro old ho
    cases ho
  refine .head (.wake false rfl) (.head (.advance .accepted) ?_)
  refine .head (publishes 10 25 hsession List.not_mem_nil ?_) ?_
  · intro old ho
    have hold : old = spanning 10 20 := (Option.some.inj ho).symm
    rw [hold]
    exact ⟨by decide, by decide⟩
  refine .head (.endSession newYear List.not_mem_nil) (.head (.wake false rfl) ?_)
  refine .head (.advance .accepted) (.head (.advance .accepted) (.head (.advance .accepted) ?_))
  refine .head (.wake false (by decide +kernel)) (.head (.advance (.lost (.timeout "57014"))) ?_)
  refine .head (.advance .accepted) (.head (.advance .accepted) (.head (.wake false ?_) ?_))
  · decide +kernel
  exact .head (.advance .accepted) (.head (.advance .accepted) (.head (.advance .accepted) .refl))

theorem everySecond_apart : (everySecond {newYear, newYear + 1000}).Apart := by
  have hne : columnInstant newYear ≠ columnInstant (newYear + 1000) := by decide +kernel
  intro a ha b hb h
  rcases ha with rfl | rfl <;> rcases hb with rfl | rfl
  · rfl
  · exact absurd h hne
  · exact absurd h.symm hne
  · rfl

/-- All of it at once: three rows sent, the last span in the table, and no entry left, whatever a
session of the next microsecond publishes. -/
theorem records_retried :
    retried.sent.map (fun e => (e.1, e.2.lastSlot)) = [(1, 20), (2, 25), (3, 25)] ∧
      retried.recorder.ranges.get? newYear = none ∧
      ∀ s', Reaches (everySecond {newYear, newYear + 1000}) retried s' →
        (s'.recorder.table .meteoraDlmm).get? (columnInstant newYear) = some (spanning 10 25) := by
  have h := Reaches.records everySecond_apart (retried_reached (Set.mem_insert _ _))
  refine ⟨by decide +kernel, by decide +kernel, ?_⟩
  intro s' hreach
  have hrow := (h.2.2.2.1 newYear (spanning 10 25) (by decide +kernel) (by decide +kernel)
    (by decide +kernel) s' hreach).2.2 .meteoraDlmm List.mem_cons_self
  rw [hrow]
  decide +kernel

/-- A session that starts a nanosecond after the first, which is over and forgotten, publishes a span
of its own, and it is written. -/
def shared : Recording :=
  let s := retried.publish (newYear + 1) ⟨[.meteoraDlmm], spanning 40 50, false⟩
  ((s.advance .accepted).wake false).advance .accepted

theorem shared_reached : Reaches (everySecond {newYear, newYear + 1}) .new shared := by
  refine (retried_reached (Set.mem_insert _ _)).trans ?_
  refine .head (publishes 40 50 (Set.mem_insert_of_mem _ rfl) (by decide +kernel) ?_) ?_
  · intro old ho
    cases ho
  exact .head (.advance .accepted) (.head (.wake false (by decide +kernel))
    (.head (.advance .accepted) .refl))

/-- Two starts of one microsecond share their row: the span of the first, over and forgotten, is gone
from the table, and its row is within neither span. -/
theorem records_shared :
    newYear ≠ newYear + 1 ∧ Reaches (everySecond {newYear, newYear + 1}) .new shared ∧
      newYear ∈ shared.ended ∧ shared.recorder.ranges.get? newYear = none ∧
      shared.latest.get? newYear = some (spanning 10 25) ∧
      (retried.recorder.table .meteoraDlmm).get? (columnInstant newYear) = some (spanning 10 25) ∧
      (shared.recorder.table .meteoraDlmm).get? (columnInstant newYear) = some (spanning 10 50) ∧
      ¬ (spanning 10 50).Widens (spanning 10 25) ∧ ¬ (spanning 10 50).Widens (spanning 40 50) := by
  refine ⟨by decide, shared_reached, ?_, ?_, ?_, ?_, ?_, fun h => ?_, fun h => ?_⟩
  · decide +kernel
  · decide +kernel
  · decide +kernel
  · decide +kernel
  · decide +kernel
  · exact absurd h.2 (by decide)
  · exact absurd h.1 (by decide)

end YogSothoth.Grpc.Recording
