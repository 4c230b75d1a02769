import YogSothoth.Grpc.SlotsRecorder
import YogSothoth.Grpc.Spans
import Mathlib.Data.Set.Function
import Mathlib.Logic.Relation

namespace YogSothoth.Grpc

/-- The instant of each end is that of its slot. -/
structure ReceivedSpan.Dated (span : ReceivedSpan) (timeOf : Nat → Instant) : Prop where
  first : span.firstAt = timeOf span.first
  last : span.lastAt = timeOf span.last

namespace ReceivedSpan

theorem Dated.eq {a b : ReceivedSpan} {timeOf : Nat → Instant} (ha : a.Dated timeOf)
    (hb : b.Dated timeOf) (hab : a.Widens b) (hba : b.Widens a) : a = b := by
  have hfirst : a.first = b.first := le_antisymm hba.1 hab.1
  have hlast : a.last = b.last := le_antisymm hab.2 hba.2
  obtain ⟨ha1, ha2⟩ := ha
  obtain ⟨hb1, hb2⟩ := hb
  rw [hfirst, ← hb1] at ha1
  rw [hlast, ← hb2] at ha2
  cases a
  cases b
  simp_all

theorem outward_widens (row new : ReceivedSpan) :
    row.Widens (row.outward new) ∧ new.Widens (row.outward new) :=
  ⟨⟨min_le_left _ _, le_max_left _ _⟩, min_le_right _ _, le_max_right _ _⟩

theorem outward_within {row new final : ReceivedSpan} (hrow : row.Widens final)
    (hnew : new.Widens final) : (row.outward new).Widens final :=
  ⟨le_min hrow.1 hnew.1, max_le hrow.2 hnew.2⟩

theorem Dated.stored {span : ReceivedSpan} {timeOf : Nat → Instant} (h : span.Dated timeOf) :
    span.stored.Dated (fun slot => columnInstant (timeOf slot)) :=
  ⟨congrArg columnInstant h.first, congrArg columnInstant h.last⟩

/-- The instant that stays, or moves, is that of the slot that does. -/
theorem Dated.outward {row new : ReceivedSpan} {timeOf : Nat → Instant} (hrow : row.Dated timeOf)
    (hnew : new.Dated timeOf) : (row.outward new).Dated timeOf := by
  constructor
  · unfold ReceivedSpan.outward
    dsimp only
    split_ifs with h
    · rw [min_eq_right h.le, hnew.first]
    · rw [min_eq_left (not_lt.mp h), hrow.first]
  · unfold ReceivedSpan.outward
    dsimp only
    split_ifs with h
    · rw [max_eq_right h.le, hnew.last]
    · rw [max_eq_left (not_lt.mp h), hrow.last]

end ReceivedSpan

namespace ObservedSlotRanges

theorem upsert_other {table : ObservedSlotRanges} {observed : ObservedSlots} {protocol : Protocol}
    {key : Instant} (h : ¬ (protocol = observed.protocol ∧ key = observed.key)) :
    (table.upsert observed protocol).get? key = (table protocol).get? key := by
  unfold upsert
  split_ifs with hp
  · exact OrdMap.get?_insert_of_ne _ _ (fun hs => h ⟨hp, hs⟩)
  · rfl

/-- The row written holds the span recorded, and what the row held. -/
theorem upsert_self (table : ObservedSlotRanges) (observed : ObservedSlots) :
    (table.upsert observed observed.protocol).get? observed.key =
      some (((table observed.protocol).get? observed.key).elim observed.span.stored
        (fun row => row.outward observed.span.stored)) := by
  unfold upsert
  rw [if_pos rfl]
  cases (table observed.protocol).get? observed.key <;>
    exact OrdMap.get?_insert_self _ _ _

theorem upsert_widens {table : ObservedSlotRanges} {observed : ObservedSlots} {protocol : Protocol}
    {key : Instant} {row : ReceivedSpan} (h : (table protocol).get? key = some row) :
    ∃ row', (table.upsert observed protocol).get? key = some row' ∧ row.Widens row' := by
  by_cases hk : protocol = observed.protocol ∧ key = observed.key
  · obtain ⟨rfl, rfl⟩ := hk
    rw [upsert_self, h]
    exact ⟨_, rfl, (row.outward_widens _).1⟩
  · rw [upsert_other hk]
    exact ⟨row, h, .refl _⟩

theorem upsert_holds (table : ObservedSlotRanges) (observed : ObservedSlots) :
    ∃ row, (table.upsert observed observed.protocol).get? observed.key = some row ∧
      observed.span.Widens row := by
  rw [upsert_self]
  cases (table observed.protocol).get? observed.key with
  | none => exact ⟨_, rfl, .refl _⟩
  | some row => exact ⟨_, rfl, (row.outward_widens observed.span.stored).2⟩

/-- A call that answers well has written; any other has written or changed nothing. -/
theorem record_cases (table : ObservedSlotRanges) (observed : ObservedSlots) (reply : Reply) :
    ((table.record observed reply).2 = table ∧ (table.record observed reply).1.isOk = false) ∨
      (table.record observed reply).2 = table.upsert observed := by
  unfold record
  cases convertU64ToI64 (.ofNat observed.firstSlot) "first_slot" with
  | error e => exact Or.inl ⟨rfl, rfl⟩
  | ok _ =>
    cases convertU64ToI64 (.ofNat observed.lastSlot) "last_slot" with
    | error e => exact Or.inl ⟨rfl, rfl⟩
    | ok _ =>
      cases reply with
      | accepted => exact Or.inr rfl
      | refused e => exact Or.inl ⟨rfl, rfl⟩
      | lost e => exact Or.inr rfl

end ObservedSlotRanges

/-- The starts of the sessions, and what is fixed of a session by its own: the protocols it watches
whole, and the block time of each slot. -/
structure Watch where
  sessions : Set Instant
  protocols : Instant → List Protocol
  timeOf : Instant → Nat → Instant

/-- No two sessions start within one microsecond, as the key column counts them. -/
def Watch.Apart (w : Watch) : Prop := Set.InjOn columnInstant w.sessions

/-- The block time of a slot as a row holds it. -/
def Watch.columnTimeOf (w : Watch) (session : Instant) (slot : Nat) : Instant :=
  columnInstant (w.timeOf session slot)

/-- The recorder beside the sessions: the latest span of each, those that are over, what each tick
read, and each row sent with the number of the tick that sent it. -/
structure Recording where
  recorder : SlotsRecorder
  latest : OrdMap Instant ReceivedSpan
  ended : List Instant
  read : List RangesToRecord
  sent : List (Nat × ObservedSlots)

namespace Recording

def new : Recording := ⟨.new, ∅, [], [], []⟩

def publish (s : Recording) (session : Instant) (range : RangeToRecord) : Recording :=
  { s with
    recorder := { s.recorder with ranges := s.recorder.ranges.publish session range }
    latest := s.latest.insert session range.span }

def endSession (s : Recording) (session : Instant) : Recording :=
  { s with
    recorder := { s.recorder with ranges := s.recorder.ranges.endSession session }
    ended := session :: s.ended }

def wake (s : Recording) (stopping : Bool) : Recording :=
  { s with recorder := s.recorder.wake stopping }

def advance (s : Recording) (reply : Reply) : Recording :=
  let s' := { s with recorder := s.recorder.advance reply }
  match s.recorder.phase with
  | .recording _ _ _ (row :: _) _ _ => { s' with sent := s.sent ++ [(s.read.length, row)] }
  | .forgetting false [] => { s' with read := s.read ++ [s.recorder.ranges] }
  | _ => s'

/-- A session that is not over publishes a span at least as wide as its last, each end at the time of
its slot; it ends once; the recorder wakes when it waits, and otherwise goes on. -/
inductive Step (w : Watch) : Recording → Recording → Prop where
  | publish {s : Recording} (session : Instant) (span : ReceivedSpan) (hsession : session ∈ w.sessions)
      (hover : session ∉ s.ended) (hdated : span.Dated (w.timeOf session))
      (hwider : ∀ old, s.latest.get? session = some old → old.Widens span) :
      Step w s (s.publish session ⟨w.protocols session, span, false⟩)
  | endSession {s : Recording} (session : Instant) (hover : session ∉ s.ended) :
      Step w s (s.endSession session)
  | wake {s : Recording} (stopping : Bool) (hwaiting : s.recorder.phase = .waiting) :
      Step w s (s.wake stopping)
  | advance {s : Recording} (reply : Reply) : Step w s (s.advance reply)

/-- What only moves one way: rows and spans widen, an ended session's span no more, and what is over
stays over. -/
structure Extends (s s' : Recording) : Prop where
  table : ∀ protocol key row, (s.recorder.table protocol).get? key = some row →
    ∃ row', (s'.recorder.table protocol).get? key = some row' ∧ row.Widens row'
  latest : ∀ session span, s.latest.get? session = some span →
    ∃ span', s'.latest.get? session = some span' ∧ span.Widens span' ∧
      (session ∈ s.ended → span' = span)
  ended : s.ended ⊆ s'.ended

theorem Extends.of_eq {s s' : Recording} (ht : s'.recorder.table = s.recorder.table)
    (hl : s'.latest = s.latest) (ho : s'.ended = s.ended ∨ s.ended ⊆ s'.ended) : s.Extends s' := by
  refine ⟨?_, ?_, ho.elim (fun heq => heq ▸ List.Subset.refl _) id⟩
  · intro protocol session row h
    exact ⟨row, by rw [ht, h], .refl _⟩
  · intro session span h
    exact ⟨span, by rw [hl, h], .refl _, fun _ => rfl⟩

theorem Extends.refl (s : Recording) : s.Extends s := .of_eq rfl rfl (Or.inl rfl)

theorem Extends.trans {a b c : Recording} (h : a.Extends b) (h' : b.Extends c) : a.Extends c := by
  refine ⟨?_, ?_, List.Subset.trans h.ended h'.ended⟩
  · intro protocol session row hr
    obtain ⟨row', hr', hw⟩ := h.table protocol session row hr
    obtain ⟨row'', hr'', hw'⟩ := h'.table protocol session row' hr'
    exact ⟨row'', hr'', hw.trans hw'⟩
  · intro session span hs
    obtain ⟨span', hs', hw, heq⟩ := h.latest session span hs
    obtain ⟨span'', hs'', hw', heq'⟩ := h'.latest session span' hs'
    exact ⟨span'', hs'', hw.trans hw', fun ho => (heq' (h.ended ho)).trans (heq ho)⟩

section Invariant

variable (w : Watch) (s : Recording)

/-- Every row lies within the latest span of its session, and everything is dated by its slots. -/
structure Held : Prop where
  latest : ∀ session span, s.latest.get? session = some span →
    session ∈ w.sessions ∧ span.Dated (w.timeOf session)
  table : ∀ protocol, ∀ session ∈ w.sessions, ∀ row,
    (s.recorder.table protocol).get? (columnInstant session) = some row →
      row.Dated (w.columnTimeOf session) ∧
        ∃ span, s.latest.get? session = some span ∧ row.Widens span

/-- The row of `protocol` holds `span`. -/
def Holds (protocol : Protocol) (session : Instant) (span : ReceivedSpan) : Prop :=
  ∃ row, (s.recorder.table protocol).get? (columnInstant session) = some row ∧ span.Widens row

/-- A reading of a session's entry: within what it published since, and its last once it is over. -/
structure Due (session : Instant) (range : RangeToRecord) : Prop where
  protocols : range.protocols = w.protocols session
  dated : range.span.Dated (w.timeOf session)
  latest : ∃ span, s.latest.get? session = some span ∧ range.span.Widens span ∧
    (range.ended = true → session ∈ s.ended ∧ span = range.span)

/-- A session over, whose last span is the row of each of its protocols. -/
structure Done (session : Instant) (final : ReceivedSpan) : Prop where
  ended : session ∈ s.ended
  latest : s.latest.get? session = some final
  rows : ∀ protocol ∈ w.protocols session,
    (s.recorder.table protocol).get? (columnInstant session) = some final.stored

/-- What a write has done, where it stands. -/
def Working : Phase → Prop
  | .waiting | .stopped => True
  | .recording _ session range rows recorded changed =>
    s.recorder.due.get? session = some range ∧ rows ⊆ range.rows session ∧
      changed ⊆ s.recorder.due.entries ∧
      (recorded = true → ∀ row ∈ range.rows session,
        row ∈ rows ∨ s.Holds row.protocol session range.span)
  | .forgetting _ finished => ∀ session ∈ finished, ∃ final, Done w s session final

/-- What holds whatever the recorder does next. -/
structure Inv : Prop where
  held : Held w s
  entry : ∀ session range, s.recorder.ranges.get? session = some range →
    range.protocols = w.protocols session ∧ s.latest.get? session = some range.span ∧
      (range.ended = true → session ∈ s.ended)
  due : ∀ session range, s.recorder.due.get? session = some range → Due w s session range
  written : ∀ session span, s.recorder.written.get? session = some span →
    ∀ protocol ∈ w.protocols session, s.Holds protocol session span
  gone : ∀ session final, s.latest.get? session = some final → s.recorder.ranges.get? session = none →
    Done w s session final

variable {w s} {s' : Recording}

theorem Holds.mono {protocol : Protocol} {session : Instant} {span : ReceivedSpan}
    (h : s.Holds protocol session span) (he : s.Extends s') : s'.Holds protocol session span := by
  obtain ⟨row, hr, hw⟩ := h
  obtain ⟨row', hr', hw'⟩ := he.table protocol (columnInstant session) row hr
  exact ⟨row', hr', hw.trans hw'⟩

theorem Held.of_eq (h : Held w s) (ht : s'.recorder.table = s.recorder.table)
    (hl : s'.latest = s.latest) : Held w s' := by
  refine ⟨?_, ?_⟩
  · rw [hl]
    exact h.latest
  · rw [ht, hl]
    exact h.table

theorem Due.mono {session : Instant} {range : RangeToRecord} (h : Due w s session range)
    (he : s.Extends s') : Due w s' session range := by
  obtain ⟨span, hs, hw, hend⟩ := h.latest
  obtain ⟨span', hs', hw', heq⟩ := he.latest session span hs
  refine ⟨h.protocols, h.dated, span', hs', hw.trans hw', ?_⟩
  intro hended
  obtain ⟨hover, rfl⟩ := hend hended
  exact ⟨he.ended hover, heq hover⟩

/-- A row that holds the last span of a session is that span, at the column's instants. -/
theorem Held.row_eq (h : Held w s) {protocol : Protocol} {session : Instant} {final : ReceivedSpan}
    (hl : s.latest.get? session = some final) (hh : s.Holds protocol session final) :
    (s.recorder.table protocol).get? (columnInstant session) = some final.stored := by
  obtain ⟨row, hr, hw⟩ := hh
  obtain ⟨hsession, hfinal⟩ := h.latest session final hl
  obtain ⟨hdated, span, hs, hw'⟩ := h.table protocol session hsession row hr
  rw [hl, Option.some.injEq] at hs
  subst hs
  rw [hr, hdated.eq hfinal.stored hw' hw]

theorem Done.mono {session : Instant} {final : ReceivedSpan} (h : Done w s session final)
    (he : s.Extends s') (hheld : Held w s') : Done w s' session final := by
  obtain ⟨final', hl, _, heq⟩ := he.latest session final h.latest
  rw [heq h.ended] at hl
  refine ⟨he.ended h.ended, hl, ?_⟩
  intro protocol hp
  exact hheld.row_eq hl (Holds.mono ⟨final.stored, h.rows protocol hp, .refl final⟩ he)

theorem Working.mono {phase : Phase} (h : Working w s phase) (he : s.Extends s') (hheld : Held w s')
    (hdue : s'.recorder.due = s.recorder.due) : Working w s' phase := by
  cases phase with
  | waiting => trivial
  | stopped => trivial
  | recording stopping session range rows recorded changed =>
    obtain ⟨hrange, hrows, hchanged, hdone⟩ := h
    refine ⟨by rw [hdue, hrange], hrows, by rwa [hdue], ?_⟩
    intro hrec row hr
    exact (hdone hrec row hr).imp_right (fun hh => hh.mono he)
  | forgetting stopping finished =>
    intro session hs
    obtain ⟨final, hd⟩ := h session hs
    exact ⟨final, hd.mono he hheld⟩

end Invariant

end Recording

end YogSothoth.Grpc
