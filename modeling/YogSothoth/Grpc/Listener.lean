import YogSothoth.Grpc.StreamReading

namespace YogSothoth.Grpc

variable {T : Type*}

/-- An attempt a listener made, when it began and what it met. -/
structure Tried (T : Type*) where
  began : Nat
  meeting : Meeting T
  attempt : Connector.Attempt T

/-- A listener's attempts, and the result it stopped with at `endedAt`; a listener that has met
nothing more stands there. -/
structure ListenerRun (T : Type*) where
  tried : List (Tried T)
  endedAt : Nat
  result : Option (Except RetriesExhausted Unit)

def ListenerRun.cons (t : Tried T) (run : ListenerRun T) : ListenerRun T :=
  { run with tried := t :: run.tried }

def isCancelled (shutdown : Option Nat) (now : Nat) : Bool :=
  shutdown.any (fun stop => decide (stop ≤ now))

/-- When a sleep of `duration` seconds is over, or cut short. -/
def sleepOrCancel (shutdown : Option Nat) (now duration : Nat) : Nat :=
  shutdown.elim (now + duration * NANOS_PER_SEC)
    (fun stop => min (now + duration * NANOS_PER_SEC) (max now stop))

/-- `GrpcListener::attempts`, each against what it meets, looking at the token at `now`. -/
def listen (c : Connector) (shutdown : Option Nat) (budget : RetryBudget) (now : Nat) :
    List (Meeting T) → ListenerRun T
  | [] => ⟨[], now, if isCancelled shutdown now then some (.ok ()) else none⟩
  | meeting :: rest =>
    if isCancelled shutdown now then ⟨[], now, some (.ok ())⟩
    else
      let attempt := c.attempt shutdown now meeting
      match budget.settle attempt.ending.verdict with
      | (.stop result, _) => ⟨[⟨now, meeting, attempt⟩], attempt.endedAt, some result⟩
      | (.retry after, budget) =>
        (listen c shutdown budget (sleepOrCancel shutdown attempt.endedAt after) rest).cons
          ⟨now, meeting, attempt⟩

namespace Tried

def turn (t : Tried T) : Turn String := t.attempt.ending.verdict.turn

/-- The attempt took data off its stream. -/
def delivered (t : Tried T) : Bool := t.attempt.reading.any (fun r => r.taken.any Taken.isData)

/-- The attempt was neither stopped nor left by its consumer, and took no data. -/
def Barren (t : Tried T) : Prop :=
  t.attempt.ending ≠ .shutdownRequested ∧ t.attempt.ending ≠ .downstreamClosed ∧
    t.delivered = false

end Tried

/-- What one attempt comes to: the stream it read, if it opened one, and within which times. -/
structure Attempted (c : Connector) (shutdown : Option Nat) (t : Tried T) : Prop where
  opened : ∀ r, t.attempt.reading = some r → ∃ readAt, t.began + t.meeting.dial ≤ readAt ∧
    readAt ≤ t.began + t.meeting.dial + c.stallTimeout ∧
    ReadThrough c shutdown readAt t.meeting.startedAt t.meeting.protocols t.meeting.stream r ∧
    t.attempt.ending = r.ending ∧ t.attempt.endedAt = r.endedAt
  unopened : t.attempt.reading = none →
    t.attempt.endedAt ≤ t.began + t.meeting.dial + c.stallTimeout
  charged : t.turn.isCharged = true ↔ t.Barren
  stopped : t.attempt.ending = .shutdownRequested →
    ∃ stop, shutdown = some stop ∧ stop ≤ t.attempt.endedAt
  prompt : ∀ stop, shutdown = some stop → t.attempt.endedAt ≤ max (t.began + t.meeting.dial) stop

/-- When the attempt after these begins, unless it is stopped first. -/
def resumedAt (start : Nat) (before : List (Tried T)) : Nat :=
  before.getLast?.elim start (fun t =>
    t.attempt.endedAt + Turn.wait MAX_BACKOFF_SECS (before.map Tried.turn) * NANOS_PER_SEC)

/-- What holds of every run of a listener from `start`. -/
structure Listened (c : Connector) (shutdown : Option Nat) (maxAttempts start : Nat)
    (meetings : List (Meeting T)) (run : ListenerRun T) : Prop where
  met : run.tried.map Tried.meeting <+: meetings
  attempted : ∀ t ∈ run.tried, Attempted c shutdown t
  begun : ∀ before t, before ++ [t] <+: run.tried → t.began = resumedAt start before
  unstopped : ∀ t ∈ run.tried, ∀ stop, shutdown = some stop → t.began < stop
  exhausted : (∃ e, run.result = some (.error e)) ↔
    ∃ before last, before ++ last <+: run.tried ∧ last.length = max 1 maxAttempts ∧
      ∀ t ∈ last, t.Barren
  told : ∀ e, run.result = some (.error e) → e.attempts = max 1 maxAttempts ∧
    ∃ t ∈ run.tried.getLast?, t.turn = .charge e.lastError
  clean : run.result = some (.ok ()) →
    (∃ stop, shutdown = some stop ∧ stop ≤ run.endedAt) ∨
      ∃ t ∈ run.tried.getLast?, t.attempt.ending = .downstreamClosed
  running : run.result = none → run.tried.length = meetings.length ∧
    ∀ stop, shutdown = some stop → run.endedAt < stop
  prompt : (∀ m ∈ meetings, m.dial ≤ CONNECT_TIMEOUT) → ∀ stop, shutdown = some stop →
    run.endedAt ≤ max start (stop + CONNECT_TIMEOUT)

theorem deliver_shutdown {shutdown : Option Nat} {now : Nat} {offer : Offer}
    (h : (offer.deliver shutdown now).1 = .shutdownRequested) :
    ∃ stop, shutdown = some stop ∧ stop ≤ (offer.deliver shutdown now).2 := by
  cases offer with
  | untranslatable => cases h
  | room => cases h
  | closed => cases h
  | full wait closes heard =>
    cases shutdown with
    | none => cases closes <;> cases h
    | some stop =>
      by_cases hstop : stop < now + wait ∨ stop = now + wait ∧ heard
      · refine ⟨stop, rfl, ?_⟩
        simp only [Offer.deliver, if_pos hstop]
        exact Nat.le_max_right _ _
      · simp only [Offer.deliver, if_neg hstop] at h
        cases closes <;> cases h

theorem deliveries_shutdown {shutdown : Option Nat} {offers : Nat → Offer} {now k : Nat}
    (h : (deliveries shutdown offers now k).1 = .shutdownRequested) :
    ∃ stop, shutdown = some stop ∧ stop ≤ (deliveries shutdown offers now k).2 := by
  cases k with
  | zero => exact deliver_shutdown h
  | succ k => exact deliver_shutdown h

namespace StreamSession

theorem deliverAll_state (deliver : Nat → SessionState) (k : Nat)
    (resolved : List (Resolved (PendingTransaction T))) :
    (deliverAll deliver k resolved).1 = .open ∨
      ∃ j, (deliverAll deliver k resolved).2.length = j + 1 ∧
        (deliverAll deliver k resolved).1 = deliver (k + j) := by
  induction resolved generalizing k with
  | nil => exact Or.inl rfl
  | cons first rest ih =>
    rw [deliverAll]
    by_cases hopen : deliver k = .open
    · rw [if_pos hopen]
      rcases ih (k + 1) with h | ⟨j, hlength, hstate⟩
      · exact Or.inl h
      · refine Or.inr ⟨j + 1, congrArg Nat.succ hlength, hstate.trans (congrArg deliver ?_)⟩
        omega
    · rw [if_neg hopen]
      exact Or.inr ⟨0, rfl, rfl⟩

/-- A session ends on the answer of the last delivery it made. -/
theorem handle_state (s : StreamSession T) (deliver : Nat → SessionState) (u : Update T) :
    (s.handle deliver u).state = .open ∨
      ∃ j, (s.handle deliver u).delivered.length = j + 1 ∧ (s.handle deliver u).state = deliver j := by
  have hall (resolved : List (Resolved (PendingTransaction T))) :
      (deliverAll deliver 0 resolved).1 = .open ∨
        ∃ j, (deliverAll deliver 0 resolved).2.length = j + 1 ∧
          (deliverAll deliver 0 resolved).1 = deliver j := by
    have h := deliverAll_state deliver 0 resolved
    simp only [Nat.zero_add] at h
    exact h
  cases u with
  | transaction filters slot bankId body =>
    simp only [handle]
    cases protocolOf filters with
    | none => exact Or.inl rfl
    | some protocol => exact hall _
  | blockMeta slot bankId seconds => exact hall _
  | slotStatus slot status bankId => exact hall _
  | ping => exact Or.inl rfl
  | pong => exact Or.inl rfl
  | other => exact Or.inl rfl

end StreamSession

theorem endingOf_cases {state : SessionState} {ending : Ending} (h : endingOf state = some ending) :
    state = .downstreamClosed ∧ ending = .downstreamClosed ∨
      state = .shutdownRequested ∧ ending = .shutdownRequested := by
  cases state with
  | «open» => cases h
  | downstreamClosed => exact Or.inl ⟨rfl, (Option.some.inj h).symm⟩
  | shutdownRequested => exact Or.inr ⟨rfl, (Option.some.inj h).symm⟩

section

variable {c : Connector} {shutdown : Option Nat} {start : Nat} {startedAt : Instant}
  {protocols : List Protocol} {stream : List (Incoming T)} {r : Reading T}

/-- A stream that ends on a stop ends after it. -/
theorem ReadThrough.stopped (h : ReadThrough c shutdown start startedAt protocols stream r)
    (hending : r.ending = .shutdownRequested) :
    ∃ stop, shutdown = some stop ∧ stop ≤ r.endedAt := by
  obtain ⟨rest, -, hclose⟩ := h.close
  rw [hending] at hclose
  generalize hended : r.endedAt = endedAt at hclose
  generalize hgiven : Ending.shutdownRequested = ending at hclose
  cases hclose with
  | stopped stop asked patient => exact ⟨stop, asked, Nat.le_max_right _ _⟩
  | stalled => cases hgiven
  | closed => cases hgiven
  | failed => cases hgiven
  | handed before t last _ ended =>
    rcases endingOf_cases ended with ⟨-, rfl⟩ | ⟨hstate, -⟩
    · cases hgiven
    · obtain ⟨offers, -, hdeliver, hdone⟩ := (h.turns before t (last ▸ List.prefix_refl _)).handled
      rcases StreamSession.handle_state _ t.arrival.deliver t.arrival.update with hopen | hlast
      · rw [handledAfter, hopen] at hstate
        cases hstate
      · obtain ⟨j, hlength, hanswer⟩ := hlast
        rw [handledAfter] at hdone hstate
        rw [hlength] at hdone
        rw [hanswer, hdeliver] at hstate
        obtain ⟨stop, hstop, hle⟩ := deliveries_shutdown hstate
        refine ⟨stop, hstop, hle.trans ?_⟩
        rw [last, waitingSince_concat, hdone]
        exact Nat.le_refl _

/-- A stream is charged to the budget when it gave no data and was not left on purpose. -/
theorem ReadThrough.charged (h : ReadThrough c shutdown start startedAt protocols stream r) :
    r.ending.verdict.turn.isCharged = true ↔ r.ending ≠ .shutdownRequested ∧
      r.ending ≠ .downstreamClosed ∧ r.taken.any Taken.isData = false := by
  obtain ⟨rest, -, hclose⟩ := h.close
  generalize r.ending = ending at hclose ⊢
  generalize r.endedAt = endedAt at hclose
  cases hclose with
  | stopped stop asked patient => simp [Ending.verdict, Verdict.turn, Turn.isCharged]
  | stalled =>
    cases r.taken.any Taken.isData <;>
      simp [Connector.stalled, Ending.verdict, Verdict.turn, Turn.isCharged]
  | closed =>
    cases r.taken.any Taken.isData <;> simp [Ending.verdict, Verdict.turn, Turn.isCharged]
  | failed =>
    cases r.taken.any Taken.isData <;> simp [Ending.verdict, Verdict.turn, Turn.isCharged]
  | handed before t last _ ended =>
    rcases endingOf_cases ended with ⟨-, rfl⟩ | ⟨-, rfl⟩
    · simp [Ending.verdict, Verdict.turn, Turn.isCharged]
    · simp [Ending.verdict, Verdict.turn, Turn.isCharged]

/-- A connector reads a stream it has just opened. -/
theorem read_from_start (c : Connector) (shutdown : Option Nat) (start : Nat) (startedAt : Instant)
    (protocols : List Protocol) (stream : List (Incoming T)) :
    ReadThrough c shutdown start startedAt protocols stream
      (c.read shutdown ⟨.new (.new startedAt protocols), []⟩ (.new c.stallTimeout) start stream) := by
  have hstart : Progress c shutdown start startedAt protocols ([] : List (Taken T))
      ⟨.new (.new startedAt protocols), []⟩ (.new c.stallTimeout) start := by
    exact ⟨rfl, rfl, Nat.zero_le _, rfl, rfl,
      fun before t h => (not_concat_prefix_nil before t h).elim, fun stop _ => Nat.le_max_left _ _⟩
  exact read_through hstart stream

theorem attempt_unopened {t : Tried T} {endedAt : Nat} {ending : Ending}
    (hattempt : t.attempt = ⟨none, ending, endedAt⟩)
    (hlate : endedAt ≤ t.began + t.meeting.dial + c.stallTimeout)
    (hprompt : ∀ stop, shutdown = some stop → endedAt ≤ max (t.began + t.meeting.dial) stop)
    (hcharged : ending.verdict.turn.isCharged = true ∨
      ending = .shutdownRequested ∧ ∃ stop, shutdown = some stop ∧ stop ≤ endedAt) :
    Attempted c shutdown t := by
  refine ⟨?_, ?_, ?_, ?_, ?_⟩
  · rw [hattempt]
    intro r hr
    cases hr
  · intro _
    rw [hattempt]
    exact hlate
  · rw [Tried.turn, Tried.Barren, Tried.delivered, hattempt]
    rcases hcharged with hcharged | ⟨rfl, -⟩
    · refine iff_of_true hcharged ⟨?_, ?_, rfl⟩
      · rintro rfl
        cases hcharged
      · rintro rfl
        cases hcharged
    · exact iff_of_false Bool.false_ne_true (fun h => h.1 rfl)
  · rw [hattempt]
    rintro rfl
    rcases hcharged with hcharged | ⟨-, h⟩
    · cases hcharged
    · exact h
  · rw [hattempt]
    exact hprompt

theorem attempt_opened {t : Tried T} {r : Reading T} {readAt : Nat}
    (hattempt : t.attempt = ⟨some r, r.ending, r.endedAt⟩)
    (hearly : t.began + t.meeting.dial ≤ readAt)
    (hlate : readAt ≤ t.began + t.meeting.dial + c.stallTimeout)
    (hstop : ∀ stop, shutdown = some stop → readAt ≤ max (t.began + t.meeting.dial) stop)
    (hread : ReadThrough c shutdown readAt t.meeting.startedAt t.meeting.protocols
      t.meeting.stream r) :
    Attempted c shutdown t := by
  refine ⟨?_, ?_, ?_, ?_, ?_⟩
  · rw [hattempt]
    rintro _ ⟨⟩
    exact ⟨readAt, hearly, hlate, hread, rfl, rfl⟩
  · rw [hattempt]
    intro hnone
    cases hnone
  · rw [Tried.turn, Tried.Barren, Tried.delivered, hattempt]
    exact hread.charged
  · rw [hattempt]
    exact hread.stopped
  · rw [hattempt]
    intro stop hs
    exact (hread.prompt stop hs).trans (max_le (hstop stop hs) (Nat.le_max_right _ _))

/-- One attempt, whatever it meets. -/
theorem attempt_attempted (c : Connector) (shutdown : Option Nat) (now : Nat) (m : Meeting T) :
    Attempted c shutdown ⟨now, m, c.attempt shutdown now m⟩ := by
  cases hdial : m.undialled with
  | some error =>
    have hattempt : c.attempt shutdown now m =
        ⟨none, .unreachable (c.scrub ("connect: " ++ error)), now + m.dial⟩ := by
      simp only [Connector.attempt, hdial]
    exact attempt_unopened hattempt (Nat.le_add_right _ _) (fun stop _ => Nat.le_max_left _ _)
      (Or.inl rfl)
  | none =>
    have htimer : now + m.dial ≤ now + m.dial + c.stallTimeout := Nat.le_add_right _ _
    rcases wake_cases shutdown (m.answer.map (fun answer => now + m.dial + answer.1)) htimer with
      ⟨stop, hstop, hle, hwake⟩ | ⟨ready, hready, hle, hstop, hwake⟩ | ⟨hready, hstop, hwake⟩
    · have hattempt : c.attempt shutdown now m =
          ⟨none, .shutdownRequested, max (now + m.dial) stop⟩ := by
        simp only [Connector.attempt, hdial, hwake]
      refine attempt_unopened hattempt hle ?_ (Or.inr ⟨rfl, stop, hstop, Nat.le_max_right _ _⟩)
      intro stop' hs
      cases hstop.symm.trans hs
      exact Nat.le_refl _
    · have hlate (stop : Nat) (hs : shutdown = some stop) :
          max (now + m.dial) ready ≤ max (now + m.dial) stop :=
        (hstop stop hs).le.trans (Nat.le_max_right _ _)
      cases hanswer : m.answer with
      | none =>
        rw [hanswer] at hready
        cases hready
      | some answer =>
        obtain ⟨after, answer⟩ := answer
        rw [hanswer] at hwake
        cases answer with
        | accepted =>
          have hread := read_from_start c shutdown (max (now + m.dial) ready) m.startedAt
            m.protocols m.stream
          generalize hr : c.read shutdown ⟨.new (.new m.startedAt m.protocols), []⟩
            (.new c.stallTimeout) (max (now + m.dial) ready) m.stream = r at hread
          have hattempt : c.attempt shutdown now m = ⟨some r, r.ending, r.endedAt⟩ := by
            simp only [Connector.attempt, hdial, hanswer, hwake, hr]
          exact attempt_opened hattempt (Nat.le_max_left _ _) hle hlate hread
        | refused status reached =>
          cases reached with
          | false =>
            have hattempt : c.attempt shutdown now m =
                ⟨none, .unreachable (c.scrub ("subscribe: " ++ status)),
                  max (now + m.dial) ready⟩ := by
              simp only [Connector.attempt, hdial, hanswer, hwake]
            exact attempt_unopened hattempt hle hlate (Or.inl rfl)
          | true =>
            have hattempt : c.attempt shutdown now m =
                ⟨none, .failed (c.scrub ("subscribe: " ++ status)) false,
                  max (now + m.dial) ready⟩ := by
              simp only [Connector.attempt, hdial, hanswer, hwake]
            exact attempt_unopened hattempt hle hlate (Or.inl rfl)
    · have hattempt : c.attempt shutdown now m =
          ⟨none, c.stalled .subscribe false, now + m.dial + c.stallTimeout⟩ := by
        simp only [Connector.attempt, hdial, hwake]
      exact attempt_unopened hattempt (Nat.le_refl _)
        (fun stop hs => (hstop stop hs).le.trans (Nat.le_max_right _ _))
        (Or.inl rfl)

/-- What holds when the listener looks at the token again at `now`, after the attempts `past`. -/
structure Listening (c : Connector) (shutdown : Option Nat) (maxAttempts start : Nat)
    (past : List (Tried T)) (budget : RetryBudget) (now : Nat) : Prop where
  attempted : ∀ t ∈ past, Attempted c shutdown t
  begun : ∀ before t, before ++ [t] <+: past → t.began = resumedAt start before
  unstopped : ∀ t ∈ past, ∀ stop, shutdown = some stop → t.began < stop
  goes : Turn.Goes (max 1 maxAttempts) (past.map Tried.turn)
  budgeted : budget = budgetAfter maxAttempts (past.map Tried.turn)
  resumes : (∀ stop, shutdown = some stop → now < stop) → now = resumedAt start past
  prompt : (∀ t ∈ past, t.meeting.dial ≤ CONNECT_TIMEOUT) → ∀ stop, shutdown = some stop →
    now ≤ max start (stop + CONNECT_TIMEOUT)

theorem lt_of_not_cancelled {now : Nat} (h : isCancelled shutdown now = false) (stop : Nat)
    (hstop : shutdown = some stop) : now < stop := by
  rw [isCancelled, hstop] at h
  exact Nat.not_le.mp (of_decide_eq_false h)

theorem sleepOrCancel_of_lt {now duration : Nat}
    (h : ∀ stop, shutdown = some stop → sleepOrCancel shutdown now duration < stop) :
    sleepOrCancel shutdown now duration = now + duration * NANOS_PER_SEC := by
  cases shutdown with
  | none => rw [sleepOrCancel, Option.elim_none]
  | some stop =>
    have hlt := h stop rfl
    rw [sleepOrCancel, Option.elim_some] at hlt ⊢
    generalize duration * NANOS_PER_SEC = slept at hlt ⊢
    omega

theorem sleepOrCancel_le {now duration stop : Nat} (h : shutdown = some stop) :
    sleepOrCancel shutdown now duration ≤ max now stop := by
  rw [h, sleepOrCancel, Option.elim_some]
  exact Nat.min_le_right _ _

/-- So many barren attempts in a row are a streak as long. -/
theorem barren_iff {tried : List (Tried T)} (h : ∀ t ∈ tried, Attempted c shutdown t)
    (limit : Nat) :
    (∃ before last, before ++ last <+: tried ∧ last.length = limit ∧ ∀ t ∈ last, t.Barren) ↔
      ∃ before, before <+: tried ∧ limit ≤ Turn.streak (before.map Tried.turn) := by
  constructor
  · rintro ⟨before, last, hfirst, rfl, hbarren⟩
    refine ⟨before ++ last, hfirst, ?_⟩
    have hcharged : ∀ turn ∈ last.map Tried.turn, turn.isCharged = true := by
      intro turn hturn
      obtain ⟨t, ht, rfl⟩ := List.mem_map.mp hturn
      exact (h t (hfirst.subset (List.mem_append_right _ ht))).charged.mpr (hbarren t ht)
    have hlength := Turn.length_le_streak (before.map Tried.turn) _ hcharged
    rwa [List.length_map, ← List.map_append] at hlength
  · rintro ⟨tried', hfirst, hlimit⟩
    obtain ⟨before, last, rfl, hlength, hcharged⟩ := Turn.exists_streak Tried.turn tried'
    have htake : before ++ last.take limit <+: before ++ last :=
      (List.prefix_append_right_inj before).mpr (List.take_prefix limit last)
    refine ⟨before, last.take limit, htake.trans hfirst, ?_, fun t ht => ?_⟩
    · rw [List.length_take, hlength, Nat.min_eq_left hlimit]
    · have hlast := List.mem_of_mem_take ht
      exact (h t (hfirst.subset (List.mem_append_right _ hlast))).charged.mp (hcharged t hlast)

namespace Listening

variable {maxAttempts : Nat} {past : List (Tried T)} {budget : RetryBudget} {now : Nat}

theorem limit_pos (maxAttempts : Nat) : 0 < max 1 maxAttempts :=
  Nat.lt_of_lt_of_le Nat.one_pos (Nat.le_max_left _ _)

theorem not_exhausted (h : Listening c shutdown maxAttempts start past budget now) :
    ¬∃ before, before <+: past ∧ max 1 maxAttempts ≤ Turn.streak (before.map Tried.turn) := by
  rintro ⟨before, hbefore, hlimit⟩
  have := h.goes.streak_prefix (limit_pos maxAttempts) (hbefore.map Tried.turn)
  omega

/-- The listener looks, and has no further attempt to make. -/
theorem looked (h : Listening c shutdown maxAttempts start past budget now)
    {meetings : List (Meeting T)} {result : Option (Except RetriesExhausted Unit)}
    (hresult : result = none ∧ meetings = [] ∧ isCancelled shutdown now = false ∨
      result = some (.ok ()) ∧ isCancelled shutdown now = true) :
    Listened c shutdown maxAttempts start (past.map Tried.meeting ++ meetings)
      ⟨past, now, result⟩ := by
  have hnot : ¬∃ e, result = some (.error e) := by
    rintro ⟨e, he⟩
    rcases hresult with ⟨hnone, -⟩ | ⟨hok, -⟩
    · cases hnone.symm.trans he
    · cases hok.symm.trans he
  refine ⟨List.prefix_append _ _, h.attempted, h.begun, h.unstopped, ?_, ?_, ?_, ?_, ?_⟩
  · rw [barren_iff h.attempted]
    exact iff_of_false hnot h.not_exhausted
  · intro e he
    exact (hnot ⟨e, he⟩).elim
  · intro hok
    rcases hresult with ⟨hnone, -⟩ | ⟨-, hcancelled⟩
    · cases hnone.symm.trans hok
    · obtain ⟨stop, hstop, hle⟩ := (Option.any_eq_true _ _).mp hcancelled
      exact Or.inl ⟨stop, hstop, of_decide_eq_true hle⟩
  · intro hnone
    rcases hresult with ⟨-, rfl, hcancelled⟩ | ⟨hok, -⟩
    · refine ⟨?_, lt_of_not_cancelled hcancelled⟩
      rw [List.append_nil, List.length_map]
    · cases hok.symm.trans hnone
  · intro hdials
    exact h.prompt (fun t ht => hdials _ (List.mem_append_left _ (List.mem_map_of_mem ht)))

/-- An attempt begun now comes next. -/
theorem tries (h : Listening c shutdown maxAttempts start past budget now)
    (hcancelled : isCancelled shutdown now = false) (m : Meeting T) :
    (∀ t ∈ past ++ [⟨now, m, c.attempt shutdown now m⟩], Attempted c shutdown t) ∧
      (∀ before t, before ++ [t] <+: past ++ [⟨now, m, c.attempt shutdown now m⟩] →
        t.began = resumedAt start before) ∧
      ∀ t ∈ past ++ [⟨now, m, c.attempt shutdown now m⟩],
        ∀ stop, shutdown = some stop → t.began < stop := by
  have hlate := lt_of_not_cancelled hcancelled
  refine ⟨fun t ht => ?_, fun before t hbefore => ?_, fun t ht => ?_⟩
  · rcases List.mem_append.mp ht with ht | ht
    · exact h.attempted t ht
    · cases List.mem_singleton.mp ht
      exact attempt_attempted c shutdown now m
  · rcases List.prefix_concat_iff.mp hbefore with heq | hpast
    · obtain ⟨rfl, rfl⟩ := List.append_singleton_inj.mp heq
      exact h.resumes hlate
    · exact h.begun before t hpast
  · rcases List.mem_append.mp ht with ht | ht
    · exact h.unstopped t ht
    · cases List.mem_singleton.mp ht
      exact hlate

theorem attempt_prompt (hcancelled : isCancelled shutdown now = false) {m : Meeting T}
    (hdial : m.dial ≤ CONNECT_TIMEOUT) (stop : Nat) (hstop : shutdown = some stop) :
    (c.attempt shutdown now m).endedAt ≤ max start (stop + CONNECT_TIMEOUT) := by
  have hlate := lt_of_not_cancelled hcancelled stop hstop
  have hprompt := (attempt_attempted c shutdown now m).prompt stop hstop
  change (c.attempt shutdown now m).endedAt ≤ max (now + m.dial) stop at hprompt
  generalize CONNECT_TIMEOUT = timeout at hdial ⊢
  omega

/-- An attempt the budget goes on after. -/
theorem retried (h : Listening c shutdown maxAttempts start past budget now)
    (hcancelled : isCancelled shutdown now = false) {m : Meeting T} {after : Nat}
    {budget' : RetryBudget}
    (hsettle : budget.settle (c.attempt shutdown now m).ending.verdict = (.retry after, budget')) :
    Listening c shutdown maxAttempts start (past ++ [⟨now, m, c.attempt shutdown now m⟩]) budget'
      (sleepOrCancel shutdown (c.attempt shutdown now m).endedAt after) := by
  obtain ⟨hattempted, hbegun, hunstopped⟩ := h.tries hcancelled m
  have hturns : (past ++ [(⟨now, m, c.attempt shutdown now m⟩ : Tried T)]).map Tried.turn =
      past.map Tried.turn ++ [(c.attempt shutdown now m).ending.verdict.turn] := by
    rw [List.map_append, List.map_singleton]
    rfl
  rcases settle_turn (c.attempt shutdown now m).ending.verdict h.goes with
    ⟨result, hstop, -⟩ | ⟨hretry, hgoes⟩
  · rw [← h.budgeted, hsettle] at hstop
    cases hstop
  · rw [← h.budgeted, hsettle] at hretry
    cases hretry
    refine ⟨hattempted, hbegun, hunstopped, ?_, ?_, fun hlate => ?_, fun hdials stop hstop => ?_⟩
    · rw [hturns]
      exact hgoes
    · rw [hturns]
    · rw [resumedAt, List.getLast?_concat, Option.elim_some, hturns]
      exact sleepOrCancel_of_lt hlate
    · have hdial := hdials _ (List.mem_append_right _ (List.mem_singleton_self _))
      have hended := @attempt_prompt _ c shutdown start now hcancelled m hdial stop hstop
      refine (sleepOrCancel_le hstop).trans (max_le hended ?_)
      generalize CONNECT_TIMEOUT = timeout
      omega

/-- What the budget stops on: a stop, or the last of so many failures in a row. -/
theorem settled_ends (h : Listening c shutdown maxAttempts start past budget now)
    {verdict : Verdict} {result : Except RetriesExhausted Unit}
    (hsettle : (budget.settle verdict).1 = .stop result) :
    result = .ok () ∧ verdict.turn = .stop ∨
      ∃ error, result = .error ⟨max 1 maxAttempts, error⟩ ∧ verdict.turn = .charge error ∧
        Turn.streak (past.map Tried.turn) + 1 = max 1 maxAttempts := by
  rcases settle_turn verdict h.goes with ⟨result', hstop, hended⟩ | ⟨hretry, -⟩
  · rw [← h.budgeted, hsettle] at hstop
    cases hstop
    have hlast := hended []
    generalize hturns : [verdict.turn] = turns at hlast
    generalize hresult : some (exhaustion result) = final at hlast
    cases hlast with
    | running => cases hturns
    | stopped rest =>
      refine Or.inl ⟨?_, (List.cons.inj hturns).1⟩
      cases result with
      | ok value => rfl
      | error e => cases hresult
    | exhausted error rest last =>
      refine Or.inr ⟨error, ?_, (List.cons.inj hturns).1, last⟩
      cases result with
      | ok value => cases hresult
      | error e =>
        obtain ⟨attempts, lastError⟩ := e
        cases hresult
        rfl
  · rw [← h.budgeted] at hretry
    rw [hretry] at hsettle
    cases hsettle

theorem ending_of_stop {ending : Ending} (h : ending.verdict.turn = .stop) :
    ending = .shutdownRequested ∨ ending = .downstreamClosed := by
  cases ending with
  | shutdownRequested => exact Or.inl rfl
  | downstreamClosed => exact Or.inr rfl
  | unreachable error => cases h
  | streamClosed delivered => cases delivered <;> cases h
  | failed error delivered => cases delivered <;> cases h
  | stalled error delivered => cases delivered <;> cases h

/-- An attempt the budget stops on. -/
theorem settled (h : Listening c shutdown maxAttempts start past budget now)
    (hcancelled : isCancelled shutdown now = false) {m : Meeting T} (rest : List (Meeting T))
    {result : Except RetriesExhausted Unit}
    (hsettle : (budget.settle (c.attempt shutdown now m).ending.verdict).1 = .stop result) :
    Listened c shutdown maxAttempts start (past.map Tried.meeting ++ m :: rest)
      ⟨past ++ [⟨now, m, c.attempt shutdown now m⟩], (c.attempt shutdown now m).endedAt,
        some result⟩ := by
  obtain ⟨hattempted, hbegun, hunstopped⟩ := h.tries hcancelled m
  have hends := settled_ends h hsettle
  generalize hlast : (⟨now, m, c.attempt shutdown now m⟩ : Tried T) = last at *
  have hturn : (c.attempt shutdown now m).ending.verdict.turn = last.turn := hlast ▸ rfl
  have hended : (c.attempt shutdown now m).endedAt = last.attempt.endedAt := hlast ▸ rfl
  have hmeeting : last.meeting = m := hlast ▸ rfl
  rw [hturn] at hends
  refine ⟨?_, hattempted, hbegun, hunstopped, ?_, ?_, ?_, ?_, ?_⟩
  · rw [List.map_append, List.map_singleton, hmeeting]
    exact ⟨rest, List.append_assoc _ _ _⟩
  · rw [barren_iff hattempted]
    rcases hends with ⟨rfl, hstop⟩ | ⟨error, rfl, hcharge, hlimit⟩
    · refine iff_of_false ?_ ?_
      · rintro ⟨e, he⟩
        cases he
      · rintro ⟨before, hbefore, hstreak⟩
        rcases List.prefix_concat_iff.mp hbefore with rfl | hpast
        · rw [List.map_append, List.map_singleton, hstop, Turn.streak_stop] at hstreak
          omega
        · exact h.not_exhausted ⟨before, hpast, hstreak⟩
    · refine iff_of_true ⟨_, rfl⟩ ⟨_, List.prefix_refl _, ?_⟩
      rw [List.map_append, List.map_singleton, hcharge, Turn.streak_charge, hlimit]
  · intro e he
    rcases hends with ⟨rfl, -⟩ | ⟨error, rfl, hcharge, -⟩
    · cases he
    · cases he
      exact ⟨rfl, last, List.getLast?_concat, hcharge⟩
  · intro hok
    rcases hends with ⟨-, hstop⟩ | ⟨error, rfl, -⟩
    · rcases ending_of_stop hstop with hstopped | hgone
      · rw [hended]
        have hmem : last ∈ past ++ [last] := List.mem_append_right _ (List.mem_singleton_self _)
        exact Or.inl ((hattempted last hmem).stopped hstopped)
      · exact Or.inr ⟨last, List.getLast?_concat, hgone⟩
    · cases hok
  · intro hnone
    cases hnone
  · intro hdials stop hstop
    have hdial := hdials m (List.mem_append_right _ (List.mem_cons_self ..))
    exact @attempt_prompt _ c shutdown start now hcancelled m hdial stop hstop

end Listening

theorem listen_past {maxAttempts : Nat} {past : List (Tried T)} {budget : RetryBudget} {now : Nat}
    (h : Listening c shutdown maxAttempts start past budget now) (meetings : List (Meeting T)) :
    Listened c shutdown maxAttempts start (past.map Tried.meeting ++ meetings)
      { listen c shutdown budget now meetings with
        tried := past ++ (listen c shutdown budget now meetings).tried } := by
  induction meetings generalizing past budget now with
  | nil =>
    rw [listen]
    simp only [List.append_nil]
    have hlooked := @Listening.looked _ _ _ _ _ _ _ _ h []
    rw [List.append_nil] at hlooked
    cases hcancelled : isCancelled shutdown now with
    | true => exact hlooked (Or.inr ⟨rfl, hcancelled⟩)
    | false => exact hlooked (Or.inl ⟨rfl, rfl, hcancelled⟩)
  | cons m rest ih =>
    rw [listen]
    cases hcancelled : isCancelled shutdown now with
    | true =>
      simp only [if_true, List.append_nil]
      exact h.looked (Or.inr ⟨rfl, hcancelled⟩)
    | false =>
      simp only [Bool.false_eq_true, if_false]
      rcases hsettle : budget.settle (c.attempt shutdown now m).ending.verdict with ⟨next, budget'⟩
      cases next with
      | stop result =>
        exact h.settled hcancelled rest (congrArg Prod.fst hsettle)
      | retry after =>
        have hnext := ih (h.retried hcancelled hsettle)
        rw [List.map_append, List.append_assoc, List.append_assoc] at hnext
        exact hnext

/-- A listener is cut off from a silent server and from nothing else, hears a stop within a dial,
and gives up exactly when so many attempts in a row took no data. -/
theorem listen_listened (c : Connector) (shutdown : Option Nat) (maxAttempts : UInt32) (start : Nat)
    (meetings : List (Meeting T)) :
    Listened c shutdown maxAttempts.toNat start meetings
      (listen c shutdown (.new maxAttempts.toNat) start meetings) := by
  have hstart : Listening c shutdown maxAttempts.toNat start ([] : List (Tried T))
      (.new maxAttempts.toNat) start := by
    refine ⟨fun t ht => ?_, fun before t hbefore => ?_, fun t ht => ?_, Turn.Goes.nil _, rfl,
      fun _ => rfl, fun _ stop _ => Nat.le_max_left _ _⟩
    · cases ht
    · exact (not_concat_prefix_nil before t hbefore).elim
    · cases ht
  exact listen_past hstart meetings

end

end YogSothoth.Grpc
