import Mathlib.Algebra.Ring.Nat
import YogSothoth.Grpc.Connector

namespace YogSothoth.Grpc

variable {T : Type*}

def Update.isBlockMeta : Update T → Bool
  | .blockMeta _ _ _ => true
  | _ => false

/-- A ping is not data: a server keeps pinging after its data path has stopped. -/
def Update.isData : Update T → Bool
  | .transaction _ _ _ _ => true
  | .blockMeta _ _ _ => true
  | .slotStatus _ _ _ => true
  | _ => false

namespace Taken

def wait (t : Taken T) : Nat := t.takenAt - t.since

def isBlockMeta (t : Taken T) : Bool := t.arrival.update.isBlockMeta

def isData (t : Taken T) : Bool := t.arrival.update.isData

end Taken

/-- How long the server has been waited on since its last block-meta. -/
def silence (taken : List (Taken T)) : Nat :=
  ((taken.rtakeWhile (fun t => !t.isBlockMeta)).map Taken.wait).sum

/-- When the wait that follows these turns starts. -/
def waitingSince (start : Nat) (taken : List (Taken T)) : Nat :=
  taken.getLast?.elim start Taken.done

/-- What handling `t` after `before` comes to. -/
def handledAfter (startedAt : Instant) (protocols : List Protocol) (before : List (Taken T))
    (t : Taken T) : Handled T :=
  (SessionRun.exec startedAt protocols (before.map Taken.arrival)).session.handle
    t.arrival.deliver t.arrival.update

/-- What taking `t` after `before` goes by: it is waited for from the end of the turn before, read
as soon as it is there, before the server has been silent too long and before any stop, and takes
as long as its deliveries do. -/
structure TakenAfter (c : Connector) (shutdown : Option Nat) (start : Nat) (startedAt : Instant)
    (protocols : List Protocol) (before : List (Taken T)) (t : Taken T) : Prop where
  since : t.since = waitingSince start before
  read : t.takenAt = max t.since t.incoming.ready
  patient : silence before + t.wait ≤ c.stallTimeout
  unstopped : ∀ stop, shutdown = some stop → t.takenAt < stop
  handled : ∃ offers, t.incoming.message = .update t.arrival.update offers ∧
    (∀ k, t.arrival.deliver k = (deliveries shutdown offers t.takenAt k).1) ∧
    t.done = deliveredAt shutdown offers t.takenAt
      (handledAfter startedAt protocols before t).delivered.length

/-- How a stream ends after the turns `taken`, with `rest` not taken and the listener waiting since
`since`. -/
inductive Close (c : Connector) (shutdown : Option Nat) (startedAt : Instant)
    (protocols : List Protocol) (taken : List (Taken T)) (rest : List (Incoming T)) (since : Nat) :
    Ending → Nat → Prop where
  | stopped (stop : Nat) (asked : shutdown = some stop)
    (patient : silence taken + (max since stop - since) ≤ c.stallTimeout) :
    Close c shutdown startedAt protocols taken rest since .shutdownRequested (max since stop)
  | stalled (endedAt : Nat) (later : since ≤ endedAt)
    (silent : silence taken + (endedAt - since) = c.stallTimeout)
    (unread : ∀ incoming ∈ rest.head?, endedAt < incoming.ready)
    (unstopped : ∀ stop, shutdown = some stop → endedAt < stop) :
    Close c shutdown startedAt protocols taken rest since
      (c.stalled .stream (taken.any Taken.isData)) endedAt
  | closed (incoming : Incoming T) (next : rest.head? = some incoming)
    (message : incoming.message = .closed)
    (patient : silence taken + (max since incoming.ready - since) ≤ c.stallTimeout) :
    Close c shutdown startedAt protocols taken rest since
      (.streamClosed (taken.any Taken.isData)) (max since incoming.ready)
  | failed (incoming : Incoming T) (status : String) (next : rest.head? = some incoming)
    (message : incoming.message = .status status)
    (patient : silence taken + (max since incoming.ready - since) ≤ c.stallTimeout) :
    Close c shutdown startedAt protocols taken rest since
      (.failed (c.scrub ("stream: " ++ status)) (taken.any Taken.isData)) (max since incoming.ready)
  | handed (before : List (Taken T)) (t : Taken T) (last : taken = before ++ [t]) (ending : Ending)
    (ended : endingOf (handledAfter startedAt protocols before t).state = some ending) :
    Close c shutdown startedAt protocols taken rest since ending since

/-- What a stream read from `start` to its end comes to. -/
structure ReadThrough (c : Connector) (shutdown : Option Nat) (start : Nat) (startedAt : Instant)
    (protocols : List Protocol) (stream : List (Incoming T)) (r : Reading T) : Prop where
  turns : ∀ before t, before ++ [t] <+: r.taken →
    TakenAfter c shutdown start startedAt protocols before t
  run : r.run = .exec startedAt protocols (r.taken.map Taken.arrival)
  close : ∃ rest, stream = r.taken.map Taken.incoming ++ rest ∧
    Close c shutdown startedAt protocols r.taken rest (waitingSince start r.taken) r.ending r.endedAt
  quiet : silence r.taken ≤ c.stallTimeout
  prompt : ∀ stop, shutdown = some stop → r.endedAt ≤ max start stop

theorem StallClock.onWaitStarted_remaining (clock : StallClock) (now : Nat) :
    (clock.onWaitStarted now).remaining = clock.remaining := rfl

theorem silence_concat (taken : List (Taken T)) (t : Taken T) :
    silence (taken ++ [t]) = if t.isBlockMeta then 0 else silence taken + t.wait := by
  cases h : t.isBlockMeta with
  | true => simp [silence, h]
  | false => simp [silence, h]

theorem waitingSince_concat (start : Nat) (taken : List (Taken T)) (t : Taken T) :
    waitingSince start (taken ++ [t]) = t.done := by
  simp [waitingSince]

theorem exec_concat (startedAt : Instant) (protocols : List Protocol) (arrivals : List (Arrival T))
    (a : Arrival T) :
    SessionRun.exec startedAt protocols (arrivals ++ [a]) =
      (SessionRun.exec startedAt protocols arrivals).step a := by
  rw [SessionRun.exec, List.foldl_concat, ← SessionRun.exec]

namespace StreamSession

theorem handle_receivedData (s : StreamSession T) (deliver : Nat → SessionState) (u : Update T) :
    (s.handle deliver u).session.receivedData = (s.receivedData || u.isData) := by
  cases u with
  | transaction filters slot bankId body =>
    simp only [handle, Update.isData, Bool.or_true]
    cases protocolOf filters <;> rfl
  | blockMeta slot bankId seconds => simp [handle, Update.isData]
  | slotStatus slot status bankId => simp [handle, Update.isData]
  | ping => simp [handle, Update.isData]
  | pong => simp [handle, Update.isData]
  | other => simp [handle, Update.isData]

theorem handle_blockMetas (s : StreamSession T) (deliver : Nat → SessionState) (u : Update T) :
    (s.handle deliver u).session.blockMetas = s.blockMetas + if u.isBlockMeta then 1 else 0 := by
  cases u with
  | transaction filters slot bankId body =>
    simp only [handle, Update.isBlockMeta]
    cases protocolOf filters <;> rfl
  | blockMeta slot bankId seconds => simp [handle, Update.isBlockMeta]
  | slotStatus slot status bankId => simp [handle, Update.isBlockMeta]
  | ping => simp [handle, Update.isBlockMeta]
  | pong => simp [handle, Update.isBlockMeta]
  | other => simp [handle, Update.isBlockMeta]

end StreamSession

theorem exec_receivedData (startedAt : Instant) (protocols : List Protocol)
    (arrivals : List (Arrival T)) :
    (SessionRun.exec startedAt protocols arrivals).session.receivedData =
      arrivals.any (fun a => a.update.isData) := by
  induction arrivals using List.reverseRecOn with
  | nil => rfl
  | append_singleton arrivals a ih =>
    rw [exec_concat, SessionRun.step, StreamSession.handle_receivedData, ih]
    simp

theorem wake_shutdown {stop : Nat} {message : Option Nat} {now timer : Nat}
    (h : max now stop ≤ message.elim timer (fun ready => min (max now ready) timer)) :
    wake (some stop) message now timer = (.shutdown, max now stop) := by
  simp only [wake, Option.any_some, decide_eq_true_eq, Option.getD_some]
  exact if_pos h

theorem any_late {shutdown : Option Nat} {now deadline : Nat}
    (h : ∀ stop, shutdown = some stop → deadline < max now stop) :
    ¬shutdown.any (fun stop => decide (max now stop ≤ deadline)) = true := by
  intro hany
  obtain ⟨stop, hstop, hle⟩ := (Option.any_eq_true _ _).mp hany
  have := h stop hstop
  have := of_decide_eq_true hle
  omega

theorem wake_message {shutdown : Option Nat} {ready now timer : Nat} (h : max now ready ≤ timer)
    (hstop : ∀ stop, shutdown = some stop → max now ready < max now stop) :
    wake shutdown (some ready) now timer = (.message, max now ready) := by
  have hmin : min (max now ready) timer = max now ready := Nat.min_eq_left h
  have hlate := @any_late shutdown now (min (max now ready) timer) (fun stop hs => by
    rw [hmin]
    exact hstop stop hs)
  have hread : (some ready).any (fun ready => decide (max now ready ≤ timer)) = true :=
    decide_eq_true h
  rw [wake]
  exact (if_neg hlate).trans ((if_pos hread).trans (congrArg _ hmin))

theorem wake_timer {shutdown message : Option Nat} {now timer : Nat}
    (hready : ∀ ready, message = some ready → timer < max now ready)
    (hstop : ∀ stop, shutdown = some stop → timer < max now stop) :
    wake shutdown message now timer = (.timer, timer) := by
  have hlate := @any_late shutdown now
    (message.elim timer (fun ready => min (max now ready) timer)) (fun stop hs => by
      have := hstop stop hs
      cases message with
      | none => exact this
      | some ready => exact Nat.lt_of_le_of_lt (Nat.min_le_right _ _) this)
  rw [wake]
  exact (if_neg hlate).trans (if_neg (any_late hready))

/-- What a biased wait comes to. -/
theorem wake_cases (shutdown message : Option Nat) {now timer : Nat} (h : now ≤ timer) :
    (∃ stop, shutdown = some stop ∧ max now stop ≤ timer ∧
        wake shutdown message now timer = (.shutdown, max now stop)) ∨
      (∃ ready, message = some ready ∧ max now ready ≤ timer ∧
        (∀ stop, shutdown = some stop → max now ready < stop) ∧
        wake shutdown message now timer = (.message, max now ready)) ∨
      ((∀ ready, message = some ready → timer < ready) ∧
        (∀ stop, shutdown = some stop → timer < stop) ∧
        wake shutdown message now timer = (.timer, timer)) := by
  by_cases hfirst : ∃ stop, shutdown = some stop ∧
      max now stop ≤ message.elim timer (fun ready => min (max now ready) timer)
  · obtain ⟨stop, rfl, hstop⟩ := hfirst
    refine Or.inl ⟨stop, rfl, hstop.trans ?_, wake_shutdown hstop⟩
    cases message with
    | none => exact Nat.le_refl _
    | some ready => exact Nat.min_le_right _ _
  · have hlate (stop : Nat) (hstop : shutdown = some stop) :
        message.elim timer (fun ready => min (max now ready) timer) < max now stop :=
      Nat.not_le.mp (fun hle => hfirst ⟨stop, hstop, hle⟩)
    by_cases hread : ∃ ready, message = some ready ∧ max now ready ≤ timer
    · obtain ⟨ready, rfl, hready⟩ := hread
      have hstop (stop : Nat) (hstop : shutdown = some stop) : max now ready < max now stop := by
        have := hlate stop hstop
        rwa [Option.elim_some, Nat.min_eq_left hready] at this
      refine Or.inr (Or.inl ⟨ready, rfl, hready, fun stop hs => ?_, wake_message hready hstop⟩)
      have := hstop stop hs
      omega
    · have hready (ready : Nat) (hsome : message = some ready) : timer < max now ready :=
        Nat.not_le.mp (fun hle => hread ⟨ready, hsome, hle⟩)
      have hstop (stop : Nat) (hstop : shutdown = some stop) : timer < max now stop := by
        have := hlate stop hstop
        cases message with
        | none => exact this
        | some ready => rwa [Option.elim_some, Nat.min_eq_right (hready ready rfl).le] at this
      refine Or.inr (Or.inr ⟨fun ready hsome => ?_, fun stop hs => ?_, wake_timer hready hstop⟩)
      · have := hready ready hsome
        omega
      · have := hstop stop hs
        omega

/-- A delivery takes no time but a full channel's, and a stop cuts that short. -/
theorem deliver_bounds (shutdown : Option Nat) (now : Nat) (offer : Offer) :
    now ≤ (offer.deliver shutdown now).2 ∧
      ∀ stop, shutdown = some stop → (offer.deliver shutdown now).2 ≤ max now stop := by
  cases offer with
  | untranslatable => exact ⟨Nat.le_refl _, fun stop _ => Nat.le_max_left _ _⟩
  | room => exact ⟨Nat.le_refl _, fun stop _ => Nat.le_max_left _ _⟩
  | closed => exact ⟨Nat.le_refl _, fun stop _ => Nat.le_max_left _ _⟩
  | full wait closes heard =>
    cases shutdown with
    | none => exact ⟨Nat.le_add_right _ _, (by exact nofun)⟩
    | some stop =>
      by_cases hstop : stop < now + wait ∨ stop = now + wait ∧ heard
      · simp only [Offer.deliver, if_pos hstop]
        refine ⟨Nat.le_max_left _ _, ?_⟩
        rintro _ ⟨⟩
        exact Nat.le_refl _
      · simp only [Offer.deliver, if_neg hstop]
        refine ⟨Nat.le_add_right _ _, ?_⟩
        rintro _ ⟨⟩
        omega

theorem deliveries_bounds (shutdown : Option Nat) (offers : Nat → Offer) (now k : Nat) :
    now ≤ (deliveries shutdown offers now k).2 ∧
      ∀ stop, shutdown = some stop → (deliveries shutdown offers now k).2 ≤ max now stop := by
  induction k with
  | zero => exact deliver_bounds shutdown now (offers 0)
  | succ k ih =>
    obtain ⟨hlater, hstop⟩ := deliver_bounds shutdown (deliveries shutdown offers now k).2
      (offers (k + 1))
    refine ⟨ih.1.trans hlater, fun stop h => (hstop stop h).trans ?_⟩
    exact max_le (ih.2 stop h) (Nat.le_max_right _ _)

theorem deliveredAt_bounds (shutdown : Option Nat) (offers : Nat → Offer) (now count : Nat) :
    now ≤ deliveredAt shutdown offers now count ∧
      ∀ stop, shutdown = some stop → deliveredAt shutdown offers now count ≤ max now stop := by
  cases count with
  | zero => exact ⟨Nat.le_refl _, fun stop _ => Nat.le_max_left _ _⟩
  | succ k => exact deliveries_bounds shutdown offers now k

section

variable {c : Connector} {shutdown : Option Nat} {start : Nat} {startedAt : Instant}
  {protocols : List Protocol} {past : List (Taken T)} {run : SessionRun T} {clock : StallClock}
  {now : Nat}

/-- What holds when the loop waits again at `now`, after the turns `past`. -/
structure Progress (c : Connector) (shutdown : Option Nat) (start : Nat) (startedAt : Instant)
    (protocols : List Protocol) (past : List (Taken T)) (run : SessionRun T) (clock : StallClock)
    (now : Nat) : Prop where
  timeout : clock.timeout = c.stallTimeout
  silent : clock.silent = silence past
  quiet : silence past ≤ c.stallTimeout
  waiting : now = waitingSince start past
  run_eq : run = .exec startedAt protocols (past.map Taken.arrival)
  turns : ∀ before t, before ++ [t] <+: past →
    TakenAfter c shutdown start startedAt protocols before t
  prompt : ∀ stop, shutdown = some stop → now ≤ max start stop

namespace Progress

theorem receivedData (h : Progress c shutdown start startedAt protocols past run clock now) :
    run.session.receivedData = past.any Taken.isData := by
  rw [h.run_eq, exec_receivedData, List.any_map]
  rfl

theorem remaining (h : Progress c shutdown start startedAt protocols past run clock now) :
    silence past + clock.remaining = c.stallTimeout := by
  have := h.quiet
  rw [StallClock.remaining, h.timeout, h.silent]
  omega

theorem ended (h : Progress c shutdown start startedAt protocols past run clock now)
    (rest : List (Incoming T)) {ending : Ending} {endedAt : Nat}
    (hclose : Close c shutdown startedAt protocols past rest now ending endedAt)
    (hprompt : ∀ stop, shutdown = some stop → endedAt ≤ max start stop) :
    ReadThrough c shutdown start startedAt protocols (past.map Taken.incoming ++ rest)
      ⟨past, run, ending, endedAt⟩ :=
  ⟨h.turns, h.run_eq, ⟨rest, rfl, h.waiting ▸ hclose⟩, h.quiet, hprompt⟩

theorem stopped (h : Progress c shutdown start startedAt protocols past run clock now)
    (rest : List (Incoming T)) {stop : Nat} (hstop : shutdown = some stop)
    (hle : max now stop ≤ now + clock.remaining) :
    ReadThrough c shutdown start startedAt protocols (past.map Taken.incoming ++ rest)
      ⟨past, run, .shutdownRequested, max now stop⟩ := by
  have hpatient : silence past + (max now stop - now) ≤ c.stallTimeout := by
    have := h.remaining
    omega
  refine h.ended _ (.stopped stop hstop hpatient) ?_
  intro stop' hs
  cases hstop.symm.trans hs
  exact max_le (h.prompt stop hs) (Nat.le_max_right _ _)

theorem stalled (h : Progress c shutdown start startedAt protocols past run clock now)
    (rest : List (Incoming T))
    (hunread : ∀ incoming ∈ rest.head?, now + clock.remaining < incoming.ready)
    (hstop : ∀ stop, shutdown = some stop → now + clock.remaining < stop) :
    ReadThrough c shutdown start startedAt protocols (past.map Taken.incoming ++ rest)
      ⟨past, run, c.stalled .stream run.session.receivedData, now + clock.remaining⟩ := by
  have hsilent : silence past + (now + clock.remaining - now) = c.stallTimeout := by
    have := h.remaining
    omega
  rw [h.receivedData]
  refine h.ended _ (.stalled _ (Nat.le_add_right _ _) hsilent hunread hstop) ?_
  intro stop hs
  exact (hstop stop hs).le.trans (Nat.le_max_right _ _)

/-- One turn of the loop: the update is read at `readAt` and handled by `done`. -/
theorem take (h : Progress c shutdown start startedAt protocols past run clock now)
    {t : Taken T} {offers : Nat → Offer} (hsince : t.since = now)
    (hread : t.takenAt = max now t.incoming.ready) (htimer : t.takenAt ≤ now + clock.remaining)
    (hstop : ∀ stop, shutdown = some stop → t.takenAt < stop)
    (hupdate : t.incoming.message = .update t.arrival.update offers)
    (hdeliver : ∀ k, t.arrival.deliver k = (deliveries shutdown offers t.takenAt k).1)
    (hdone : t.done = deliveredAt shutdown offers t.takenAt
      (run.session.handle t.arrival.deliver t.arrival.update).delivered.length) :
    Progress c shutdown start startedAt protocols (past ++ [t]) (run.step t.arrival)
      (if (run.step t.arrival).session.blockMetas ≠ run.session.blockMetas then
        ((clock.onWaitStarted now).onWaitEnded t.takenAt).onBlockMeta
      else (clock.onWaitStarted now).onWaitEnded t.takenAt) t.done := by
  have hcut := (deliveredAt_bounds shutdown offers t.takenAt
    (run.session.handle t.arrival.deliver t.arrival.update).delivered.length).2
  rw [← hdone] at hcut
  have hwait : t.wait = t.takenAt - now := by rw [Taken.wait, hsince]
  have hpatient : silence past + t.wait ≤ c.stallTimeout := by
    have := h.remaining
    omega
  have hmetas : (run.step t.arrival).session.blockMetas ≠ run.session.blockMetas ↔
      t.isBlockMeta = true := by
    rw [SessionRun.step, StreamSession.handle_blockMetas, Taken.isBlockMeta]
    cases t.arrival.update.isBlockMeta with
    | true => simp
    | false => simp
  have hclock : ((clock.onWaitStarted now).onWaitEnded t.takenAt).silent = silence past + t.wait := by
    rw [hwait, ← h.silent]
    rfl
  refine ⟨?_, ?_, ?_, (waitingSince_concat _ _ _).symm, ?_, ?_, ?_⟩
  · split
    · exact h.timeout
    · exact h.timeout
  · rw [silence_concat]
    by_cases hmeta : t.isBlockMeta = true
    · rw [if_pos (hmetas.mpr hmeta), if_pos hmeta]
      rfl
    · rw [if_neg (fun hne => hmeta (hmetas.mp hne)), if_neg hmeta, hclock]
  · rw [silence_concat]
    split
    · exact Nat.zero_le _
    · exact hpatient
  · rw [List.map_append, List.map_singleton, exec_concat, ← h.run_eq]
  · intro before last hlast
    rcases List.prefix_concat_iff.mp hlast with heq | hbefore
    · obtain ⟨rfl, rfl⟩ := List.append_singleton_inj.mp heq
      refine ⟨hsince.trans h.waiting, ?_, hpatient, hstop, offers, hupdate, hdeliver, ?_⟩
      · rw [hread, hsince]
      · rw [handledAfter, ← h.run_eq]
        exact hdone
    · exact h.turns before last hbefore
  · intro stop hs
    have := hstop stop hs
    have := hcut stop hs
    omega

end Progress

theorem read_through (h : Progress c shutdown start startedAt protocols past run clock now)
    (stream : List (Incoming T)) :
    ReadThrough c shutdown start startedAt protocols (past.map Taken.incoming ++ stream)
      { c.read shutdown run clock now stream with
        taken := past ++ (c.read shutdown run clock now stream).taken } := by
  induction stream generalizing past run clock now with
  | nil =>
    rw [Connector.read]
    rcases wake_cases shutdown none (Nat.le_add_right now clock.remaining) with
      ⟨stop, hstop, hle, hwake⟩ | ⟨ready, hready, -⟩ | ⟨-, hstop, hwake⟩
    · simp only [StallClock.onWaitStarted_remaining, hwake, List.append_nil]
      exact List.append_nil (past.map Taken.incoming) ▸ h.stopped [] hstop hle
    · cases hready
    · simp only [StallClock.onWaitStarted_remaining, hwake, List.append_nil]
      exact List.append_nil (past.map Taken.incoming) ▸ 
        h.stalled [] (by exact nofun) hstop
  | cons incoming rest ih =>
    rw [Connector.read]
    rcases wake_cases shutdown (some incoming.ready) (Nat.le_add_right now clock.remaining) with
      ⟨stop, hstop, hle, hwake⟩ | ⟨ready, hready, hle, hstop, hwake⟩ | ⟨hready, hstop, hwake⟩
    · simp only [StallClock.onWaitStarted_remaining, hwake, List.append_nil]
      exact h.stopped _ hstop hle
    · cases hready
      simp only [StallClock.onWaitStarted_remaining, hwake]
      have hpatient : silence past + (max now incoming.ready - now) ≤ c.stallTimeout := by
        have := h.remaining
        omega
      have hprompt (stop : Nat) (hs : shutdown = some stop) :
          max now incoming.ready ≤ max start stop :=
        (hstop stop hs).le.trans (Nat.le_max_right _ _)
      cases hmessage : incoming.message with
      | closed =>
        simp only [List.append_nil]
        rw [h.receivedData]
        exact h.ended _ (.closed incoming rfl hmessage hpatient) hprompt
      | status status =>
        simp only [List.append_nil]
        rw [h.receivedData]
        exact h.ended _ (.failed incoming status rfl hmessage hpatient) hprompt
      | update update offers =>
        let arrival : Arrival T :=
          ⟨update, fun k => (deliveries shutdown offers (max now incoming.ready) k).1⟩
        let handled := run.session.handle arrival.deliver update
        let t : Taken T := ⟨now, max now incoming.ready, incoming, arrival,
          deliveredAt shutdown offers (max now incoming.ready) handled.delivered.length⟩
        have htaken := h.take (t := t) rfl rfl hle hstop hmessage (fun k => rfl) rfl
        cases hstate : endingOf handled.state with
        | some ending =>
          simp only [handled, arrival] at hstate
          simp only [hstate]
          have hlast := htaken.ended rest (.handed past t rfl ending (by
            rw [handledAfter, ← h.run_eq]
            exact hstate)) htaken.prompt
          rw [List.map_append, List.append_assoc] at hlast
          exact hlast
        | none =>
          simp only [handled, arrival] at hstate
          simp only [hstate]
          have hnext := ih htaken
          rw [List.map_append, List.append_assoc, List.append_assoc] at hnext
          exact hnext
    · simp only [StallClock.onWaitStarted_remaining, hwake, List.append_nil]
      refine h.stalled _ ?_ hstop
      rintro _ ⟨⟩
      exact hready _ rfl

end

end YogSothoth.Grpc
