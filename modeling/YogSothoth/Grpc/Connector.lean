import Mathlib.Data.List.DropRight
import Mathlib.Tactic.Cases
import YogSothoth.Bootstrap.Secret
import YogSothoth.Grpc.RetryBudget
import YogSothoth.Grpc.Session

namespace YogSothoth.Grpc

variable {T : Type*}

/-! Instants and durations are in nanoseconds. -/

def NANOS_PER_SEC : Nat := 1000000000

def STALL_TIMEOUT : Nat := 30 * NANOS_PER_SEC

def CONNECT_TIMEOUT : Nat := 10 * NANOS_PER_SEC

/-- The server's silence, in time spent waiting on it; only a block-meta resets it. -/
structure StallClock where
  timeout : Nat
  silent : Nat
  waitingSince : Option Nat

namespace StallClock

def new (timeout : Nat) : StallClock := ⟨timeout, 0, none⟩

def onWaitStarted (clock : StallClock) (now : Nat) : StallClock :=
  { clock with waitingSince := some now }

def onWaitEnded (clock : StallClock) (now : Nat) : StallClock :=
  match clock.waitingSince with
  | none => clock
  | some since => { clock with silent := clock.silent + (now - since), waitingSince := none }

def onBlockMeta (clock : StallClock) : StallClock := { clock with silent := 0 }

def remaining (clock : StallClock) : Nat := clock.timeout - clock.silent

end StallClock

inductive StallSite where
  | subscribe
  | stream
  deriving DecidableEq

def StallSite.describe : StallSite → String
  | .subscribe => "subscribe never answered"
  | .stream => "no block-meta from the stream"

/-- The decimals of a fraction of `10 ^ digits`, without its trailing zeros. -/
def fraction (digits part : Nat) : String :=
  let padded := (List.replicate digits '0' ++ Nat.toDigits 10 part).rtake digits
  match padded.rdropWhile (· == '0') with
  | [] => ""
  | shown => "." ++ String.ofList shown

/-- How `Debug` prints a duration. -/
def debugDuration (nanos : Nat) : String :=
  if NANOS_PER_SEC ≤ nanos then
    toString (nanos / NANOS_PER_SEC) ++ fraction 9 (nanos % NANOS_PER_SEC) ++ "s"
  else if 1000000 ≤ nanos then toString (nanos / 1000000) ++ fraction 6 (nanos % 1000000) ++ "ms"
  else if 1000 ≤ nanos then toString (nanos / 1000) ++ fraction 3 (nanos % 1000) ++ "µs"
  else toString nanos ++ "ns"

example : debugDuration STALL_TIMEOUT = "30s" := by decide

/-- What one delivery meets: a transaction it cannot translate, or the channel, with room, closed,
or full for `wait`. A stop at the very instant there is room is heard or not. -/
inductive Offer where
  | untranslatable
  | room
  | closed
  | full (wait : Nat) (closes heard : Bool)

/-- `Delivery::deliver`, with the instant it answers at. -/
def Offer.deliver (shutdown : Option Nat) (now : Nat) : Offer → SessionState × Nat
  | .untranslatable => (.open, now)
  | .room => (.open, now)
  | .closed => (.downstreamClosed, now)
  | .full wait closes heard =>
    let sent := (if closes then SessionState.downstreamClosed else .open, now + wait)
    match shutdown with
    | none => sent
    | some stop =>
      if stop < now + wait ∨ stop = now + wait ∧ heard then (.shutdownRequested, max now stop)
      else sent

/-- The deliveries of one update, each after the one before. -/
def deliveries (shutdown : Option Nat) (offers : Nat → Offer) (now : Nat) :
    Nat → SessionState × Nat
  | 0 => (offers 0).deliver shutdown now
  | k + 1 => (offers (k + 1)).deliver shutdown (deliveries shutdown offers now k).2

/-- When the first `count` deliveries are over. -/
def deliveredAt (shutdown : Option Nat) (offers : Nat → Offer) (now : Nat) : Nat → Nat
  | 0 => now
  | k + 1 => (deliveries shutdown offers now k).2

/-- What `stream.message()` gives. -/
inductive StreamMessage (T : Type*) where
  | update (update : Update T) (offers : Nat → Offer)
  | closed
  | status (status : String)

/-- A message, and the instant it can be read from. -/
structure Incoming (T : Type*) where
  ready : Nat
  message : StreamMessage T

/-- What `subscribe` answers; a refusal that did not come from the service is our transport's. -/
inductive Answer where
  | accepted
  | refused (status : String) (reachedTheService : Bool)

/-- What one attempt meets: how long the dial takes and how it fails, how long `subscribe` takes to
be answered, if it ever is, and what the stream then gives. -/
structure Meeting (T : Type*) where
  dial : Nat
  undialled : Option String
  answer : Option (Nat × Answer)
  stream : List (Incoming T)
  startedAt : Instant
  protocols : List Protocol

/-- What ends a wait. -/
inductive Woken where
  | shutdown
  | message
  | timer
  deriving DecidableEq

/-- A biased `select!` from `now` on: the first to be ready, and of those ready at one instant the
stop, then the message, then the timer. -/
def wake (shutdown message : Option Nat) (now timer : Nat) : Woken × Nat :=
  let deadline := message.elim timer (fun ready => min (max now ready) timer)
  if shutdown.any (fun stop => decide (max now stop ≤ deadline)) then
    (.shutdown, max now (shutdown.getD now))
  else if message.any (fun ready => decide (max now ready ≤ timer)) then (.message, deadline)
  else (.timer, timer)

/-- A turn of the loop that took an update. -/
structure Taken (T : Type*) where
  since : Nat
  takenAt : Nat
  incoming : Incoming T
  arrival : Arrival T
  done : Nat

/-- One stream, read to its end. -/
structure Reading (T : Type*) where
  taken : List (Taken T)
  run : SessionRun T
  ending : Ending
  endedAt : Nat

def Reading.cons (t : Taken T) (r : Reading T) : Reading T := { r with taken := t :: r.taken }

/-- The ending a session's state brings, if any. -/
def endingOf : SessionState → Option Ending
  | .open => none
  | .downstreamClosed => some .downstreamClosed
  | .shutdownRequested => some .shutdownRequested

structure Connector where
  url : String
  stallTimeout : Nat

namespace Connector

/-- `SecretUrl::scrub` of the endpoint's URL, which never panics. -/
def scrub (c : Connector) (text : String) : String :=
  ((Bootstrap.scrub c.url.toList text.toList).map String.ofList).getD ""

def stalled (c : Connector) (site : StallSite) (delivered : Bool) : Ending :=
  .stalled ("stalled: " ++ site.describe ++ " for " ++ debugDuration c.stallTimeout) delivered

/-- The loop of `read`, waiting again at `now`. -/
def read (c : Connector) (shutdown : Option Nat) (run : SessionRun T) (clock : StallClock)
    (now : Nat) : List (Incoming T) → Reading T
  | [] =>
    let clock := clock.onWaitStarted now
    match wake shutdown none now (now + clock.remaining) with
    | (.shutdown, endedAt) => ⟨[], run, .shutdownRequested, endedAt⟩
    | (_, endedAt) => ⟨[], run, c.stalled .stream run.session.receivedData, endedAt⟩
  | incoming :: rest =>
    let clock := clock.onWaitStarted now
    match wake shutdown (some incoming.ready) now (now + clock.remaining) with
    | (.shutdown, endedAt) => ⟨[], run, .shutdownRequested, endedAt⟩
    | (.timer, endedAt) => ⟨[], run, c.stalled .stream run.session.receivedData, endedAt⟩
    | (.message, readAt) =>
      let clock := clock.onWaitEnded readAt
      match incoming.message with
      | .closed => ⟨[], run, .streamClosed run.session.receivedData, readAt⟩
      | .status status =>
        ⟨[], run, .failed (c.scrub ("stream: " ++ status)) run.session.receivedData, readAt⟩
      | .update update offers =>
        let arrival : Arrival T := ⟨update, fun k => (deliveries shutdown offers readAt k).1⟩
        let handled := run.session.handle arrival.deliver update
        let done := deliveredAt shutdown offers readAt handled.delivered.length
        let after := run.step arrival
        let clock :=
          if after.session.blockMetas ≠ run.session.blockMetas then clock.onBlockMeta else clock
        let taken : Taken T := ⟨now, readAt, incoming, arrival, done⟩
        match endingOf handled.state with
        | some ending => ⟨[taken], after, ending, done⟩
        | none => (c.read shutdown after clock done rest).cons taken

/-- One attempt: its stream, if it opened one, how it ended and when. -/
structure Attempt (T : Type*) where
  reading : Option (Reading T)
  ending : Ending
  endedAt : Nat

/-- `attempt`: dial, subscribe and read. The stop is not listened to during the dial. -/
def attempt (c : Connector) (shutdown : Option Nat) (now : Nat) (m : Meeting T) : Attempt T :=
  let dialled := now + m.dial
  match m.undialled with
  | some error => ⟨none, .unreachable (c.scrub ("connect: " ++ error)), dialled⟩
  | none =>
    match wake shutdown (m.answer.map (fun answer => dialled + answer.1)) dialled
        (dialled + c.stallTimeout), m.answer with
    | (.shutdown, endedAt), _ => ⟨none, .shutdownRequested, endedAt⟩
    | (.message, readAt), some (_, .accepted) =>
      let reading := c.read shutdown ⟨.new (.new m.startedAt m.protocols), []⟩
        (.new c.stallTimeout) readAt m.stream
      ⟨some reading, reading.ending, reading.endedAt⟩
    | (.message, readAt), some (_, .refused status false) =>
      ⟨none, .unreachable (c.scrub ("subscribe: " ++ status)), readAt⟩
    | (.message, readAt), some (_, .refused status true) =>
      ⟨none, .failed (c.scrub ("subscribe: " ++ status)) false, readAt⟩
    | (_, endedAt), _ => ⟨none, c.stalled .subscribe false, endedAt⟩

end Connector

end YogSothoth.Grpc
