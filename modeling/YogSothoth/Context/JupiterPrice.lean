import YogSothoth.Context.PriceWorker
import YogSothoth.Core.Text
import YogSothoth.Framework.HeaderText
import YogSothoth.Framework.Spaced

namespace YogSothoth.Context

/-- A second, in the nanoseconds durations and instants are counted in. -/
def SECOND : Nat := 1000000000

def JUPITER_BATCH_MAX : Nat := 50

def RATE_LIMIT_MAX_ATTEMPTS : Nat := 3

def RATE_LIMIT_BASE_BACKOFF : Nat := SECOND

def RATE_LIMIT_MAX_BACKOFF : Nat := 10 * SECOND

def SPACING_PER_REQUEST_ALLOWED : Nat := 66 * SECOND

abbrev NonZeroU32 := {n : UInt32 // n ≠ 0}

/-- An entry of the response, by its key: its `usdPrice`, if it has one. -/
abbrev JupiterPriceEntry := String × Option Decimal

/-- What comes of a request: nothing, or a status with its `Retry-After` and its body. -/
inductive HttpAnswer where
  | failed (message : String)
  | answered (status : Nat) (retryAfter : Option (List UInt8))
      (body : Except SourceError (List JupiterPriceEntry))

/-- A request as it goes: how late it starts, how long it takes and what it brings. -/
structure Exchange where
  lag : Nat
  latency : Nat
  answer : HttpAnswer

/-- The server and the network: what becomes of each request, in turn, and the mints it asks. -/
abbrev Server := Nat → List Pubkey → Exchange

/-- `Retry-After` in its delta-seconds form. -/
def parseRetryAfter (header : Option (List UInt8)) : Option Nat := do
  let text ← toStr (← header)
  let seconds ← parseU64 (trim text)
  some (seconds * SECOND)

def rateLimitBackoff (attempt : Nat) (retryAfter : Option Nat) : Nat :=
  min (retryAfter.getD (RATE_LIMIT_BASE_BACKOFF * min (2 ^ attempt) (2 ^ 32 - 1)))
    RATE_LIMIT_MAX_BACKOFF

/-- The least time between the starts of two requests, under the rate limit. -/
def spacingUnder (rateLimit : NonZeroU32) : Nat := SPACING_PER_REQUEST_ALLOWED / rateLimit.1.toNat

/-- Every mint asked that did not come back with a price is unpriced; `none` when none came back
priced. -/
def chunkAnswer (asked : List Pubkey) (priced : List FetchedPrice) : Option PriceAnswer :=
  let withPrice := priced.map FetchedPrice.mint
  if !asked.any (fun mint => mint ∈ withPrice) then none
  else some ⟨priced, asked.filter (fun mint => mint ∉ withPrice)⟩

section Client

variable (texts : Texts)

def intoFetchedPrice (entry : JupiterPriceEntry) : Option FetchedPrice :=
  match entry.2, texts.pubkey.parse entry.1 with
  | some priceUsd, .ok mint => some ⟨mint, .jupiter, priceUsd⟩
  | _, _ => none

def fetchChunkInner (mints : List Pubkey) : HttpAnswer → Except SourceError PriceAnswer
  | .failed message => .error (.http message)
  | .answered status retryAfter body =>
    if status = 429 then .error (.rateLimited (parseRetryAfter retryAfter))
    else if 400 ≤ status ∧ status < 600 then .error (.http ("HTTP status " ++ toString status))
    else match body with
      | .error e => .error e
      | .ok response => .ok ((chunkAnswer mints (response.filterMap (intoFetchedPrice texts))).getD
          ⟨[], []⟩)

/-- What one chunk comes to: its answer, the starts of its requests, when the next may start, and
when and after how many requests it is done. -/
structure ChunkRun where
  result : Except SourceError PriceAnswer
  starts : List Nat
  nextStart : Nat
  finish : Nat
  serial : Nat

variable (spacing : Nat) (server : Server)

/-- One chunk, with the 429 retries it has left. -/
def fetchChunkWithRetry (mints : List Pubkey) : Nat → Nat → Nat → ChunkRun
  | left, now, serial =>
    let exchange := server serial mints
    let start := now + exchange.lag
    let nextStart := start + spacing
    let answered := start + exchange.latency
    match left, fetchChunkInner texts mints exchange.answer with
    | left + 1, .error (.rateLimited retryAfter) =>
      let attempt := RATE_LIMIT_MAX_ATTEMPTS - 1 - (left + 1)
      let wait := max (rateLimitBackoff attempt retryAfter) (nextStart - answered)
      let rest := fetchChunkWithRetry mints left (answered + wait) (serial + 1)
      { rest with starts := start :: rest.starts }
    | _, result => ⟨result, [start], nextStart, answered, serial + 1⟩

/-- One chunk in its slot, raced against the stop: what it started before it, and what it comes
to unless the stop came first. -/
def fetchChunkUnlessStopped (shutdown : Option Nat) (chunk : List Pubkey)
    (now nextStart serial : Nat) : List Nat × Option ChunkRun :=
  let run := fetchChunkWithRetry texts spacing server chunk (RATE_LIMIT_MAX_ATTEMPTS - 1)
    (max now nextStart) serial
  match shutdown with
  | none => (run.starts, some run)
  | some stop =>
    if stop ≤ now ∨ stop ≤ run.finish then (run.starts.filter (fun start => start < stop), none)
    else (run.starts, some run)

def addChunk (answer : PriceAnswer) : Except SourceError PriceAnswer → PriceAnswer
  | .ok answered => ⟨answer.priced ++ answered.priced, answer.unpriced ++ answered.unpriced⟩
  | .error _ => answer

/-- A batch being fetched: its answer, and the starts of the requests of each chunk begun. -/
structure Fetching where
  answer : PriceAnswer
  turns : List (List Nat)
  nextStart : Nat
  now : Nat
  serial : Nat

def Fetching.starts (s : Fetching) : List Nat := s.turns.flatten

theorem Fetching.starts_concat (answer : PriceAnswer) (turns : List (List Nat)) (turn : List Nat)
    (nextStart now serial : Nat) :
    (Fetching.mk answer (turns ++ [turn]) nextStart now serial).starts = turns.flatten ++ turn :=
  List.flatten_concat

def fetchChunks (shutdown : Option Nat) : List (List Pubkey) → Fetching → Fetching
  | [], s => s
  | chunk :: rest, s =>
    match fetchChunkUnlessStopped texts spacing server shutdown chunk s.now s.nextStart s.serial with
    | (starts, none) =>
      { s with turns := s.turns ++ [starts], now := max s.now (shutdown.getD 0) }
    | (starts, some run) =>
      fetchChunks shutdown rest
        ⟨addChunk s.answer run.result, s.turns ++ [starts], run.nextStart, run.finish, run.serial⟩

/-- The prices of the mints, chunk by chunk, until the stop. -/
def fetchPrices (rateLimit : NonZeroU32) (shutdown : Option Nat) (start : Nat)
    (mints : List Pubkey) : Fetching :=
  fetchChunks texts (spacingUnder rateLimit) server shutdown (chunks JUPITER_BATCH_MAX mints)
    ⟨⟨[], []⟩, [], start, start, 0⟩

end Client

end YogSothoth.Context
