import YogSothoth.Framework.Substrings
import YogSothoth.Indexer.Persistor
import YogSothoth.Indexer.TransactionAdapter
import YogSothoth.Resolver.Decoder

namespace YogSothoth.Rpc

open Indexer (Codecs IngestedTransaction)
open Indexer.Rpc (EncodedConfirmedTransactionWithStatusMeta fromRpc)

structure RawLogEvent where
  protocol : Protocol
  signature : String
  logs : List String
  /-- What the transaction failed with, if it did. -/
  err : Option String
  deriving DecidableEq

structure QualifiedSignature where
  protocol : Protocol
  signature : Signature

inductive FilterDecision where
  | accept
  | reject (reason : String)
  deriving DecidableEq

structure LogFilter where
  name : String
  accept : RawLogEvent → FilterDecision

def failedTransactionFilter : LogFilter where
  name := "failed_tx"
  accept event := if event.err.isSome then .reject "transaction failed on-chain" else .accept

/-- The line a program's invocation writes starts so. -/
def invocationMarker (texts : Texts) (protocol : Protocol) : String :=
  "Program " ++ texts.pubkey.print (Decoder.programId protocol) ++ " invoke"

def invocationFilter (texts : Texts) : LogFilter where
  name := "invocation"
  accept event :=
    if event.logs.any
        (fun log => (invocationMarker texts event.protocol).toList.isPrefixOf log.toList) then
      .accept
    else .reject "program not invoked (ALT-only reference)"

structure SignatureDispatcher where
  filters : List LogFilter
  nonempty : filters ≠ []

def SignatureDispatcher.newWithFilters (filters : List LogFilter) : Option SignatureDispatcher :=
  if h : filters = [] then none else some ⟨filters, h⟩

def SignatureDispatcher.newDefault (texts : Texts) : SignatureDispatcher :=
  ⟨[invocationFilter texts, failedTransactionFilter], List.cons_ne_nil _ _⟩

/-- What the filter chain and the parsing make of an event. -/
inductive Qualified where
  | rejected (filter reason : String)
  | malformed
  | qualified (q : QualifiedSignature)

/-- The first rejection drops the event; its signature is read last. -/
def SignatureDispatcher.qualify (self : SignatureDispatcher) (texts : Texts)
    (event : RawLogEvent) : Qualified :=
  let rejection := self.filters.findSome? (fun f =>
    match f.accept event with
    | .accept => none
    | .reject reason => some (f.name, reason))
  match rejection with
  | some (filter, reason) => .rejected filter reason
  | none =>
    match texts.signature.parse event.signature with
    | .ok signature => .qualified ⟨event.protocol, signature⟩
    | .error _ => .malformed

inductive FetchError where
  | notFound
  | rateLimited
  | timeout
  | connection (message : String)
  | unsupportedVersion (message : String)
  | other (message : String)
  deriving DecidableEq

namespace FetchError

def metricLabel : FetchError → String
  | .notFound => "not_found"
  | .rateLimited => "rate_limited"
  | .timeout => "timeout"
  | .connection _ => "connection_error"
  | .unsupportedVersion _ => "unsupported_version"
  | .other _ => "other"

/-- Everything but a version refusal is asked again. -/
def isRetryable : FetchError → Bool
  | .unsupportedVersion _ => false
  | _ => true

/-- A message in lower case; only its ASCII letters count below. -/
def lower (msg : String) : List Char := msg.toList.map Char.toLower

def contains (msg pattern : String) : Bool := (splitFirst pattern.toList (lower msg)).isSome

def fromRpcString (msg : String) : FetchError :=
  if contains msg "-32015" then .unsupportedVersion msg
  else if contains msg "null" then .notFound
  else if contains msg "429" || contains msg "rate limit" || contains msg "too many requests" then
    .rateLimited
  else if contains msg "timeout" || contains msg "timed out" then .timeout
  else if contains msg "connection" || contains msg "connect" then .connection msg
  else .other msg

end FetchError

/-- Where an event of the log stream ended up, short of a queue: the filters' and the parser's
refusals, the losses, what a fetch came to, and the transaction handed to the indexer. -/
inductive Fate where
  | rejected (filter reason : String)
  | malformed
  /-- The dispatcher's channel was full. -/
  | channelFull
  | saturated
  /-- A queue nothing reads any more, counted nowhere. -/
  | unread
  | notFound
  | failure (reason : String)
  | dropped (reason : String)
  | sent (ingested : IngestedTransaction)

/-- The transaction a fate hands over. -/
def Fate.ingested : Fate → Option IngestedTransaction
  | .sent ingested => some ingested
  | _ => none

/-- A qualified signature, with the event it names, which the code does not keep. -/
structure Tracked where
  qualified : QualifiedSignature
  event : RawLogEvent

/-- Where a detached `fetch_one` is: asking, with the retries it has left, or handing over. -/
inductive FetchStage where
  | asking (retries : Nat)
  | handing (ingested : IngestedTransaction)

structure Fetch where
  tracked : Tracked
  stage : FetchStage

/-- `FixedInterval::from_millis(500).take(5)`. -/
def FETCH_RETRIES : Nat := 5

def Fetch.start (tracked : Tracked) : Fetch := ⟨tracked, .asking FETCH_RETRIES⟩

/-- What an answer of the RPC makes of a fetch that has `retries` left: its next stage, or its
end. -/
def fetchAnswer (codecs : Codecs) (scrub : String → String) (tracked : Tracked) (retries : Nat)
    (answer : Except String EncodedConfirmedTransactionWithStatusMeta) : FetchStage ⊕ Fate :=
  match answer with
  | .ok fetched =>
    match fromRpc codecs fetched with
    | .ok transaction => .inl (.handing ⟨tracked.qualified.protocol, transaction⟩)
    | .error _ => .inr (.failure "adapt")
  | .error msg =>
    let e := FetchError.fromRpcString (scrub msg)
    if e.isRetryable && retries > 0 then .inl (.asking (retries - 1))
    else if e = .notFound then .inr .notFound
    else .inr (.failure e.metricLabel)

end YogSothoth.Rpc
