import YogSothoth.Bootstrap.Secret
import YogSothoth.Framework.Substrings

namespace YogSothoth.Rpc

open Bootstrap (separator)

/-- `KEY_PLACEHOLDER`. -/
def keyPlaceholder : List Char := Char.ofNat 0x7b :: 'k' :: 'e' :: 'y' :: [Char.ofNat 0x7d]

/-- The streaming endpoint as configured, with the header that carries its credential, if one
does. -/
structure Endpoint where
  template : String
  header : Option (String × String)
  key : Option String

namespace Endpoint

/-- A text with the credential substituted in. -/
def substituted (self : Endpoint) (text : String) : String :=
  match self.key with
  | some key => String.ofList (replaceAll keyPlaceholder key.toList text.toList)
  | none => text

def url (self : Endpoint) : String := self.substituted self.template

def assembledHeader (self : Endpoint) : Option (String × String) :=
  self.header.map (fun h => (h.1, self.substituted h.2))

end Endpoint

/-- `SecretUrl::scheme`: what stands before the first `://`, when it is a scheme. -/
def urlScheme (url : String) : Option String :=
  (splitFirst separator url.toList).bind fun r =>
    match r.1 with
    | [] => none
    | first :: rest =>
      if first.isAlpha && rest.all (fun c => c.isAlphanum || c = '+' || c = '-' || c = '.') then
        some (String.ofList (r.1.map Char.toLower))
      else none

/-- What one ingestion path accepts, and what it tells an operator who got it wrong. -/
structure Transport where
  accepted : List String
  expects : String
  other : String

def WEBSOCKET : Transport where
  accepted := ["ws", "wss"]
  expects := "`logsSubscribe` is a WebSocket: write `wss://host`, or `ws://` for a local validator."
  other := "An `https://` address is what a Yellowstone gRPC endpoint looks like — " ++
    "`INGEST_SOURCE=grpc` is what reads it."

/-- `scheme::check`. -/
def Transport.check (transport : Transport) (url : String) : Except String Unit :=
  match urlScheme url with
  | some scheme =>
    if scheme ∈ transport.accepted then .ok ()
    else .error ("it carries the `" ++ scheme ++ "` scheme. " ++ transport.expects ++ " " ++
      transport.other)
  | none => .error ("it has no scheme. " ++ transport.expects)

/-- The header names, as they are written on the wire, and the header values a request takes. -/
structure Http where
  headerName : String → Option String
  headerValue : String → Bool

inductive CredentialError where
  | invalidHeaderName (name : String)
  | invalidHeaderValue (name : String)
  deriving DecidableEq

/-- `Credential::new`. -/
def Http.credential (http : Http) :
    Option (String × String) → Except CredentialError (Option (String × String))
  | none => .ok none
  | some (name, value) =>
    match http.headerName name with
    | none => .error (.invalidHeaderName name)
    | some name =>
      if http.headerValue value then .ok (some (name, value))
      else .error (.invalidHeaderValue name)

/-- An endpoint the listener starts on: its header can be sent, and its URL is a WebSocket's. -/
structure Endpoint.Usable (http : Http) (endpoint : Endpoint) : Prop where
  header : ∀ name value, endpoint.assembledHeader = some (name, value) →
    (http.headerName name).isSome = true ∧ http.headerValue value = true
  scheme : ∃ scheme ∈ WEBSOCKET.accepted, urlScheme endpoint.url = some scheme

theorem Transport.check_ok_iff (transport : Transport) (url : String) :
    transport.check url = .ok () ↔ ∃ scheme ∈ transport.accepted, urlScheme url = some scheme := by
  unfold Transport.check
  cases urlScheme url with
  | none => simp
  | some scheme =>
    by_cases h : scheme ∈ transport.accepted
    · simp [h]
    · simp [h]

theorem Http.credential_ok_iff (http : Http) (header : Option (String × String)) :
    (∃ credential, http.credential header = .ok credential) ↔
      ∀ name value, header = some (name, value) →
        (http.headerName name).isSome = true ∧ http.headerValue value = true := by
  cases header with
  | none => simp [Http.credential]
  | some header =>
    obtain ⟨name, value⟩ := header
    unfold Http.credential
    cases hname : http.headerName name with
    | none => simp [hname]
    | some wire =>
      cases hvalue : http.headerValue value with
      | true => simp [hname, hvalue]
      | false => simp [hname, hvalue]

end YogSothoth.Rpc
