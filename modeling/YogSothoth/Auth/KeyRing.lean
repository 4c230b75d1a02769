import Mathlib.Logic.Function.Basic
import YogSothoth.Auth.AuthDatabase
import YogSothoth.Framework.HeaderText

namespace YogSothoth.Auth

/-- The keys the ring holds, by hash, with their clients. -/
abbrev Keys := List UInt8 → Option ApiClient

def byHash (keys : List ActiveKey) : Keys :=
  keys.foldl (fun held key => Function.update held key.hash (some key.client)) (fun _ => none)

/-- `KeyRing::reload`: a failed read keeps the ring as it was. -/
def reload (ring : Keys) : Except RepositoryError (List ActiveKey) → Keys
  | .ok keys => byHash keys
  | .error _ => ring

def clientOf (ring : Keys) (key : ApiKey) : Option ApiClient := ring key.hash

inductive Unauthorized where
  | scheme
  | malformed
  | unknown
  deriving DecidableEq

/-- The token of a `Bearer` credential, empty when it carries none. -/
def bearer (value : List Char) : Option (List Char) :=
  let value := trim value
  let scheme := value.takeWhile (fun c => !isAsciiWhitespace c)
  let token := (value.dropWhile (fun c => !isAsciiWhitespace c)).drop 1
  if scheme.map Char.toLower = ['b', 'e', 'a', 'r', 'e', 'r'] then some (trim token) else none

/-- `Option::ok_or`. -/
def okOr {A E : Type} (value : Option A) (e : E) : Except E A := value.elim (.error e) .ok

/-- The client of an `Authorization` value. -/
def identify (credential : List Char) (ring : Keys) : Except Unauthorized ApiClient := do
  let token ← okOr (bearer credential) .scheme
  let key ← (ApiKey.parse token).mapError (fun _ => .malformed)
  okOr (clientOf ring key) .unknown

/-- What becomes of a request: passed without a client, passed under one, or refused. -/
inductive Admission where
  | anonymous
  | client (client : ApiClient)
  | unauthorized (reason : Unauthorized)

/-- The client a header names; a header that is not text names no scheme. -/
def headerClient (header : List UInt8) (ring : Keys) : Except Unauthorized ApiClient := do
  let credential ← okOr (toStr header) .scheme
  identify credential ring

def authenticate (ring : Keys) : Option (List UInt8) → Admission
  | none => .anonymous
  | some header =>
    match headerClient header ring with
    | .error reason => .unauthorized reason
    | .ok client => .client client

/-- The key an `Authorization` header presents. -/
def Presents (header : Option (List UInt8)) (key : ApiKey) : Prop :=
  ∃ bytes credential token, header = some bytes ∧ toStr bytes = some credential ∧
    bearer credential = some token ∧ ApiKey.parse token = .ok key

theorem presents_unique {header : Option (List UInt8)} {key key' : ApiKey}
    (h : Presents header key) (h' : Presents header key') : key = key' := by
  obtain ⟨bytes, credential, token, hbytes, hcredential, htoken, hkey⟩ := h
  obtain ⟨bytes', credential', token', hbytes', hcredential', htoken', hkey'⟩ := h'
  rw [hbytes] at hbytes'
  cases hbytes'
  rw [hcredential] at hcredential'
  cases hcredential'
  rw [htoken] at htoken'
  cases htoken'
  rw [hkey] at hkey'
  exact Except.ok.inj hkey'

/-- What is presented is a key that can be issued. -/
theorem Presents.format {header : Option (List UInt8)} {key : ApiKey} (h : Presents header key) :
    ∃ front secret, key = ApiKey.fromRandom front secret := by
  obtain ⟨_, _, _, _, _, _, hkey⟩ := h
  exact (ApiKey.parse_spec hkey).2

theorem okOr_eq_ok {A E : Type} {value : Option A} {e : E} {a : A} :
    okOr value e = .ok a ↔ value = some a := by
  cases value with
  | none => exact iff_of_false (fun h => by cases h) (fun h => by cases h)
  | some b =>
    change Except.ok b = Except.ok a ↔ _
    rw [Except.ok.injEq, Option.some_inj]

theorem headerClient_ok {header : List UInt8} {ring : Keys} {client : ApiClient} :
    headerClient header ring = .ok client ↔
      ∃ key, Presents (some header) key ∧ ring key.hash = some client := by
  constructor
  · intro h
    obtain ⟨credential, hcredential, h⟩ := bind_eq_ok h
    obtain ⟨token, htoken, h⟩ := bind_eq_ok h
    obtain ⟨key, hkey, h⟩ := bind_eq_ok h
    exact ⟨key, ⟨header, credential, token, rfl, okOr_eq_ok.mp hcredential,
      okOr_eq_ok.mp htoken, mapError_eq_ok.mp hkey⟩, okOr_eq_ok.mp h⟩
  · intro ⟨key, ⟨_, credential, token, hheader, hcredential, htoken, hkey⟩, hring⟩
    cases hheader
    have hidentified : identify credential ring = .ok client := by
      rw [identify, htoken]
      change (Except.mapError _ (ApiKey.parse token) >>= _) = _
      rw [hkey]
      exact okOr_eq_ok.mpr hring
    rw [headerClient, hcredential]
    exact hidentified

/-- A request passes under a client exactly when the key it presents is that client's. -/
theorem authenticate_client {ring : Keys} {header : Option (List UInt8)} {client : ApiClient} :
    authenticate ring header = .client client ↔
      ∃ key, Presents header key ∧ ring key.hash = some client := by
  cases header with
  | none => exact iff_of_false (fun h => by cases h) (fun ⟨_, ⟨_, _, _, h, _⟩, _⟩ => by cases h)
  | some bytes =>
    rw [← headerClient_ok, authenticate]
    cases headerClient bytes ring with
    | error reason => exact iff_of_false (fun h => by cases h) (fun h => by cases h)
    | ok found =>
      change Admission.client found = _ ↔ _
      rw [Admission.client.injEq, Except.ok.injEq]

section Bearer

/-- A character a key may hold. -/
def isKeyChar (c : Char) : Prop := isHexChar c ∨ c ∈ MARKER

theorem isKeyChar_visible {c : Char} (h : isKeyChar c) : 0x20 < c.toNat ∧ c.toNat < 0x7f := by
  rcases h with h | h
  · rcases h with h | h <;> omega
  · simp only [MARKER, List.mem_cons, List.not_mem_nil, or_false] at h
    rcases h with rfl | rfl | rfl | rfl <;> decide

theorem fromRandom_chars (front : Bytes API_KEY_PREFIX_BYTES)
    (secret : Bytes API_KEY_SECRET_BYTES) :
    ∀ c ∈ (ApiKey.fromRandom front secret).text, isKeyChar c := by
  intro c hc
  rw [ApiKey.fromRandom_text] at hc
  rcases List.mem_append.mp hc with hc | hc
  · exact Or.inr hc
  · rcases List.mem_append.mp hc with hc | hc
    · exact Or.inl (lowerHex_hex front.1 c hc)
    · rcases List.mem_cons.mp hc with rfl | hc
      · exact Or.inr (by decide)
      · exact Or.inl (lowerHex_hex secret.1 c hc)

/-- The header a client sends with its key. -/
def bearerHeader (key : ApiKey) : List UInt8 :=
  asBytes (['B', 'e', 'a', 'r', 'e', 'r', ' '] ++ key.text)

theorem bearer_key (front : Bytes API_KEY_PREFIX_BYTES) (secret : Bytes API_KEY_SECRET_BYTES) :
    bearer (['B', 'e', 'a', 'r', 'e', 'r', ' '] ++ (ApiKey.fromRandom front secret).text) =
      some (ApiKey.fromRandom front secret).text := by
  have hchars : ∀ c ∈ (ApiKey.fromRandom front secret).text, isWhitespace c = false :=
    fun c hc => isWhitespace_visible (isKeyChar_visible (fromRandom_chars front secret c hc))
  have hne : (ApiKey.fromRandom front secret).text ≠ [] := by
    rw [ApiKey.fromRandom_text]
    exact List.cons_ne_nil _ _
  have htoken : trim (ApiKey.fromRandom front secret).text = (ApiKey.fromRandom front secret).text :=
    trim_eq_self (fun c hc => hchars c (List.mem_of_head? hc))
      (fun c hc => hchars c (List.mem_of_getLast? hc))
  have hvalue : trim (['B', 'e', 'a', 'r', 'e', 'r', ' '] ++ (ApiKey.fromRandom front secret).text) =
      ['B', 'e', 'a', 'r', 'e', 'r', ' '] ++ (ApiKey.fromRandom front secret).text := by
    refine trim_eq_self (fun c hc => ?_) (fun c hc => ?_)
    · cases hc
      decide
    · rw [List.getLast?_append_of_ne_nil _ hne] at hc
      exact hchars c (List.mem_of_getLast? hc)
  rw [bearer, hvalue]
  generalize (ApiKey.fromRandom front secret).text = text at htoken ⊢
  exact congrArg some htoken

theorem presents_bearer (front : Bytes API_KEY_PREFIX_BYTES)
    (secret : Bytes API_KEY_SECRET_BYTES) :
    Presents (some (bearerHeader (ApiKey.fromRandom front secret)))
      (ApiKey.fromRandom front secret) := by
  refine ⟨_, _, _, rfl, toStr_asBytes ?_, bearer_key front secret,
    ApiKey.parse_fromRandom front secret⟩
  intro c hc
  rcases List.mem_append.mp hc with hc | hc
  · simp only [List.mem_cons, List.not_mem_nil, or_false] at hc
    rcases hc with rfl | rfl | rfl | rfl | rfl | rfl | rfl <;> decide
  · have hvisible := isKeyChar_visible (fromRandom_chars front secret c hc)
    exact ⟨Nat.le_of_lt hvisible.1, hvisible.2⟩

end Bearer

end YogSothoth.Auth
