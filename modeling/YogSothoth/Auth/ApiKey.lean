import YogSothoth.Framework.Hex
import YogSothoth.Framework.Sha256

namespace YogSothoth.Auth

open String (utf8Len)

/-- A number of bytes, as an array type has it. -/
abbrev Bytes (n : Nat) := {bytes : List UInt8 // bytes.length = n}

def API_KEY_PREFIX_BYTES : Nat := 4

def API_KEY_SECRET_BYTES : Nat := 32

def MARKER : List Char := ['y', 'o', 'g', '_']

inductive ApiKeyFormatError where
  | marker
  | parts
  | prefixLength
  | secretLength
  | notLowerHex
  deriving DecidableEq

/-- `yog_<prefix>_<secret>`, both in lowercase hex. -/
structure ApiKey where
  text : List Char
  deriving DecidableEq

namespace ApiKey

def fromRandom (pre : Bytes API_KEY_PREFIX_BYTES) (secret : Bytes API_KEY_SECRET_BYTES) : ApiKey :=
  ⟨MARKER ++ lowerHex pre.1 ++ ['_'] ++ lowerHex secret.1⟩

def parse (text : List Char) : Except ApiKeyFormatError ApiKey :=
  if MARKER.isPrefixOf text then
    match splitFirst ['_'] (text.drop MARKER.length) with
    | none => .error .parts
    | some (pre, secret) =>
      if utf8Len pre ≠ API_KEY_PREFIX_BYTES * 2 then .error .prefixLength
      else if utf8Len secret ≠ API_KEY_SECRET_BYTES * 2 then .error .secretLength
      else if !(asBytes pre ++ asBytes secret).all isLowerHex then .error .notLowerHex
      else .ok ⟨text⟩
  else .error .marker

/-- What names a key to an operator. -/
def pre (self : ApiKey) : List Char := (self.text.drop MARKER.length).take (API_KEY_PREFIX_BYTES * 2)

/-- The SHA-256 of the whole key, what storage keeps. -/
def hash (self : ApiKey) : List UInt8 := Sha256.hash (asBytes self.text)

theorem underscore_not_hex {text : List Char} (h : ∀ c ∈ text, isHexChar c) : '_' ∉ text := by
  intro hmem
  rcases h '_' hmem with h | h
  · exact absurd h.2 (by decide)
  · exact absurd h.1 (by decide)

theorem splitFirst_hex {front : List Char} (h : ∀ c ∈ front, isHexChar c)
    (secret : List Char) : splitFirst ['_'] (front ++ '_' :: secret) = some (front, secret) := by
  refine splitFirst_head (List.not_mem_nil) ?_
  intro hin
  exact underscore_not_hex h (hin.subset (List.mem_singleton.mpr rfl))

theorem utf8Len_hex {text : List Char} (h : ∀ c ∈ text, isHexChar c) :
    utf8Len text = text.length := utf8Len_ascii (fun c hc => isHexChar_ascii (h c hc))

section Issued

variable (front : Bytes API_KEY_PREFIX_BYTES) (secret : Bytes API_KEY_SECRET_BYTES)

theorem fromRandom_text :
    (fromRandom front secret).text = MARKER ++ (lowerHex front.1 ++ '_' :: lowerHex secret.1) := by
  rw [fromRandom, List.append_assoc, List.append_assoc]
  rfl

theorem fromRandom_pre : (fromRandom front secret).pre = lowerHex front.1 := by
  have hlength : (lowerHex front.1).length = API_KEY_PREFIX_BYTES * 2 := by
    rw [lowerHex_length, front.2, Nat.mul_comm]
  rw [pre, fromRandom_text, List.drop_left, ← hlength, List.take_left]

theorem parse_fromRandom :
    parse (fromRandom front secret).text = .ok (fromRandom front secret) := by
  have hfront := lowerHex_hex front.1
  have hsecret := lowerHex_hex secret.1
  have hfrontLength : utf8Len (lowerHex front.1) = API_KEY_PREFIX_BYTES * 2 := by
    rw [utf8Len_hex hfront, lowerHex_length, front.2, Nat.mul_comm]
  have hsecretLength : utf8Len (lowerHex secret.1) = API_KEY_SECRET_BYTES * 2 := by
    rw [utf8Len_hex hsecret, lowerHex_length, secret.2, Nat.mul_comm]
  have hall : (asBytes (lowerHex front.1) ++ asBytes (lowerHex secret.1)).all isLowerHex =
      true := by
    rw [List.all_append, (asBytes_lowerHex _).mpr hfront, (asBytes_lowerHex _).mpr hsecret]
    rfl
  have hmarker : MARKER.isPrefixOf (fromRandom front secret).text = true := by
    rw [fromRandom_text]
    exact List.isPrefixOf_iff_prefix.mpr (List.prefix_append ..)
  have hsplit : splitFirst ['_'] ((fromRandom front secret).text.drop MARKER.length) =
      some (lowerHex front.1, lowerHex secret.1) := by
    rw [fromRandom_text, List.drop_left, splitFirst_hex hfront]
  rw [parse, if_pos hmarker, hsplit]
  dsimp only
  rw [if_neg (not_not.mpr hfrontLength), if_neg (not_not.mpr hsecretLength), hall]
  rfl

end Issued

/-- A key tells its prefix and its secret apart. -/
theorem fromRandom_injective {front front' : Bytes API_KEY_PREFIX_BYTES}
    {secret secret' : Bytes API_KEY_SECRET_BYTES}
    (h : fromRandom front secret = fromRandom front' secret') :
    front = front' ∧ secret = secret' := by
  have htext := congrArg text h
  rw [fromRandom_text, fromRandom_text] at htext
  have hlength : (lowerHex front.1).length = (lowerHex front'.1).length := by
    rw [lowerHex_length, lowerHex_length, front.2, front'.2]
  obtain ⟨hfront, hrest⟩ := List.append_inj (List.append_cancel_left htext) hlength
  exact ⟨Subtype.ext (lowerHex_injective hfront),
    Subtype.ext (lowerHex_injective (List.cons.inj hrest).2)⟩

/-- What parses is a key that can be issued. -/
theorem parse_spec {text : List Char} {key : ApiKey} (h : parse text = .ok key) :
    key.text = text ∧ ∃ front secret, key = fromRandom front secret := by
  unfold parse at h
  split_ifs at h with hmarker
  obtain ⟨rest, hrest⟩ := List.isPrefixOf_iff_prefix.mp hmarker
  cases hsplit : splitFirst ['_'] (text.drop MARKER.length) with
  | none =>
    rw [hsplit] at h
    cases h
  | some parts =>
    obtain ⟨front, secret⟩ := parts
    rw [hsplit] at h
    dsimp only at h
    split_ifs at h with hfrontLength hsecretLength hall
    rw [← hrest, List.drop_left] at hsplit
    have hparts : rest = front ++ '_' :: secret := (splitFirst_spec hsplit).1
    rw [Bool.not_eq_true', Bool.not_eq_false, List.all_append, Bool.and_eq_true,
      asBytes_lowerHex, asBytes_lowerHex] at hall
    rw [not_not] at hfrontLength hsecretLength
    rw [utf8Len_hex hall.1, Nat.mul_comm] at hfrontLength
    rw [utf8Len_hex hall.2, Nat.mul_comm] at hsecretLength
    obtain ⟨frontBytes, hfrontCount, hfront⟩ := exists_lowerHex hall.1 hfrontLength
    obtain ⟨secretBytes, hsecretCount, hsecret⟩ := exists_lowerHex hall.2 hsecretLength
    cases h
    refine ⟨rfl, ⟨frontBytes, hfrontCount⟩, ⟨secretBytes, hsecretCount⟩, ?_⟩
    have htext : text =
        (fromRandom ⟨frontBytes, hfrontCount⟩ ⟨secretBytes, hsecretCount⟩).text := by
      rw [fromRandom_text, hfront, hsecret, ← hrest, hparts]
    rw [htext]

end ApiKey

end YogSothoth.Auth
