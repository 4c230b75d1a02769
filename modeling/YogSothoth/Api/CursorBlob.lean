import YogSothoth.Api.Cursor
import YogSothoth.Framework.Base64
import YogSothoth.Framework.JsonText

namespace YogSothoth.Api

open JsonText

namespace JsonObject

def writeValue : JsonValue → List Char
  | .string s => quote :: (s.toList.flatMap escape ++ [quote])
  | .number n => writeInt n
  | .null => ['n', 'u', 'l', 'l']

def writeMember (m : String × JsonValue) : List Char :=
  quote :: (m.1.toList.flatMap escape ++ quote :: ':' :: writeValue m.2)

def writeMembers : JsonObject → List Char
  | [] => []
  | [m] => writeMember m
  | m :: ms => writeMember m ++ ',' :: writeMembers ms

def openBrace : Char := Char.ofNat 0x7b

def closeBrace : Char := Char.ofNat 0x7d

/-- An object without blanks, its members in order. -/
def write (o : JsonObject) : List Char := openBrace :: (writeMembers o ++ [closeBrace])

def readValue : List Char → Option (JsonValue × List Char)
  | [] => none
  | c :: rest =>
    if c = quote then (readString rest).map (fun r => (.string (String.ofList r.1), r.2))
    else if c = 'n' then
      if rest.take 3 = ['u', 'l', 'l'] then some (.null, rest.drop 3) else none
    else (readInt (c :: rest)).map (fun r => (.number r.1, r.2))

def readMember : List Char → Option ((String × JsonValue) × List Char)
  | [] => none
  | c :: rest =>
    if c = quote then
      (readString rest).bind (fun key =>
        if key.2.head? = some ':' then
          (readValue key.2.tail).map (fun r => ((String.ofList key.1, r.1), r.2))
        else none)
    else none

/-- The members up to the closing brace, which ends the text. -/
def readMembers : Nat → List Char → Option JsonObject
  | 0, _ => none
  | fuel + 1, text =>
    match readMember text with
    | none => none
    | some (m, rest) =>
      if rest = [closeBrace] then some [m]
      else if rest.head? = some ',' then (readMembers fuel rest.tail).map (m :: ·)
      else none

def read (text : List Char) : Option JsonObject :=
  if text = [openBrace, closeBrace] then some []
  else if text.head? = some openBrace then readMembers text.length text.tail
  else none

theorem readValue_written (v : JsonValue) {rest : List Char} (hrest : Ends rest) :
    readValue (writeValue v ++ rest) = some (v, rest) := by
  cases v with
  | string s =>
    rw [writeValue, List.cons_append, List.append_assoc, readValue, if_pos rfl]
    change (readString (s.toList.flatMap escape ++ quote :: rest)).map _ = _
    rw [readString_written, Option.map_some, String.ofList_toList]
  | number n =>
    have hread := readInt_written n hrest
    rw [writeValue]
    cases htext : writeInt n with
    | nil =>
      rw [htext] at hread
      have hnil : Ends [] := by exact nofun
      have hends := readInt_written n hnil
      rw [htext] at hends
      cases hends
    | cons c cs =>
      have hc : c ≠ quote ∧ c ≠ 'n' := writeInt_head htext
      rw [htext] at hread
      rw [List.cons_append] at hread ⊢
      rw [readValue, if_neg hc.1, if_neg hc.2, hread]
      rfl
  | null => rfl

theorem readMember_written (m : String × JsonValue) {rest : List Char} (hrest : Ends rest) :
    readMember (writeMember m ++ rest) = some (m, rest) := by
  have hkey := readString_written m.1.toList (':' :: (writeValue m.2 ++ rest))
  have htext : writeMember m ++ rest =
      quote :: (m.1.toList.flatMap escape ++ quote :: ':' :: (writeValue m.2 ++ rest)) := by
    simp [writeMember]
  rw [htext, readMember, if_pos rfl, hkey, Option.bind_some, List.head?_cons, if_pos rfl,
    List.tail_cons, readValue_written m.2 hrest, Option.map_some, String.ofList_toList]

theorem ends_comma (rest : List Char) : Ends (',' :: rest) := by
  intro c hc
  cases hc
  decide

theorem ends_brace : Ends [closeBrace] := by
  intro c hc
  cases hc
  decide

theorem readMembers_written {o : JsonObject} (ho : o ≠ []) {fuel : Nat} (hfuel : o.length ≤ fuel) :
    readMembers fuel (writeMembers o ++ [closeBrace]) = some o := by
  induction o generalizing fuel with
  | nil => exact absurd rfl ho
  | cons m ms ih =>
    obtain ⟨fuel, rfl⟩ : ∃ k, fuel = k + 1 := ⟨fuel - 1, by rw [List.length_cons] at hfuel; omega⟩
    cases ms with
    | nil =>
      rw [writeMembers, readMembers, readMember_written m ends_brace]
      exact if_pos rfl
    | cons m' ms =>
      have htail := ih (List.cons_ne_nil m' ms) (Nat.le_of_succ_le_succ hfuel)
      have hne : ',' :: (writeMembers (m' :: ms) ++ [closeBrace]) ≠ [closeBrace] := by
        intro h
        exact absurd (List.cons.inj h).1 (by decide)
      rw [writeMembers, List.append_assoc, List.cons_append, readMembers,
        readMember_written m (ends_comma _)]
      · simp only [if_neg hne, List.head?_cons, if_true, List.tail_cons, htail, Option.map_some]
      · exact List.cons_ne_nil m' ms

theorem length_writeMembers (o : JsonObject) : o.length ≤ (writeMembers o).length := by
  induction o with
  | nil => exact Nat.le_refl 0
  | cons m ms ih =>
    cases ms with
    | nil => simp [writeMembers, writeMember]
    | cons m' ms =>
      rw [writeMembers, List.length_append]
      · simp only [List.length_cons] at ih ⊢
        omega
      · exact List.cons_ne_nil m' ms

theorem read_write (o : JsonObject) : read (write o) = some o := by
  cases o with
  | nil => rfl
  | cons m ms =>
    have hne : write (m :: ms) ≠ [openBrace, closeBrace] := by
      intro h
      have hhead : (writeMembers (m :: ms) ++ [closeBrace]).head? = some closeBrace := by
        rw [(List.cons.inj h).2]
        rfl
      cases ms <;> exact absurd (Option.some.inj hhead) (by decide)
    have hlength := length_writeMembers (m :: ms)
    rw [read, if_neg hne, write, List.head?_cons, if_pos rfl, List.tail_cons]
    refine readMembers_written (List.cons_ne_nil m ms) ?_
    rw [List.length_cons, List.length_cons, List.length_append]
    rw [List.length_cons] at hlength
    omega

end JsonObject

/-- The object's text as bytes, and these as base64. -/
def urlSafeEncode (o : JsonObject) : String :=
  String.ofList (Base64.encode (String.ofList o.write).toUTF8.data.toList)

def urlSafeDecode (raw : String) : Except BlobError JsonObject :=
  match Base64.decode raw.toList with
  | none => .error .notBase64
  | some bytes =>
    match (String.fromUTF8? ⟨bytes.toArray⟩).bind (fun text => JsonObject.read text.toList) with
    | none => .error .notJson
    | some o => .ok o

theorem fromUTF8?_toUTF8 (s : String) : String.fromUTF8? s.toUTF8 = some s := by
  have hvalid : s.toUTF8.IsValidUTF8 := s.isValidUTF8
  rw [String.fromUTF8?, dif_pos hvalid]
  rfl

theorem urlSafeDecode_encode (o : JsonObject) : urlSafeDecode (urlSafeEncode o) = .ok o := by
  unfold urlSafeDecode urlSafeEncode
  rw [String.toList_ofList, Base64.decode_encode]
  have htext : String.fromUTF8? ⟨(String.ofList o.write).toUTF8.data.toList.toArray⟩ =
      some (String.ofList o.write) := by
    rw [Array.toArray_toList]
    exact fromUTF8?_toUTF8 _
  simp only [htext, Option.bind_some, String.toList_ofList, JsonObject.read_write]

/-- The libraries' own form of an object. -/
def Blob.urlSafe : Blob := ⟨urlSafeEncode, urlSafeDecode, urlSafeDecode_encode⟩

example : Blob.urlSafe.encode [("status", .null), ("starts_at", .string "1970-01-01T00:00:00+00:00"),
    ("id", .number (-7))] =
    "eyJzdGF0dXMiOm51bGwsInN0YXJ0c19hdCI6IjE5NzAtMDEtMDFUMDA6MDA6MDArMDA6MDAiLCJpZCI6LTd9" := by
  decide +kernel

end YogSothoth.Api
