import Mathlib.Algebra.Ring.Int.Defs
import Mathlib.Algebra.Ring.Nat
import YogSothoth.Core.Types

namespace YogSothoth

/-- A printed form and its parser, of a library the program does not hold: a printed value reads
back, and a text that does not parse is refused with the library's own message. -/
structure TextCodec (α : Type) where
  print : α → String
  parse : String → Except String α
  parse_print : ∀ a, parse (print a) = .ok a

theorem TextCodec.print_injective {α : Type} (c : TextCodec α) {a b : α}
    (h : c.print a = c.print b) : a = b := by
  have hparse := c.parse_print a
  rw [h, c.parse_print b, Except.ok.injEq] at hparse
  exact hparse.symm

/-- A `rust_decimal::Decimal`: 96 bits of digits, at most 28 of them after the point. -/
structure Decimal where
  mantissa : Int
  scale : Nat
  bits : mantissa.natAbs < 2 ^ 96
  digits : scale ≤ 28
  deriving DecidableEq

theorem wholeDigits : 0 ≤ 28 := Nat.zero_le 28

/-- The printed forms the program stores and sends: base58 addresses and signatures, decimals,
RFC 3339 instants. -/
structure Texts where
  pubkey : TextCodec Pubkey
  signature : TextCodec Signature
  decimal : TextCodec Decimal
  instant : TextCodec Instant

section Plain

/-- A byte as one character, zero as `1`: on zero bytes the base58 form. -/
def byteChar (b : UInt8) : Char := Char.ofNat (0x31 + b.toNat)

def charByte (c : Char) : UInt8 := UInt8.ofNat (c.toNat - 0x31)

theorem charByte_byteChar (b : UInt8) : charByte (byteChar b) = b := by
  have hb := b.toNat_lt
  have hvalid : (0x31 + b.toNat).isValidChar := Or.inl (by omega)
  have hnat : (byteChar b).toNat = 0x31 + b.toNat := by
    rw [byteChar, Char.ofNat, dif_pos hvalid]
    rfl
  rw [charByte, hnat, Nat.add_sub_cancel_left, UInt8.ofNat_toNat]

theorem map_charByte_byteChar (bytes : List UInt8) :
    (bytes.map byteChar).map charByte = bytes := by
  rw [List.map_map]
  exact List.map_id'' (fun b => charByte_byteChar b) bytes

def pubkeyText : TextCodec Pubkey where
  print p := String.ofList (p.bytes.map byteChar)
  parse s :=
    if h : (s.toList.map charByte).length = 32 then .ok ⟨s.toList.map charByte, h⟩
    else .error "String is the wrong size"
  parse_print := by
    intro p
    have hbytes : ((String.ofList (p.bytes.map byteChar)).toList.map charByte) = p.bytes := by
      rw [String.toList_ofList, map_charByte_byteChar]
    simp only [hbytes, p.size, dif_pos]

def signatureText : TextCodec Signature where
  print p := String.ofList (p.bytes.map byteChar)
  parse s :=
    if h : (s.toList.map charByte).length = 64 then .ok ⟨s.toList.map charByte, h⟩
    else .error "string decoded to wrong size for signature"
  parse_print := by
    intro p
    have hbytes : ((String.ofList (p.bytes.map byteChar)).toList.map charByte) = p.bytes := by
      rw [String.toList_ofList, map_charByte_byteChar]
    simp only [hbytes, p.size, dif_pos]

/-- An integer as a count, zero as none. -/
def countOf (z : Int) : Nat := if 0 ≤ z then 2 * z.toNat else 2 * (-z).toNat - 1

def ofCount (n : Nat) : Int := if n % 2 = 0 then (n / 2 : Nat) else -((n + 1) / 2 : Nat)

theorem ofCount_countOf (z : Int) : ofCount (countOf z) = z := by
  unfold ofCount countOf
  split_ifs <;> omega

def instantText : TextCodec Instant where
  print t := String.ofList ("1970-01-01T00:00:00+00:00".toList ++ List.replicate (countOf t) '!')
  parse s := .ok (ofCount (s.toList.count '!'))
  parse_print := by
    intro t
    have hcount : "1970-01-01T00:00:00+00:00".toList.count '!' = 0 := by decide
    rw [String.toList_ofList, List.count_append, hcount, List.count_replicate_self, Nat.zero_add,
      ofCount_countOf]

def decimalText : TextCodec Decimal where
  print d := String.ofList ('0' :: (List.replicate (countOf d.mantissa) '!' ++
    List.replicate d.scale '?'))
  parse s :=
    if h : (ofCount (s.toList.count '!')).natAbs < 2 ^ 96 ∧ s.toList.count '?' ≤ 28 then
      .ok ⟨ofCount (s.toList.count '!'), s.toList.count '?', h.1, h.2⟩
    else .error "Invalid decimal"
  parse_print := by
    intro d
    have hdigits : ('0' :: (List.replicate (countOf d.mantissa) '!' ++
        List.replicate d.scale '?')).count '!' = countOf d.mantissa := by
      simp [List.count_append, List.count_replicate]
    have hscale : ('0' :: (List.replicate (countOf d.mantissa) '!' ++
        List.replicate d.scale '?')).count '?' = d.scale := by
      simp [List.count_append, List.count_replicate]
    simp only [String.toList_ofList, hdigits, hscale, ofCount_countOf]
    rw [dif_pos ⟨d.bits, d.digits⟩]

def zeroPubkey : Pubkey := ⟨List.replicate 32 0, by decide⟩

def zeroSignature : Signature := ⟨List.replicate 64 0, by decide⟩

/-- Forms that agree with the libraries' on zero bytes, the number zero and the epoch. -/
def Texts.plain : Texts := ⟨pubkeyText, signatureText, decimalText, instantText⟩

end Plain

def parseProtocol (raw : String) : Except RepositoryError Protocol :=
  if raw = "meteora_damm_v2" then .ok .meteoraDammV2
  else if raw = "meteora_dlmm" then .ok .meteoraDlmm
  else .error (.integrity ("invalid protocol: unknown program id: " ++ raw))

def convertOptional {T U : Type} (value : Option T) (field : String)
    (convert : T → String → Except RepositoryError U) : Except RepositoryError (Option U) :=
  match value with
  | none => .ok none
  | some v => (convert v field).map some

section Columns

variable (texts : Texts)

def convertStringToPubkey (key field : String) : Except RepositoryError Pubkey :=
  (texts.pubkey.parse key).mapError (fun e => .integrity ("invalid " ++ field ++ " pubkey: " ++ e))

def convertStringToSignature (raw field : String) : Except RepositoryError Signature :=
  (texts.signature.parse raw).mapError
    (fun e => .integrity ("invalid " ++ field ++ " signature: " ++ e))

/-- A `NUMERIC` stands here as its plain string, which is what the conversion reads of it. -/
def convertBigdecimalToDecimal (plain field : String) : Except RepositoryError Decimal :=
  (texts.decimal.parse plain).mapError
    (fun e => .integrity ("failed to convert " ++ field ++ " from BigDecimal to Decimal: " ++ e))

@[simp] theorem convertStringToPubkey_print (p : Pubkey) (field : String) :
    convertStringToPubkey texts (texts.pubkey.print p) field = .ok p := by
  rw [convertStringToPubkey, texts.pubkey.parse_print]
  rfl

@[simp] theorem convertStringToSignature_print (s : Signature) (field : String) :
    convertStringToSignature texts (texts.signature.print s) field = .ok s := by
  rw [convertStringToSignature, texts.signature.parse_print]
  rfl

@[simp] theorem convertBigdecimalToDecimal_print (d : Decimal) (field : String) :
    convertBigdecimalToDecimal texts (texts.decimal.print d) field = .ok d := by
  rw [convertBigdecimalToDecimal, texts.decimal.parse_print]
  rfl

end Columns

@[simp] theorem parseProtocol_asStr (p : Protocol) : parseProtocol p.asStr = .ok p := by
  cases p <;> decide

theorem Protocol.asStr_injective {p q : Protocol} (h : p.asStr = q.asStr) : p = q := by
  have hp := parseProtocol_asStr p
  rw [h, parseProtocol_asStr, Except.ok.injEq] at hp
  exact hp.symm

end YogSothoth
