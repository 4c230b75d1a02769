import YogSothoth.Framework.Utf8

namespace YogSothoth

open String

/-- A text as UTF-8. -/
def asBytes (text : List Char) : List UInt8 := text.flatMap utf8EncodeChar

section Ascii

variable {p : UInt8 → Bool}

theorem not_ascii_or (hp : ∀ b, p b = true → b.toNat < 0x80) {byte mark : UInt8}
    (h : 0x80 ≤ mark.toNat) : p (byte ||| mark) = false := by
  rw [Bool.eq_false_iff, ne_eq]
  intro hbyte
  have hlt := hp _ hbyte
  rw [UInt8.toNat_or] at hlt
  have hle : mark.toNat ≤ byte.toNat ||| mark.toNat := Nat.right_le_or
  omega

/-- Bytes of ASCII alone come of ASCII characters alone. -/
theorem utf8EncodeChar_all (hp : ∀ b, p b = true → b.toNat < 0x80) (c : Char) :
    (utf8EncodeChar c).all p = true ↔ c.toNat < 0x80 ∧ p c.val.toUInt8 = true := by
  rcases c.utf8Size_eq with h | h | h | h
  · have hlow : c.toNat ≤ 127 := UInt32.le_iff_toNat_le.mp (Char.utf8Size_eq_one_iff.mp h)
    rw [utf8EncodeChar_eq_singleton h, List.all_cons, List.all_nil, Bool.and_true]
    exact ⟨fun hp => ⟨Nat.lt_succ_of_le hlow, hp⟩, And.right⟩
  · have hhigh : 127 < c.toNat := UInt32.lt_iff_toNat_lt.mp (Char.utf8Size_eq_two_iff.mp h).1
    rw [utf8EncodeChar_eq_cons_cons h, List.all_cons, not_ascii_or hp (by decide), Bool.false_and]
    exact iff_of_false Bool.false_ne_true (by omega)
  · have hhigh : 0x7ff < c.toNat := UInt32.lt_iff_toNat_lt.mp (Char.utf8Size_eq_three_iff.mp h).1
    rw [utf8EncodeChar_eq_cons_cons_cons h, List.all_cons, not_ascii_or hp (by decide),
      Bool.false_and]
    exact iff_of_false Bool.false_ne_true (by omega)
  · have hhigh : 0xffff < c.toNat := UInt32.lt_iff_toNat_lt.mp (Char.utf8Size_eq_four_iff.mp h)
    rw [utf8EncodeChar_eq_cons_cons_cons_cons h, List.all_cons, not_ascii_or hp (by decide),
      Bool.false_and]
    exact iff_of_false Bool.false_ne_true (by omega)

theorem toUInt8_toNat {c : Char} (h : c.toNat < 0x80) : c.val.toUInt8.toNat = c.toNat := by
  rw [UInt32.toNat_toUInt8]
  exact Nat.mod_eq_of_lt (Nat.lt_trans h (by decide))

theorem ascii_size {c : Char} (h : c.toNat < 0x80) : c.utf8Size = 1 := by
  rw [Char.utf8Size_eq_one_iff, UInt32.le_iff_toNat_le]
  exact Nat.le_of_lt_succ h

theorem asBytes_all (hp : ∀ b, p b = true → b.toNat < 0x80) (text : List Char) :
    (asBytes text).all p = true ↔ ∀ c ∈ text, c.toNat < 0x80 ∧ p c.val.toUInt8 = true := by
  rw [asBytes, List.all_flatMap, List.all_eq_true]
  exact forall_congr' (fun c => imp_congr_right (fun _ => utf8EncodeChar_all hp c))

theorem asBytes_ascii {text : List Char} (h : ∀ c ∈ text, c.toNat < 0x80) :
    asBytes text = text.map (fun c => c.val.toUInt8) := by
  induction text with
  | nil => rfl
  | cons c text ih =>
    rw [asBytes, List.flatMap_cons, ← asBytes, ih (fun d hd => h d (List.mem_cons_of_mem c hd)),
      utf8EncodeChar_eq_singleton (ascii_size (h c List.mem_cons_self))]
    rfl

theorem utf8Len_ascii {text : List Char} (h : ∀ c ∈ text, c.toNat < 0x80) :
    utf8Len text = text.length := by
  induction text with
  | nil => rfl
  | cons c text ih =>
    rw [utf8Len_cons, ascii_size (h c List.mem_cons_self),
      ih (fun d hd => h d (List.mem_cons_of_mem c hd)), List.length_cons]

end Ascii

def hexDigit (n : Nat) : Char :=
  if n < 10 then Char.ofNat (0x30 + n) else Char.ofNat (0x61 + (n - 10))

/-- A byte as `{b:02x}`. -/
def hexByte (b : UInt8) : List Char := [hexDigit (b.toNat / 16), hexDigit (b.toNat % 16)]

def lowerHex (bytes : List UInt8) : List Char := bytes.flatMap hexByte

def isLowerHex (byte : UInt8) : Bool :=
  (0x30 ≤ byte.toNat && byte.toNat ≤ 0x39) || (0x61 ≤ byte.toNat && byte.toNat ≤ 0x66)

/-- A character that is a lowercase hex digit. -/
def isHexChar (c : Char) : Prop :=
  (0x30 ≤ c.toNat ∧ c.toNat ≤ 0x39) ∨ (0x61 ≤ c.toNat ∧ c.toNat ≤ 0x66)

theorem isHexChar_ascii {c : Char} (h : isHexChar c) : c.toNat < 0x80 := by
  rcases h with h | h <;> omega

theorem isLowerHex_iff {byte : UInt8} : isLowerHex byte = true ↔
    (0x30 ≤ byte.toNat ∧ byte.toNat ≤ 0x39) ∨ (0x61 ≤ byte.toNat ∧ byte.toNat ≤ 0x66) := by
  simp only [isLowerHex, Bool.or_eq_true, Bool.and_eq_true, decide_eq_true_eq]

theorem isLowerHex_ascii (byte : UInt8) (h : isLowerHex byte = true) : byte.toNat < 0x80 := by
  rcases isLowerHex_iff.mp h with h | h <;> omega

/-- A text in lowercase hex is told by its bytes. -/
theorem asBytes_lowerHex (text : List Char) :
    (asBytes text).all isLowerHex = true ↔ ∀ c ∈ text, isHexChar c := by
  rw [asBytes_all isLowerHex_ascii]
  refine forall_congr' (fun c => imp_congr_right (fun _ => ?_))
  constructor
  · intro ⟨hlow, hhex⟩
    rwa [isLowerHex_iff, toUInt8_toNat hlow] at hhex
  · intro h
    refine ⟨isHexChar_ascii h, ?_⟩
    rwa [isLowerHex_iff, toUInt8_toNat (isHexChar_ascii h)]

theorem hexDigit_toNat {n : Nat} (h : n < 16) :
    (hexDigit n).toNat = if n < 10 then 0x30 + n else 0x61 + (n - 10) := by
  unfold hexDigit
  split_ifs with hten
  · have hvalid : (0x30 + n).isValidChar := Or.inl (by omega)
    rw [Char.ofNat, dif_pos hvalid]
    rfl
  · have hvalid : (0x61 + (n - 10)).isValidChar := Or.inl (by omega)
    rw [Char.ofNat, dif_pos hvalid]
    rfl

theorem isHexChar_hexDigit {n : Nat} (h : n < 16) : isHexChar (hexDigit n) := by
  unfold isHexChar
  rw [hexDigit_toNat h]
  split_ifs <;> omega

theorem hexDigit_injective {m n : Nat} (hm : m < 16) (hn : n < 16) (h : hexDigit m = hexDigit n) :
    m = n := by
  have hnat := congrArg Char.toNat h
  rw [hexDigit_toNat hm, hexDigit_toNat hn] at hnat
  split_ifs at hnat <;> omega

theorem exists_hexDigit {c : Char} (h : isHexChar c) : ∃ n, n < 16 ∧ hexDigit n = c := by
  rcases h with h | h
  · refine ⟨c.toNat - 0x30, by omega, ?_⟩
    rw [hexDigit, if_pos (by omega), Nat.add_sub_cancel' h.1, Char.ofNat_toNat]
  · refine ⟨c.toNat - 0x61 + 10, by omega, ?_⟩
    rw [hexDigit, if_neg (by omega), Nat.add_sub_cancel, Nat.add_sub_cancel' h.1, Char.ofNat_toNat]

theorem div16_lt (b : UInt8) : b.toNat / 16 < 16 := by
  have hb := b.toNat_lt
  omega

theorem mod16_lt (b : UInt8) : b.toNat % 16 < 16 := Nat.mod_lt _ (by decide)

theorem lowerHex_hex (bytes : List UInt8) : ∀ c ∈ lowerHex bytes, isHexChar c := by
  intro c hc
  obtain ⟨b, _, hc⟩ := List.mem_flatMap.mp hc
  rcases List.mem_pair.mp hc with rfl | rfl
  · exact isHexChar_hexDigit (div16_lt b)
  · exact isHexChar_hexDigit (mod16_lt b)

theorem lowerHex_length (bytes : List UInt8) : (lowerHex bytes).length = 2 * bytes.length := by
  induction bytes with
  | nil => rfl
  | cons b bytes ih =>
    rw [lowerHex, List.flatMap_cons, List.length_append, ← lowerHex, ih, List.length_cons]
    change 2 + _ = _
    omega

theorem hexByte_injective {a b : UInt8} (h : hexByte a = hexByte b) : a = b := by
  obtain ⟨hhigh, hrest⟩ := List.cons.inj h
  have hdiv := hexDigit_injective (div16_lt a) (div16_lt b) hhigh
  have hmod := hexDigit_injective (mod16_lt a) (mod16_lt b) (List.cons.inj hrest).1
  exact UInt8.toNat_inj.mp (by omega)

theorem lowerHex_injective {a b : List UInt8} (h : lowerHex a = lowerHex b) : a = b := by
  induction a generalizing b with
  | nil =>
    cases b with
    | nil => rfl
    | cons y b => cases h
  | cons x a ih =>
    cases b with
    | nil => cases h
    | cons y b =>
      obtain ⟨hbyte, hrest⟩ := List.append_inj h rfl
      rw [hexByte_injective hbyte, ih hrest]

/-- Two hex digits a byte: every hex text of even length is one. -/
theorem exists_lowerHex {n : Nat} {text : List Char} (hhex : ∀ c ∈ text, isHexChar c)
    (hlength : text.length = 2 * n) :
    ∃ bytes : List UInt8, bytes.length = n ∧ lowerHex bytes = text := by
  induction n generalizing text with
  | zero =>
    rw [List.length_eq_zero_iff.mp hlength]
    exact ⟨[], rfl, rfl⟩
  | succ n ih =>
    have htwo : ∃ c d rest, text = c :: d :: rest := by
      cases text with
      | nil => cases hlength
      | cons c text =>
        cases text with
        | nil =>
          rw [List.length_singleton] at hlength
          omega
        | cons d rest => exact ⟨c, d, rest, rfl⟩
    obtain ⟨c, d, rest, rfl⟩ := htwo
    obtain ⟨high, hhigh, rfl⟩ := exists_hexDigit (hhex c List.mem_cons_self)
    obtain ⟨low, hlow, rfl⟩ :=
      exists_hexDigit (hhex d (List.mem_cons_of_mem _ List.mem_cons_self))
    have hrest : ∀ e ∈ rest, isHexChar e := fun e he =>
      hhex e (List.mem_cons_of_mem _ (List.mem_cons_of_mem _ he))
    rw [List.length_cons, List.length_cons] at hlength
    obtain ⟨bytes, hcount, hbytes⟩ := ih hrest (by omega)
    have hfits : 16 * high + low < UInt8.size := by
      change 16 * high + low < 256
      omega
    have hbyte : (UInt8.ofNat (16 * high + low)).toNat = 16 * high + low :=
      UInt8.toNat_ofNat_of_lt' hfits
    have hdiv : (16 * high + low) / 16 = high := by omega
    have hmod : (16 * high + low) % 16 = low := by omega
    refine ⟨UInt8.ofNat (16 * high + low) :: bytes, congrArg Nat.succ hcount, ?_⟩
    rw [lowerHex, List.flatMap_cons, ← lowerHex, hbytes, hexByte, hbyte, hdiv, hmod]
    rfl

end YogSothoth
