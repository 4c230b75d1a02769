import YogSothoth.Framework.Hex

namespace YogSothoth.JsonText

def quote : Char := Char.ofNat 0x22

def backslash : Char := Char.ofNat 0x5c

/-- The letters of the short escapes, and the characters they stand for. -/
def shortEscapes : List (Char × Char) :=
  [('b', Char.ofNat 0x08), ('t', Char.ofNat 0x09), ('n', Char.ofNat 0x0a), ('f', Char.ofNat 0x0c),
    ('r', Char.ofNat 0x0d), (quote, quote), (backslash, backslash)]

def escapeOf (c : Char) : Option Char := (shortEscapes.find? (fun e => e.2 = c)).map Prod.fst

def unescape (letter : Char) : Option Char :=
  (shortEscapes.find? (fun e => e.1 = letter)).map Prod.snd

/-- A character inside a string: only a quote, a backslash and a control are escaped. -/
def escape (c : Char) : List Char :=
  match escapeOf c with
  | some letter => [backslash, letter]
  | none =>
    if c.toNat < 0x20 then
      [backslash, 'u', '0', '0', hexDigit (c.toNat / 16), hexDigit (c.toNat % 16)]
    else [c]

def hexValue (c : Char) : Nat := if c.toNat < 0x61 then c.toNat - 0x30 else c.toNat - 0x61 + 10

/-- A string after its opening quote, and what follows the closing one. Of the long escapes only those
of the first page are read. -/
def readString : List Char → Option (List Char × List Char)
  | [] => none
  | c :: rest =>
    if c = quote then some ([], rest)
    else if c = backslash then
      match rest with
      | [] => none
      | letter :: rest =>
        if letter = 'u' then
          match rest with
          | first :: second :: high :: low :: rest =>
            if first = '0' ∧ second = '0' then
              (readString rest).map
                (fun r => (Char.ofNat (16 * hexValue high + hexValue low) :: r.1, r.2))
            else none
          | _ => none
        else
          match unescape letter with
          | none => none
          | some c => (readString rest).map (fun r => (c :: r.1, r.2))
    else (readString rest).map (fun r => (c :: r.1, r.2))

/-- An integer in decimal. -/
def writeInt : Int → List Char
  | .ofNat n => Nat.toDigits 10 n
  | .negSucc n => '-' :: Nat.toDigits 10 (n + 1)

def readNat (text : List Char) : Option (Nat × List Char) :=
  let digits := text.takeWhile Char.isDigit
  if digits = [] then none
  else some (Nat.ofDigitChars 10 digits 0, text.dropWhile Char.isDigit)

def readInt : List Char → Option (Int × List Char)
  | [] => none
  | c :: rest =>
    if c = '-' then (readNat rest).map (fun r => (-(r.1 : Int), r.2))
    else (readNat (c :: rest)).map (fun r => ((r.1 : Int), r.2))

section Strings

theorem hexValue_hexDigit : ∀ n < 16, hexValue (hexDigit n) = n := by decide

theorem ofNat_hex {c : Char} (h : c.toNat < 0x20) :
    Char.ofNat (16 * hexValue (hexDigit (c.toNat / 16)) + hexValue (hexDigit (c.toNat % 16))) = c := by
  rw [hexValue_hexDigit _ (by omega), hexValue_hexDigit _ (by omega), Nat.div_add_mod,
    Char.ofNat_toNat]

theorem readString_quote (rest : List Char) : readString (quote :: rest) = some ([], rest) := by
  rw [readString.eq_def]
  exact if_pos rfl

theorem escapeOf_spec : ∀ e ∈ shortEscapes,
    escapeOf e.2 = some e.1 ∧ unescape e.1 = some e.2 ∧ e.1 ≠ 'u' := by decide

theorem escapeOf_cases {c letter : Char} (h : escapeOf c = some letter) :
    unescape letter = some c ∧ letter ≠ 'u' := by
  obtain ⟨e, hfind, rfl⟩ := Option.map_eq_some_iff.mp h
  have hc : e.2 = c := by simpa using List.find?_some hfind
  obtain ⟨-, hunescape, hu⟩ := escapeOf_spec e (List.mem_of_find?_eq_some hfind)
  exact ⟨hc ▸ hunescape, hu⟩

/-- A quote and a backslash have an escape, so that what has none is neither. -/
theorem ne_of_escapeOf {c : Char} (h : escapeOf c = none) : c ≠ quote ∧ c ≠ backslash := by
  constructor
  · rintro rfl
    exact absurd h (by decide)
  · rintro rfl
    exact absurd h (by decide)

theorem backslash_ne_quote : backslash ≠ quote := by decide

theorem readString_escape (c : Char) (rest : List Char) :
    readString (escape c ++ rest) = (readString rest).map (fun r => (c :: r.1, r.2)) := by
  unfold escape
  cases hescape : escapeOf c with
  | some letter =>
    obtain ⟨hunescape, hu⟩ := escapeOf_cases hescape
    change readString (backslash :: letter :: rest) = _
    rw [readString.eq_def]
    simp only [if_neg backslash_ne_quote, if_true, if_neg hu, hunescape]
  | none =>
    obtain ⟨hquote, hback⟩ := ne_of_escapeOf hescape
    by_cases hcontrol : c.toNat < 0x20
    · simp only [if_pos hcontrol]
      change readString (backslash :: 'u' :: '0' :: '0' :: hexDigit (c.toNat / 16) ::
        hexDigit (c.toNat % 16) :: rest) = _
      rw [readString.eq_def]
      simp only [if_neg backslash_ne_quote, if_true, and_self, ofNat_hex hcontrol]
    · simp only [if_neg hcontrol]
      change readString (c :: rest) = _
      rw [readString.eq_def]
      simp only [if_neg hquote, if_neg hback]

theorem readString_written (s rest : List Char) :
    readString (s.flatMap escape ++ quote :: rest) = some (s, rest) := by
  induction s with
  | nil => exact readString_quote rest
  | cons c s ih =>
    rw [List.flatMap_cons, List.append_assoc, readString_escape, ih]
    rfl

end Strings

section Integers

/-- No digit comes next. -/
def Ends (rest : List Char) : Prop := ∀ c, rest.head? = some c → c.isDigit = false

theorem takeWhile_digits {digits rest : List Char} (h : ∀ c ∈ digits, c.isDigit = true)
    (hrest : Ends rest) :
    (digits ++ rest).takeWhile Char.isDigit = digits ∧
      (digits ++ rest).dropWhile Char.isDigit = rest := by
  rw [List.takeWhile_append_of_pos h, List.dropWhile_append_of_pos h]
  cases rest with
  | nil => simp
  | cons c rest =>
    have hc := hrest c rfl
    rw [List.takeWhile_cons_of_neg (by simp [hc]), List.dropWhile_cons_of_neg (by simp [hc]),
      List.append_nil]
    exact ⟨rfl, rfl⟩

theorem toDigits_isDigit (n : Nat) : ∀ c ∈ Nat.toDigits 10 n, c.isDigit = true :=
  fun _ hc => Nat.isDigit_of_mem_toDigits (by decide) (by decide) hc

theorem readNat_written (n : Nat) {rest : List Char} (hrest : Ends rest) :
    readNat (Nat.toDigits 10 n ++ rest) = some (n, rest) := by
  obtain ⟨htake, hdrop⟩ := takeWhile_digits (toDigits_isDigit n) hrest
  simp only [readNat, htake, hdrop, if_neg Nat.toDigits_ne_nil, Nat.ofDigitChars_ten_toDigits]

theorem readInt_written (n : Int) {rest : List Char} (hrest : Ends rest) :
    readInt (writeInt n ++ rest) = some (n, rest) := by
  cases n with
  | ofNat n =>
    have hread := readNat_written n hrest
    rw [writeInt]
    cases hdigits : Nat.toDigits 10 n with
    | nil => exact absurd hdigits Nat.toDigits_ne_nil
    | cons c cs =>
      have hc : c ≠ '-' := by
        rintro rfl
        exact absurd (toDigits_isDigit n '-' (hdigits ▸ List.mem_cons_self)) (by decide)
      rw [hdigits] at hread
      rw [List.cons_append, readInt, if_neg hc, ← List.cons_append, hread]
      rfl
  | negSucc n =>
    rw [writeInt, List.cons_append, readInt, if_pos rfl, readNat_written (n + 1) hrest]
    rfl

/-- An integer starts with a digit or a sign. -/
theorem writeInt_head {n : Int} {c : Char} {cs : List Char} (h : writeInt n = c :: cs) :
    c ≠ quote ∧ c ≠ 'n' := by
  have hc : c.isDigit = true ∨ c = '-' := by
    cases n with
    | ofNat n =>
      rw [writeInt] at h
      exact Or.inl (toDigits_isDigit n c (h ▸ List.mem_cons_self))
    | negSucc n => exact Or.inr (List.cons.inj h).1.symm
  constructor
  · rintro rfl
    exact absurd hc (by decide)
  · rintro rfl
    exact absurd hc (by decide)

end Integers

end YogSothoth.JsonText
