import YogSothoth.Framework.Hex

namespace YogSothoth

/-- `char::is_whitespace`, Unicode's `White_Space`. -/
def isWhitespace (c : Char) : Bool :=
  (0x09 ≤ c.toNat && c.toNat ≤ 0x0d) || c.toNat == 0x20 || c.toNat == 0x85 || c.toNat == 0xa0 ||
    c.toNat == 0x1680 || (0x2000 ≤ c.toNat && c.toNat ≤ 0x200a) || c.toNat == 0x2028 ||
    c.toNat == 0x2029 || c.toNat == 0x202f || c.toNat == 0x205f || c.toNat == 0x3000

def isAsciiWhitespace (c : Char) : Bool :=
  c.toNat == 0x09 || c.toNat == 0x0a || c.toNat == 0x0c || c.toNat == 0x0d || c.toNat == 0x20

def trim (text : List Char) : List Char :=
  ((text.dropWhile isWhitespace).reverse.dropWhile isWhitespace).reverse

/-- `HeaderValue::to_str`: visible ASCII, blanks and tabs alone are text. -/
def toStr (header : List UInt8) : Option (List Char) :=
  if header.all (fun b => (0x20 ≤ b.toNat && b.toNat < 0x7f) || b == 0x09) then
    some (header.map (fun b => Char.ofNat b.toNat))
  else none

/-- `str::parse::<u64>`: digits, after a plus sign if any, in range. -/
def parseU64 (text : List Char) : Option Nat :=
  let digits := if text.head? = some '+' then text.drop 1 else text
  let value := digits.foldl (fun n c => 10 * n + (c.toNat - 0x30)) 0
  if digits.isEmpty || !digits.all Char.isDigit || 2 ^ 64 ≤ value then none else some value

theorem dropWhile_eq_self {A : Type} {p : A → Bool} {l : List A} (h : ∀ a ∈ l.head?, p a = false) :
    l.dropWhile p = l := by
  cases l with
  | nil => rfl
  | cons a l => rw [List.dropWhile_cons_of_neg (Bool.eq_false_iff.mp (h a rfl))]

/-- No blank at either end, nothing to trim. -/
theorem trim_eq_self {text : List Char} (hhead : ∀ c ∈ text.head?, isWhitespace c = false)
    (hlast : ∀ c ∈ text.getLast?, isWhitespace c = false) : trim text = text := by
  rw [trim, dropWhile_eq_self hhead, dropWhile_eq_self, List.reverse_reverse]
  rw [List.head?_reverse]
  exact hlast

theorem isWhitespace_visible {c : Char} (h : 0x20 < c.toNat ∧ c.toNat < 0x7f) :
    isWhitespace c = false := by
  have hno : ∀ n, (n ≤ 0x20 ∨ 0x7f ≤ n) → (c.toNat == n) = false := fun n hn =>
    beq_eq_false_iff_ne.mpr (by omega)
  simp only [isWhitespace, Bool.or_eq_false_iff, Bool.and_eq_false_iff, decide_eq_false_iff_not]
  refine ⟨⟨⟨⟨⟨⟨⟨⟨⟨⟨?_, hno _ ?_⟩, hno _ ?_⟩, hno _ ?_⟩, hno _ ?_⟩, ?_⟩, hno _ ?_⟩, hno _ ?_⟩,
    hno _ ?_⟩, hno _ ?_⟩, hno _ ?_⟩ <;> omega

/-- A text as the bytes of a header come back. -/
theorem toStr_asBytes {text : List Char} (h : ∀ c ∈ text, 0x20 ≤ c.toNat ∧ c.toNat < 0x7f) :
    toStr (asBytes text) = some text := by
  have hlow : ∀ c ∈ text, c.toNat < 0x80 := fun c hc => by
    have hc := h c hc
    omega
  have hback : (text.map (fun c => c.val.toUInt8)).map (fun b => Char.ofNat b.toNat) = text := by
    rw [List.map_map]
    refine (List.map_congr_left (fun c hc => ?_)).trans (List.map_id text)
    change Char.ofNat c.val.toUInt8.toNat = c
    rw [toUInt8_toNat (hlow c hc), Char.ofNat_toNat]
  rw [toStr, asBytes_ascii hlow, if_pos, hback]
  rw [List.all_eq_true]
  intro b hb
  obtain ⟨c, hc, rfl⟩ := List.mem_map.mp hb
  have hvisible := h c hc
  rw [Bool.or_eq_true, Bool.and_eq_true, decide_eq_true_eq, decide_eq_true_eq,
    toUInt8_toNat (hlow c hc)]
  exact Or.inl hvisible

end YogSothoth
