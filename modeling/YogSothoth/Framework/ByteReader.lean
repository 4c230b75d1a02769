import Mathlib.Algebra.Order.Ring.Nat
import YogSothoth.Framework.Borsh

namespace YogSothoth

open Borsh (leNat leBytes)

/-- A reader over the bytes left: a value, a refusal, or a panic (`none`). -/
abbrev ByteReader (E A : Type) := StateT (List UInt8) (ExceptT E Option) A

namespace ByteReader

variable {E A B : Type} {p : ByteReader E A} {f : A → ByteReader E B}
  {input rest : List UInt8} {a a' : A} {b : B}

/-- The reader takes a value off the input and leaves the rest. -/
def Gives (p : ByteReader E A) (input : List UInt8) (a : A) (rest : List UInt8) : Prop :=
  p input = some (.ok (a, rest))

def NoPanic (p : ByteReader E A) : Prop := ∀ input, p input ≠ none

/-- What `p >>= f` does with what `p` did. -/
def continued (f : A → ByteReader E B) :
    Option (Except E (A × List UInt8)) → Option (Except E (B × List UInt8))
  | none => none
  | some (.error e) => some (.error e)
  | some (.ok (a, rest)) => f a rest

theorem bind_run : (p >>= f) input = continued f (p input) := by
  change ExceptT.bind (p input) (fun r => f r.1 r.2) = _
  unfold ExceptT.bind ExceptT.mk
  cases h : p input with
  | none => rfl
  | some r => cases r <;> rfl

/-- A bind that gives a value went through what its first reader gave. -/
theorem gives_bind : (p >>= f).Gives input b rest ↔
    ∃ a mid, p.Gives input a mid ∧ (f a).Gives mid b rest := by
  unfold Gives
  rw [bind_run]
  constructor
  · intro h
    cases hp : p input with
    | none =>
      rw [hp] at h
      cases h
    | some r =>
      rw [hp] at h
      cases r with
      | error e => cases Option.some.inj h
      | ok r => exact ⟨r.1, r.2, rfl, h⟩
  · intro h
    obtain ⟨a, mid, hp, hf⟩ := h
    rw [hp]
    exact hf

theorem gives_pure : (pure a : ByteReader E A).Gives input a' rest ↔ a = a' ∧ input = rest := by
  unfold Gives
  change some (Except.ok (a, input)) = some (Except.ok (a', rest)) ↔ _
  rw [Option.some.injEq, Except.ok.injEq, Prod.mk.injEq]

theorem not_gives_throw {e : E} : ¬ (throw e : ByteReader E A).Gives input a rest := by
  intro h
  cases Option.some.inj h

theorem gives_lift {x : ExceptT E Option A} :
    (liftM x : ByteReader E A).Gives input a rest ↔ x = some (.ok a) ∧ input = rest := by
  have hrun : (liftM x : ByteReader E A) input =
      ExceptT.bind x (fun v => (pure (v, input) : ExceptT E Option _)) := rfl
  unfold Gives
  rw [hrun]
  unfold ExceptT.bind ExceptT.mk
  cases x with
  | none =>
    constructor
    · intro h
      cases h
    · intro h
      cases h.1
  | some r =>
    cases r with
    | error e =>
      constructor
      · intro h
        cases Option.some.inj h
      · intro h
        cases Option.some.inj h.1
    | ok v =>
      change some (Except.ok (v, input)) = some (Except.ok (a, rest)) ↔ _
      rw [Option.some.injEq, Except.ok.injEq, Prod.mk.injEq]
      exact and_congr_left' ⟨fun h => by rw [h], fun h => Except.ok.inj (Option.some.inj h)⟩

theorem lift_some (a : A) (g : A → ExceptT E Option B) :
    ((liftM (some a : Option A) : ExceptT E Option A) >>= g) = g a := rfl

theorem NoPanic.bind (hp : p.NoPanic) (hf : ∀ a, (f a).NoPanic) : (p >>= f).NoPanic := by
  intro input
  rw [bind_run]
  cases h : p input with
  | none => exact absurd h (hp input)
  | some r =>
    cases r with
    | error e => exact Option.some_ne_none _
    | ok r => exact hf r.1 r.2

theorem noPanic_pure (a : A) : (pure a : ByteReader E A).NoPanic :=
  fun _ => Option.some_ne_none _

theorem noPanic_throw (e : E) : (throw e : ByteReader E A).NoPanic :=
  fun _ => Option.some_ne_none _

theorem noPanic_lift {x : ExceptT E Option A} (h : x ≠ none) :
    (liftM x : ByteReader E A).NoPanic := by
  intro input
  cases x with
  | none => exact absurd rfl h
  | some r => cases r <;> exact Option.some_ne_none _

theorem run'_run : (StateT.run' p input : ExceptT E Option A) =
    Option.map (Except.map Prod.fst) (p input) := by
  change ExceptT.map Prod.fst (p input) = _
  unfold ExceptT.map ExceptT.mk
  cases p input with
  | none => rfl
  | some r => cases r <;> rfl

theorem run'_eq_ok :
    (StateT.run' p input : ExceptT E Option A) = some (.ok a) ↔ ∃ rest, p.Gives input a rest := by
  unfold Gives
  rw [run'_run]
  cases hp : p input with
  | none =>
    constructor
    · intro h
      cases h
    · intro h
      obtain ⟨rest, h⟩ := h
      cases h
  | some r =>
    cases r with
    | error e =>
      constructor
      · intro h
        cases Option.some.inj h
      · intro h
        obtain ⟨rest, h⟩ := h
        cases Option.some.inj h
    | ok r =>
      constructor
      · intro h
        have hfst : r.1 = a := Except.ok.inj (Option.some.inj h)
        rw [← hfst]
        exact ⟨r.2, rfl⟩
      · intro h
        obtain ⟨rest, h⟩ := h
        have hr : r = (a, rest) := Except.ok.inj (Option.some.inj h)
        rw [hr]
        rfl

theorem run'_ne_none (h : p.NoPanic) : (StateT.run' p input : ExceptT E Option A) ≠ none := by
  rw [run'_run, ne_eq, Option.map_eq_none_iff]
  exact h input

end ByteReader

section LittleEndian

theorem leBytes_length (width n : Nat) : (leBytes width n).length = width := by
  induction width generalizing n with
  | zero => rfl
  | succ width ih => rw [leBytes, List.length_cons, ih]

theorem leNat_lt (bytes : List UInt8) : leNat bytes < 256 ^ bytes.length := by
  induction bytes with
  | nil => exact Nat.one_pos
  | cons b bytes ih =>
    have hb := b.toNat_lt
    rw [leNat, List.length_cons, Nat.pow_succ]
    omega

theorem leBytes_leNat (bytes : List UInt8) : leBytes bytes.length (leNat bytes) = bytes := by
  induction bytes with
  | nil => rfl
  | cons b bytes ih =>
    have hb := b.toNat_lt
    have hhead : UInt8.ofNat (b.toNat + 256 * leNat bytes) = b := by
      apply UInt8.toNat_inj.mp
      rw [UInt8.toNat_ofNat']
      omega
    have htail : (b.toNat + 256 * leNat bytes) / 256 = leNat bytes := by omega
    rw [leNat, List.length_cons, leBytes, hhead, htail, ih]

theorem leNat_leBytes {width n : Nat} (h : n < 256 ^ width) : leNat (leBytes width n) = n := by
  induction width generalizing n with
  | zero =>
    rw [Nat.pow_zero] at h
    rw [leBytes, leNat]
    omega
  | succ width ih =>
    rw [Nat.pow_succ] at h
    rw [leBytes, leNat, ih (by omega), UInt8.toNat_ofNat']
    omega

/-- An unsigned integer of a whole number of bytes. -/
class LeInt (α : Type) where
  width : Nat
  ofNat : Nat → α
  toNat : α → Nat
  toNat_lt : ∀ v, toNat v < 256 ^ width
  ofNat_toNat : ∀ v, ofNat (toNat v) = v
  toNat_ofNat : ∀ n, n < 256 ^ width → toNat (ofNat n) = n

instance : LeInt UInt16 :=
  ⟨2, UInt16.ofNat, UInt16.toNat, UInt16.toNat_lt, fun _ => UInt16.ofNat_toNat,
    fun _ => UInt16.toNat_ofNat_of_lt'⟩

instance : LeInt UInt32 :=
  ⟨4, UInt32.ofNat, UInt32.toNat, UInt32.toNat_lt, fun _ => UInt32.ofNat_toNat,
    fun _ => UInt32.toNat_ofNat_of_lt'⟩

instance : LeInt UInt64 :=
  ⟨8, UInt64.ofNat, UInt64.toNat, UInt64.toNat_lt, fun _ => UInt64.ofNat_toNat,
    fun _ => UInt64.toNat_ofNat_of_lt'⟩

instance : LeInt (BitVec 128) :=
  ⟨16, BitVec.ofNat 128, BitVec.toNat, fun v => v.isLt, fun v => BitVec.ofNat_toNat 128 v,
    fun n h => (BitVec.toNat_ofNat n 128).trans (Nat.mod_eq_of_lt h)⟩

variable {α : Type} [LeInt α]

/-- `from_le_bytes`. -/
def fromLeBytes (bytes : List UInt8) : α := LeInt.ofNat (leNat bytes)

/-- `to_le_bytes`. -/
def toLeBytes (v : α) : List UInt8 := leBytes (LeInt.width α) (LeInt.toNat v)

theorem toLeBytes_length (v : α) : (toLeBytes v).length = LeInt.width α := leBytes_length _ _

theorem toLeBytes_fromLeBytes {bytes : List UInt8} (h : bytes.length = LeInt.width α) :
    toLeBytes (fromLeBytes bytes : α) = bytes := by
  have hlt := leNat_lt bytes
  rw [h] at hlt
  unfold toLeBytes fromLeBytes
  rw [LeInt.toNat_ofNat _ hlt, ← h]
  exact leBytes_leNat bytes

theorem fromLeBytes_toLeBytes (v : α) : (fromLeBytes (toLeBytes v) : α) = v := by
  unfold toLeBytes fromLeBytes
  rw [leNat_leBytes (LeInt.toNat_lt v)]
  exact LeInt.ofNat_toNat v

end LittleEndian

section Slices

/-- `bytes[start..start + n]`, which panics past the end. -/
def slice (bytes : List UInt8) (start n : Nat) : Option (List UInt8) :=
  if start + n ≤ bytes.length then some ((bytes.drop start).take n) else none

/-- The integer read at an offset. -/
def leAt (α : Type) [LeInt α] (bytes : List UInt8) (start : Nat) : Option α :=
  (slice bytes start (LeInt.width α)).map fromLeBytes

/-- `bytes[start]`. -/
def byteAt (bytes : List UInt8) (start : Nat) : Option UInt8 := bytes[start]?

theorem byteAt_parts {x : List UInt8} {start : Nat} (y : UInt8) (z : List UInt8)
    (hx : x.length = start) : byteAt (x ++ y :: z) start = some y := by
  unfold byteAt
  rw [← hx, List.getElem?_append_right (le_refl _), Nat.sub_self]
  rfl

theorem slice_parts {x y : List UInt8} {start n : Nat} (z : List UInt8) (hx : x.length = start)
    (hy : y.length = n) : slice (x ++ (y ++ z)) start n = some y := by
  unfold slice
  subst hx hy
  rw [if_pos (by simp only [List.length_append]; omega), List.drop_left, List.take_left]

theorem leAt_parts {α : Type} [LeInt α] {x y : List UInt8} {start : Nat} (z : List UInt8)
    (hx : x.length = start) (hy : y.length = LeInt.width α) :
    leAt α (x ++ (y ++ z)) start = some (fromLeBytes y) := by
  unfold leAt
  rw [slice_parts z hx hy]
  rfl

/-- A list of a sum of lengths is two lists of these. -/
theorem exists_parts {bytes : List UInt8} {m n : Nat} (h : bytes.length = m + n) :
    ∃ x y, bytes = x ++ y ∧ x.length = m ∧ y.length = n := by
  refine ⟨bytes.take m, bytes.drop m, (List.take_append_drop m bytes).symm, ?_, ?_⟩
  · rw [List.length_take]
    omega
  · rw [List.length_drop]
    omega

end Slices

end YogSothoth
