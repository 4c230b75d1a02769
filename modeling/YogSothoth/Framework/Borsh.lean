import Mathlib.Algebra.Group.Nat.Units

namespace YogSothoth.Borsh

/-- A reader over the bytes left; a failure is the library's message. -/
abbrev Reader := StateT (List UInt8) (Except String)

/-- `read_exact`. -/
def takeBytes (n : Nat) : Reader { bytes : List UInt8 // bytes.length = n } := fun input =>
  if h : n ≤ input.length then
    .ok (⟨input.take n, List.length_take_of_le h⟩, input.drop n)
  else .error "Unexpected length of input"

def leNat : List UInt8 → Nat
  | [] => 0
  | b :: bytes => b.toNat + 256 * leNat bytes

def leBytes : Nat → Nat → List UInt8
  | 0, _ => []
  | width + 1, n => UInt8.ofNat n :: leBytes width (n / 256)

class BorshDeserialize (α : Type) where
  deserializeReader : Reader α

export BorshDeserialize (deserializeReader)

/-- The next field of a record, which borsh reads in the order of its declaration. -/
def field {α : Type} [BorshDeserialize α] : Reader α := deserializeReader

class BorshSerialize (α : Type) where
  serialize : α → List UInt8

export BorshSerialize (serialize)

def readInt {α : Type} (width : Nat) (ofNat : Nat → α) : Reader α :=
  (fun bytes => ofNat (leNat bytes.1)) <$> takeBytes width

instance : BorshDeserialize UInt8 := ⟨readInt 1 UInt8.ofNat⟩
instance : BorshDeserialize UInt16 := ⟨readInt 2 UInt16.ofNat⟩
instance : BorshDeserialize UInt32 := ⟨readInt 4 UInt32.ofNat⟩
instance : BorshDeserialize UInt64 := ⟨readInt 8 UInt64.ofNat⟩
instance : BorshDeserialize (BitVec 128) := ⟨readInt 16 (BitVec.ofNat 128)⟩

instance : BorshSerialize UInt8 := ⟨fun v => leBytes 1 v.toNat⟩
instance : BorshSerialize UInt16 := ⟨fun v => leBytes 2 v.toNat⟩
instance : BorshSerialize UInt32 := ⟨fun v => leBytes 4 v.toNat⟩
instance : BorshSerialize (BitVec 128) := ⟨fun v => leBytes 16 v.toNat⟩

instance : BorshDeserialize Bool where
  deserializeReader := do
    let b : UInt8 ← deserializeReader
    if b = 0 then return false
    else if b = 1 then return true
    else throw ("Invalid bool representation: " ++ toString b)

instance {α : Type} [BorshDeserialize α] : BorshDeserialize (Option α) where
  deserializeReader := do
    let flag : UInt8 ← deserializeReader
    if flag = 0 then return none
    else if flag = 1 then return some (← deserializeReader)
    else throw ("Invalid Option representation: " ++ toString flag ++
      ". The first byte must be 0 or 1")

instance {α : Type} [BorshSerialize α] : BorshSerialize (Option α) where
  serialize
    | none => [0]
    | some v => 1 :: serialize v

/-- `[u8; n]`. -/
instance (n : Nat) : BorshDeserialize { bytes : List UInt8 // bytes.length = n } := ⟨takeBytes n⟩
instance (n : Nat) : BorshSerialize { bytes : List UInt8 // bytes.length = n } := ⟨Subtype.val⟩

/-- `read_to_end`. -/
def readToEnd : Reader (List UInt8) := fun input => .ok (input, [])

/-- `try_from_slice`: every byte has to be read. -/
def tryFromSlice (α : Type) [BorshDeserialize α] (bytes : List UInt8) : Except String α := do
  let (value, rest) ← (deserializeReader : Reader α) bytes
  if rest.isEmpty then return value else throw "Not all bytes read"

example : tryFromSlice (Option UInt16) [1, 0x34, 0x12] = .ok (some 0x1234) := rfl

end YogSothoth.Borsh
