import YogSothoth.Extraction.FeeFormats

namespace YogSothoth.Extraction.MeteoraDammV2

open ByteReader

section Readers

variable {field : String} {input rest : List UInt8} {n : Nat}

theorem take_gives {bytes : Bytes n} :
    (take n field).Gives input bytes rest ↔ input = bytes.1 ++ rest := by
  unfold Gives take
  split_ifs with h
  · change some (Except.ok (_, _)) = some (Except.ok (bytes, rest)) ↔ _
    rw [Option.some.injEq, Except.ok.injEq, Prod.mk.injEq]
    constructor
    · intro hsplit
      rw [← hsplit.1, ← hsplit.2]
      exact (List.take_append_drop n input).symm
    · intro hinput
      subst hinput
      refine ⟨Subtype.ext ?_, ?_⟩
      · exact List.take_left' bytes.2
      · exact List.drop_left' bytes.2
  · refine iff_of_false ?_ ?_
    · intro hthrow
      cases Option.some.inj hthrow
    · intro hinput
      apply h
      rw [hinput, List.length_append, bytes.2]
      exact Nat.le_add_right n _

theorem take_noPanic : (take n field).NoPanic := by
  intro input
  unfold take
  split_ifs <;> exact Option.some_ne_none _

theorem onlyByte_eq (bytes : Bytes 1) : bytes.1 = [onlyByte bytes] := by
  obtain ⟨b, hb⟩ := List.length_eq_one_iff.mp bytes.2
  unfold onlyByte
  rw [hb]
  rfl

def tagByte (flag : Bool) : UInt8 := if flag then 1 else 0

theorem optionTag_gives {flag : Bool} :
    (optionTag field).Gives input flag rest ↔ input = tagByte flag :: rest := by
  unfold optionTag
  rw [gives_bind]
  constructor
  · intro h
    obtain ⟨bytes, mid, htake, htag⟩ := h
    rw [take_gives.mp htake, onlyByte_eq bytes]
    simp only at htag
    split_ifs at htag with hzero hone
    · obtain ⟨hflag, hrest⟩ := gives_pure.mp htag
      rw [hzero, ← hflag, hrest]
      rfl
    · obtain ⟨hflag, hrest⟩ := gives_pure.mp htag
      rw [hone, ← hflag, hrest]
      rfl
    · exact absurd htag not_gives_throw
  · intro h
    refine ⟨⟨[tagByte flag], rfl⟩, rest, take_gives.mpr h, ?_⟩
    cases flag
    · exact gives_pure.mpr ⟨rfl, rfl⟩
    · exact gives_pure.mpr ⟨rfl, rfl⟩

theorem optionTag_noPanic : (optionTag field).NoPanic := by
  refine take_noPanic.bind ?_
  intro bytes
  simp only
  split_ifs
  · exact noPanic_pure _
  · exact noPanic_pure _
  · exact noPanic_throw _

theorem isEmpty_gives {flag : Bool} :
    isEmpty.Gives input flag rest ↔ flag = input.isEmpty ∧ rest = input := by
  unfold Gives isEmpty
  change some (Except.ok (_, _)) = some (Except.ok (flag, rest)) ↔ _
  rw [Option.some.injEq, Except.ok.injEq, Prod.mk.injEq]
  exact and_congr eq_comm eq_comm

theorem finish_gives {u : Unit} : finish.Gives input u rest ↔ input = [] ∧ rest = [] := by
  unfold Gives finish
  split_ifs with h
  · have hnil := List.length_eq_zero_iff.mp h
    change some (Except.ok ((), input)) = some (Except.ok ((), rest)) ↔ _
    rw [Option.some.injEq, Except.ok.injEq, Prod.mk.injEq, hnil]
    exact ⟨fun hrest => ⟨rfl, hrest.2.symm⟩, fun hrest => ⟨rfl, hrest.2.symm⟩⟩
  · refine iff_of_false ?_ ?_
    · intro hthrow
      cases Option.some.inj hthrow
    · intro hnil
      exact h (List.length_eq_zero_iff.mpr hnil.1)

theorem finish_noPanic : finish.NoPanic := by
  intro input
  unfold finish
  split_ifs <;> exact Option.some_ne_none _

theorem readPadding_gives {u : Unit} : readPadding.Gives input u rest ↔ input = 0 :: rest := by
  unfold readPadding
  rw [gives_bind]
  constructor
  · intro h
    obtain ⟨bytes, mid, htake, hpadding⟩ := h
    rw [take_gives.mp htake, onlyByte_eq bytes]
    simp only at hpadding
    split_ifs at hpadding with hzero
    · exact absurd hpadding not_gives_throw
    · obtain ⟨-, hrest⟩ := gives_pure.mp hpadding
      rw [not_not.mp hzero, hrest]
      rfl
  · intro h
    exact ⟨⟨[0], rfl⟩, rest, take_gives.mpr h, gives_pure.mpr ⟨rfl, rfl⟩⟩

theorem readPadding_noPanic : readPadding.NoPanic := by
  refine take_noPanic.bind ?_
  intro bytes
  simp only
  split_ifs
  · exact noPanic_throw _
  · exact noPanic_pure _

end Readers

/-- A borsh `Option`. -/
def encodeOption : Option (List UInt8) → List UInt8
  | none => [0]
  | some bytes => 1 :: bytes

section Options

variable {A : Type} {field : String} {input rest : List UInt8} {d v : A} {body : FeeReader A}

/-- An optional field is a tag of 0, or a tag of 1 and what follows it. -/
theorem gives_tagged :
    (optionTag field >>= fun flag => if flag = true then body else pure d).Gives input v rest ↔
      v = d ∧ input = 0 :: rest ∨ ∃ mid, input = 1 :: mid ∧ body.Gives mid v rest := by
  rw [gives_bind]
  constructor
  · intro h
    obtain ⟨flag, mid, htag, hvalue⟩ := h
    rw [optionTag_gives.mp htag]
    cases flag with
    | false =>
      obtain ⟨hv, hrest⟩ := gives_pure.mp hvalue
      exact .inl ⟨hv.symm, by rw [hrest]; rfl⟩
    | true => exact .inr ⟨mid, rfl, hvalue⟩
  · intro h
    cases h with
    | inl h => exact ⟨false, rest, optionTag_gives.mpr h.2, gives_pure.mpr ⟨h.1.symm, rfl⟩⟩
    | inr h =>
      obtain ⟨mid, hinput, hvalue⟩ := h
      exact ⟨true, mid, optionTag_gives.mpr hinput, hvalue⟩

theorem tagged_noPanic (hbody : body.NoPanic) :
    (optionTag field >>= fun flag => if flag = true then body else pure d).NoPanic := by
  refine optionTag_noPanic.bind ?_
  intro flag
  cases flag
  · exact noPanic_pure d
  · exact hbody

theorem readOptional_gives {A : Type} [LeInt A] {v : Option A} :
    (readOptional A field).Gives input v rest ↔
      input = encodeOption (v.map toLeBytes) ++ rest := by
  unfold readOptional
  rw [gives_tagged]
  constructor
  · intro h
    cases h with
    | inl h =>
      rw [h.1, h.2]
      rfl
    | inr h =>
      obtain ⟨mid, hinput, hvalue⟩ := h
      obtain ⟨bytes, left, htake, hv⟩ := gives_bind.mp hvalue
      obtain ⟨hv, hleft⟩ := gives_pure.mp hv
      rw [hinput, take_gives.mp htake, ← hv, hleft, Option.map_some,
        toLeBytes_fromLeBytes bytes.2]
      rfl
  · intro h
    cases v with
    | none => exact .inl ⟨rfl, h⟩
    | some a =>
      refine .inr ⟨toLeBytes a ++ rest, h, gives_bind.mpr ⟨⟨toLeBytes a, toLeBytes_length a⟩, rest,
        take_gives.mpr rfl, gives_pure.mpr ⟨?_, rfl⟩⟩⟩
      rw [fromLeBytes_toLeBytes]

theorem readOptional_noPanic {A : Type} [LeInt A] : (readOptional A field).NoPanic :=
  tagged_noPanic (take_noPanic.bind (fun _ => noPanic_pure _))

end Options

section Creation

variable {raw rest : List UInt8}

theorem encodeDynamicFee_length (fee : DynamicFee) :
    (encodeDynamicFee fee).length = DYNAMIC_FEE_LEN := by
  unfold encodeDynamicFee
  simp only [List.length_append, toLeBytes_length]
  rfl

theorem encodeBaseFee_length (fee : BaseFee) : (encodeBaseFee fee).length = BASE_FEE_LEN := by
  cases fee <;> simp only [encodeBaseFee, List.length_append, toLeBytes_length] <;> rfl

theorem readDynamicFee_gives {v : Option DynamicFee} : readDynamicFee.Gives raw v rest ↔
    raw = encodeOption (v.map encodeDynamicFee) ++ rest := by
  unfold readDynamicFee
  rw [gives_tagged]
  constructor
  · intro h
    cases h with
    | inl h =>
      rw [h.1, h.2]
      rfl
    | inr h =>
      obtain ⟨mid, hraw, hvalue⟩ := h
      obtain ⟨bytes, left, htake, hvalue⟩ := gives_bind.mp hvalue
      obtain ⟨fee, last, hfee, hv⟩ := gives_bind.mp hvalue
      obtain ⟨hfee, hleft⟩ := gives_lift.mp hfee
      obtain ⟨hv, hlast⟩ := gives_pure.mp hv
      rw [hraw, take_gives.mp htake, decodeDynamicFee_eq_ok.mp hfee, ← hv, hleft, hlast]
      rfl
  · intro h
    cases v with
    | none => exact .inl ⟨rfl, h⟩
    | some fee =>
      refine .inr ⟨encodeDynamicFee fee ++ rest, h, gives_bind.mpr
        ⟨⟨encodeDynamicFee fee, encodeDynamicFee_length fee⟩, rest, take_gives.mpr rfl,
          gives_bind.mpr ⟨fee, rest, gives_lift.mpr ⟨?_, rfl⟩, gives_pure.mpr ⟨rfl, rfl⟩⟩⟩⟩
      exact decodeDynamicFee_eq_ok.mpr rfl

theorem decodeDynamicFee_noPanic (bytes : Bytes DYNAMIC_FEE_LEN) :
    (liftM (decodeDynamicFee bytes) : FeeReader DynamicFee).NoPanic := by
  obtain ⟨fee, hfee, -⟩ := decodeDynamicFee_total bytes
  refine noPanic_lift ?_
  rw [hfee]
  exact Option.some_ne_none _

theorem readDynamicFee_noPanic : readDynamicFee.NoPanic :=
  tagged_noPanic (take_noPanic.bind (fun bytes =>
    (decodeDynamicFee_noPanic bytes).bind (fun _ => noPanic_pure _)))

/-- The bytes of a creation's fees. -/
def encodePoolFees (fees : PoolFees) : List UInt8 :=
  encodeBaseFee fees.baseFee ++ (toLeBytes fees.compoundingFeeBps ++
    (0 :: encodeOption (fees.dynamicFee.map encodeDynamicFee)))

theorem readPoolFees_gives {fees : PoolFees} :
    readPoolFees.Gives raw fees rest ↔ raw = encodePoolFees fees ∧ rest = [] := by
  unfold readPoolFees
  constructor
  · intro h
    obtain ⟨base, raw₁, hbase, h⟩ := gives_bind.mp h
    obtain ⟨baseFee, raw₂, hfee, h⟩ := gives_bind.mp h
    obtain ⟨compounding, raw₃, hcompounding, h⟩ := gives_bind.mp h
    obtain ⟨_, raw₄, hpadding, h⟩ := gives_bind.mp h
    obtain ⟨dynamic, raw₅, hdynamic, h⟩ := gives_bind.mp h
    obtain ⟨_, raw₆, hfinish, h⟩ := gives_bind.mp h
    obtain ⟨hfee, hraw₂⟩ := gives_lift.mp hfee
    obtain ⟨hraw₅, hraw₆⟩ := finish_gives.mp hfinish
    obtain ⟨hfees, hrest⟩ := gives_pure.mp h
    refine ⟨?_, hrest.symm.trans hraw₆⟩
    rw [take_gives.mp hbase, decodeBaseFee_eq_ok.mp hfee, hraw₂, take_gives.mp hcompounding,
      readPadding_gives.mp hpadding, readDynamicFee_gives.mp hdynamic, hraw₅, ← hfees,
      encodePoolFees, List.append_nil, toLeBytes_fromLeBytes compounding.2]
  · intro h
    obtain ⟨hraw, hrest⟩ := h
    subst hraw hrest
    refine gives_bind.mpr ⟨⟨encodeBaseFee fees.baseFee, encodeBaseFee_length _⟩, _,
      take_gives.mpr rfl, gives_bind.mpr ⟨fees.baseFee, _,
        gives_lift.mpr ⟨decodeBaseFee_eq_ok.mpr rfl, rfl⟩, gives_bind.mpr
          ⟨⟨toLeBytes fees.compoundingFeeBps, toLeBytes_length _⟩, _, take_gives.mpr rfl, ?_⟩⟩⟩
    refine gives_bind.mpr ⟨(), _, readPadding_gives.mpr rfl, gives_bind.mpr ⟨fees.dynamicFee, [],
      readDynamicFee_gives.mpr (List.append_nil _).symm, gives_bind.mpr ⟨(), [],
        finish_gives.mpr ⟨rfl, rfl⟩, gives_pure.mpr ⟨?_, rfl⟩⟩⟩⟩
    rw [fromLeBytes_toLeBytes]

theorem decodePoolFees_eq_ok {fees : PoolFees} :
    decodeMeteoraDammV2PoolFees raw = some (.ok fees) ↔ raw = encodePoolFees fees := by
  unfold decodeMeteoraDammV2PoolFees
  rw [run'_eq_ok]
  constructor
  · intro h
    obtain ⟨rest, h⟩ := h
    exact (readPoolFees_gives.mp h).1
  · intro h
    exact ⟨[], readPoolFees_gives.mpr ⟨h, rfl⟩⟩

theorem readPoolFees_noPanic : readPoolFees.NoPanic :=
  take_noPanic.bind (fun _ => (noPanic_lift decodeBaseFee_ne_none).bind (fun _ =>
    take_noPanic.bind (fun _ => readPadding_noPanic.bind (fun _ =>
      readDynamicFee_noPanic.bind (fun _ => finish_noPanic.bind (fun _ => noPanic_pure _))))))

end Creation

end YogSothoth.Extraction.MeteoraDammV2
