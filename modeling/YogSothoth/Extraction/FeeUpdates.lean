import YogSothoth.Extraction.FeeBlobs

namespace YogSothoth.Extraction.MeteoraDammV2

open ByteReader

/-- A dynamic fee at its default, which an update reads as none. -/
def zeroDynamicFee : DynamicFee := ⟨0, 0, 0, 0, 0, 0, 0⟩

/-- The dynamic fee an update writes. -/
def DynamicFeeUpdate.bytes : DynamicFeeUpdate → Option (List UInt8)
  | .unchanged => none
  | .disabled => some (List.replicate DYNAMIC_FEE_LEN 0)
  | .set fee => some (encodeDynamicFee fee)

/-- The bytes of an update, in the layout of three fields. -/
def encodePoolFeesUpdate (update : PoolFeesUpdate) : List UInt8 :=
  encodeOption (update.cliffFeeNumerator.map toLeBytes) ++
    (encodeOption update.dynamicFee.bytes ++
      encodeOption (update.compoundingFeeBps.map toLeBytes))

section Update

variable {raw rest : List UInt8}

theorem encodeDynamicFee_zero : encodeDynamicFee zeroDynamicFee =
    List.replicate DYNAMIC_FEE_LEN 0 := by decide

theorem encodeDynamicFee_injective {fee fee' : DynamicFee}
    (h : encodeDynamicFee fee = encodeDynamicFee fee') : fee = fee' := by
  have hread : decodeDynamicFee ⟨encodeDynamicFee fee, encodeDynamicFee_length fee⟩ =
      some (.ok fee) := decodeDynamicFee_eq_ok.mpr rfl
  rw [decodeDynamicFee_eq_ok.mpr h] at hread
  exact (Except.ok.inj (Option.some.inj hread)).symm

theorem all_zero (bytes : Bytes DYNAMIC_FEE_LEN) :
    bytes.1.all (· = 0) = true ↔ bytes.1 = List.replicate DYNAMIC_FEE_LEN 0 := by
  rw [List.eq_replicate_iff, List.all_eq_true]
  simp only [decide_eq_true_eq]
  exact ⟨fun h => ⟨bytes.2, h⟩, fun h => h.2⟩

theorem readDynamicFeeUpdate_gives {v : DynamicFeeUpdate} :
    readDynamicFeeUpdate.Gives raw v rest ↔
      raw = encodeOption v.bytes ++ rest ∧ v ≠ .set zeroDynamicFee := by
  unfold readDynamicFeeUpdate
  rw [gives_tagged]
  constructor
  · intro h
    cases h with
    | inl h =>
      rw [h.1, h.2]
      exact ⟨rfl, DynamicFeeUpdate.noConfusion⟩
    | inr h =>
      obtain ⟨mid, hraw, hvalue⟩ := h
      obtain ⟨bytes, left, htake, hvalue⟩ := gives_bind.mp hvalue
      rw [hraw, take_gives.mp htake]
      simp only [all_zero] at hvalue
      split_ifs at hvalue with hzero
      · obtain ⟨hv, hleft⟩ := gives_pure.mp hvalue
        rw [← hv, hzero, hleft]
        exact ⟨rfl, DynamicFeeUpdate.noConfusion⟩
      · obtain ⟨fee, last, hfee, hv⟩ := gives_bind.mp hvalue
        obtain ⟨hfee, hleft⟩ := gives_lift.mp hfee
        obtain ⟨hv, hlast⟩ := gives_pure.mp hv
        have hbytes := decodeDynamicFee_eq_ok.mp hfee
        rw [← hv, hbytes, hleft, hlast]
        refine ⟨rfl, ?_⟩
        intro hset
        apply hzero
        rw [hbytes, DynamicFeeUpdate.set.inj hset]
        exact encodeDynamicFee_zero
  · intro h
    obtain ⟨hraw, hset⟩ := h
    cases v with
    | unchanged => exact .inl ⟨rfl, hraw⟩
    | disabled =>
      have hzero : ((⟨List.replicate DYNAMIC_FEE_LEN 0, List.length_replicate⟩ :
          Bytes DYNAMIC_FEE_LEN).1.all (· = 0)) = true := (all_zero _).mpr rfl
      refine .inr ⟨List.replicate DYNAMIC_FEE_LEN 0 ++ rest, by rw [hraw]; rfl, gives_bind.mpr
        ⟨⟨List.replicate DYNAMIC_FEE_LEN 0, List.length_replicate⟩, rest, take_gives.mpr rfl, ?_⟩⟩
      rw [if_pos hzero]
      exact gives_pure.mpr ⟨rfl, rfl⟩
    | set fee =>
      have hnonzero : ¬ ((⟨encodeDynamicFee fee, encodeDynamicFee_length fee⟩ :
          Bytes DYNAMIC_FEE_LEN).1.all (· = 0)) = true := by
        rw [all_zero, ← encodeDynamicFee_zero]
        intro hzero
        exact hset (congrArg DynamicFeeUpdate.set (encodeDynamicFee_injective hzero))
      have hread : decodeDynamicFee ⟨encodeDynamicFee fee, encodeDynamicFee_length fee⟩ =
          some (.ok fee) := decodeDynamicFee_eq_ok.mpr rfl
      refine .inr ⟨encodeDynamicFee fee ++ rest, by rw [hraw]; rfl, gives_bind.mpr
        ⟨⟨encodeDynamicFee fee, encodeDynamicFee_length fee⟩, rest, take_gives.mpr rfl, ?_⟩⟩
      rw [if_neg hnonzero]
      exact gives_bind.mpr ⟨fee, rest, gives_lift.mpr ⟨hread, rfl⟩, gives_pure.mpr ⟨rfl, rfl⟩⟩

theorem readDynamicFeeUpdate_noPanic : readDynamicFeeUpdate.NoPanic := by
  refine tagged_noPanic (take_noPanic.bind ?_)
  intro bytes
  split_ifs
  · exact noPanic_pure _
  · exact (decodeDynamicFee_noPanic bytes).bind (fun _ => noPanic_pure _)

theorem isEmpty_noPanic : isEmpty.NoPanic := fun _ => Option.some_ne_none _

theorem readCompounding_gives {v : Option UInt16} : readCompounding.Gives raw v rest ↔
    raw = [] ∧ v = none ∧ rest = [] ∨ raw = encodeOption (v.map toLeBytes) ++ rest := by
  unfold readCompounding
  rw [gives_bind]
  constructor
  · intro h
    obtain ⟨flag, mid, hempty, hvalue⟩ := h
    obtain ⟨hflag, hmid⟩ := isEmpty_gives.mp hempty
    subst hmid
    cases flag with
    | true =>
      have hraw := List.isEmpty_iff.mp hflag.symm
      obtain ⟨hv, hrest⟩ := gives_pure.mp hvalue
      exact .inl ⟨hraw, hv.symm, hrest.symm.trans hraw⟩
    | false => exact .inr (readOptional_gives.mp hvalue)
  · intro h
    refine ⟨raw.isEmpty, raw, isEmpty_gives.mpr ⟨rfl, rfl⟩, ?_⟩
    cases h with
    | inl h =>
      rw [h.1, h.2.1, h.2.2]
      exact gives_pure.mpr ⟨rfl, rfl⟩
    | inr h =>
      have hnonempty : raw.isEmpty = false := by
        rw [h]
        cases v <;> rfl
      rw [hnonempty]
      exact readOptional_gives.mpr h

theorem readCompounding_noPanic : readCompounding.NoPanic := by
  refine isEmpty_noPanic.bind ?_
  intro flag
  cases flag
  · exact readOptional_noPanic
  · exact noPanic_pure _

theorem decodePoolFeesUpdate_eq_ok {update : PoolFeesUpdate} :
    decodeMeteoraDammV2PoolFeesUpdate raw = some (.ok update) ↔
      update.dynamicFee ≠ .set zeroDynamicFee ∧ (raw = encodePoolFeesUpdate update ∨
        update.compoundingFeeBps = none ∧ raw ++ [0] = encodePoolFeesUpdate update) := by
  unfold decodeMeteoraDammV2PoolFeesUpdate readPoolFeesUpdate encodePoolFeesUpdate
  rw [run'_eq_ok]
  constructor
  · intro h
    obtain ⟨rest, h⟩ := h
    obtain ⟨cliff, raw₁, hcliff, h⟩ := gives_bind.mp h
    obtain ⟨dynamic, raw₂, hdynamic, h⟩ := gives_bind.mp h
    obtain ⟨compounding, raw₃, hcompounding, h⟩ := gives_bind.mp h
    obtain ⟨_, raw₄, hfinish, h⟩ := gives_bind.mp h
    obtain ⟨hraw₃, -⟩ := finish_gives.mp hfinish
    obtain ⟨hupdate, -⟩ := gives_pure.mp h
    obtain ⟨hraw₁, hset⟩ := readDynamicFeeUpdate_gives.mp hdynamic
    rw [readOptional_gives.mp hcliff, hraw₁, ← hupdate]
    refine ⟨hset, ?_⟩
    cases readCompounding_gives.mp hcompounding with
    | inl hmissing =>
      rw [hmissing.1, hmissing.2.1]
      refine .inr ⟨rfl, ?_⟩
      rw [List.append_nil, List.append_assoc]
      rfl
    | inr hpresent =>
      rw [hpresent, hraw₃, List.append_nil]
      exact .inl rfl
  · intro h
    obtain ⟨hset, hraw⟩ := h
    have hlayout : ∃ last, readCompounding.Gives last update.compoundingFeeBps [] ∧
        raw = encodeOption (update.cliffFeeNumerator.map toLeBytes) ++
          (encodeOption update.dynamicFee.bytes ++ last) := by
      cases hraw with
      | inl hraw =>
        exact ⟨_, readCompounding_gives.mpr (.inr (List.append_nil _).symm), hraw⟩
      | inr hraw =>
        obtain ⟨hnone, hraw⟩ := hraw
        rw [hnone, ← List.append_assoc] at hraw
        refine ⟨[], readCompounding_gives.mpr (.inl ⟨rfl, hnone, rfl⟩), ?_⟩
        rw [List.append_nil]
        exact List.append_cancel_right hraw
    obtain ⟨last, hlast, hraw⟩ := hlayout
    exact ⟨[], gives_bind.mpr ⟨_, _, readOptional_gives.mpr hraw, gives_bind.mpr ⟨_, _,
      readDynamicFeeUpdate_gives.mpr ⟨rfl, hset⟩, gives_bind.mpr ⟨_, [], hlast, gives_bind.mpr
        ⟨(), [], finish_gives.mpr ⟨rfl, rfl⟩, gives_pure.mpr ⟨rfl, rfl⟩⟩⟩⟩⟩⟩

theorem readPoolFeesUpdate_noPanic : readPoolFeesUpdate.NoPanic :=
  readOptional_noPanic.bind (fun _ => readDynamicFeeUpdate_noPanic.bind (fun _ =>
    readCompounding_noPanic.bind (fun _ => finish_noPanic.bind (fun _ => noPanic_pure _))))

end Update

/-- A borsh `Option` of `n` bytes. -/
def IsOption (n : Nat) (bytes : List UInt8) : Prop :=
  bytes = [0] ∨ ∃ value : List UInt8, value.length = n ∧ bytes = 1 :: value

section Formats

variable {bytes : List UInt8}

theorem isOption_int (A : Type) [LeInt A] :
    IsOption (LeInt.width A) bytes ↔ ∃ v : Option A, bytes = encodeOption (v.map toLeBytes) := by
  constructor
  · intro h
    cases h with
    | inl h => exact ⟨none, h⟩
    | inr h =>
      obtain ⟨value, hvalue, hbytes⟩ := h
      refine ⟨some (fromLeBytes value), ?_⟩
      rw [hbytes, Option.map_some, toLeBytes_fromLeBytes hvalue]
      rfl
  · intro h
    obtain ⟨v, hv⟩ := h
    cases v with
    | none => exact .inl hv
    | some a => exact .inr ⟨toLeBytes a, toLeBytes_length a, hv⟩

theorem isOption_dynamicFee : IsOption DYNAMIC_FEE_LEN bytes ↔
    ∃ v : Option DynamicFee, bytes = encodeOption (v.map encodeDynamicFee) := by
  constructor
  · intro h
    cases h with
    | inl h => exact ⟨none, h⟩
    | inr h =>
      obtain ⟨value, hvalue, hbytes⟩ := h
      obtain ⟨fee, -, hfee⟩ := decodeDynamicFee_total ⟨value, hvalue⟩
      have hvalue' : value = encodeDynamicFee fee := hfee
      refine ⟨some fee, ?_⟩
      rw [hbytes, Option.map_some, hvalue']
      rfl
  · intro h
    obtain ⟨v, hv⟩ := h
    cases v with
    | none => exact .inl hv
    | some fee => exact .inr ⟨encodeDynamicFee fee, encodeDynamicFee_length fee, hv⟩

theorem isOption_dynamicFeeUpdate : IsOption DYNAMIC_FEE_LEN bytes ↔
    ∃ v : DynamicFeeUpdate, v ≠ .set zeroDynamicFee ∧ bytes = encodeOption v.bytes := by
  rw [isOption_dynamicFee]
  constructor
  · intro h
    obtain ⟨v, hv⟩ := h
    cases v with
    | none => exact ⟨.unchanged, DynamicFeeUpdate.noConfusion, hv⟩
    | some fee =>
      by_cases hzero : fee = zeroDynamicFee
      · refine ⟨.disabled, DynamicFeeUpdate.noConfusion, ?_⟩
        rw [hv, hzero, Option.map_some, encodeDynamicFee_zero]
        rfl
      · exact ⟨.set fee, fun h => hzero (DynamicFeeUpdate.set.inj h), hv⟩
  · intro h
    obtain ⟨v, -, hv⟩ := h
    cases v with
    | unchanged => exact ⟨none, hv⟩
    | disabled =>
      refine ⟨some zeroDynamicFee, ?_⟩
      rw [Option.map_some, encodeDynamicFee_zero]
      exact hv
    | set fee => exact ⟨some fee, hv⟩

/-- The creations accepted. -/
theorem decodePoolFees_accepts {raw : List UInt8} :
    (∃ fees, decodeMeteoraDammV2PoolFees raw = some (.ok fees)) ↔
      ∃ base two dynamic : List UInt8, base.length = 27 ∧
        (∃ mode ≤ 4, base.getLast? = some mode) ∧ two.length = 2 ∧ IsOption 32 dynamic ∧
        raw = base ++ (two ++ 0 :: dynamic) := by
  simp only [decodePoolFees_eq_ok]
  constructor
  · intro h
    obtain ⟨fees, hraw⟩ := h
    refine ⟨encodeBaseFee fees.baseFee, toLeBytes fees.compoundingFeeBps, _,
      encodeBaseFee_length _, ?_, toLeBytes_length _, isOption_dynamicFee.mpr ⟨_, rfl⟩, hraw⟩
    have hknown := decodeBaseFee_known ⟨encodeBaseFee fees.baseFee, encodeBaseFee_length _⟩
    exact hknown.mp ⟨fees.baseFee, decodeBaseFee_eq_ok.mpr rfl⟩
  · intro h
    obtain ⟨base, two, dynamic, hbase, hmode, htwo, hdynamic, hraw⟩ := h
    have hknown := decodeBaseFee_known ⟨base, hbase⟩
    obtain ⟨fee, hfee⟩ := hknown.mpr hmode
    have hbase' : base = encodeBaseFee fee := decodeBaseFee_eq_ok.mp hfee
    obtain ⟨v, hv⟩ := isOption_dynamicFee.mp hdynamic
    have htwo' : toLeBytes (fromLeBytes two : UInt16) = two := toLeBytes_fromLeBytes htwo
    refine ⟨⟨fee, fromLeBytes two, v⟩, ?_⟩
    rw [hraw, encodePoolFees, htwo', ← hbase', ← hv]

/-- The updates accepted. -/
theorem decodePoolFeesUpdate_accepts {raw : List UInt8} :
    (∃ update, decodeMeteoraDammV2PoolFeesUpdate raw = some (.ok update)) ↔
      ∃ cliff dynamic compounding : List UInt8, IsOption 8 cliff ∧ IsOption 32 dynamic ∧
        (compounding = [] ∨ IsOption 2 compounding) ∧ raw = cliff ++ (dynamic ++ compounding) := by
  simp only [decodePoolFeesUpdate_eq_ok]
  constructor
  · intro h
    obtain ⟨update, hset, hraw⟩ := h
    have hcliff : IsOption 8 (encodeOption (update.cliffFeeNumerator.map toLeBytes)) :=
      (isOption_int UInt64).mpr ⟨_, rfl⟩
    have hdynamic : IsOption 32 (encodeOption update.dynamicFee.bytes) :=
      isOption_dynamicFeeUpdate.mpr ⟨_, hset, rfl⟩
    cases hraw with
    | inl hraw => exact ⟨_, _, _, hcliff, hdynamic, .inr ((isOption_int UInt16).mpr ⟨_, rfl⟩), hraw⟩
    | inr hraw =>
      obtain ⟨hnone, hraw⟩ := hraw
      refine ⟨_, _, [], hcliff, hdynamic, .inl rfl, ?_⟩
      rw [encodePoolFeesUpdate, hnone, ← List.append_assoc] at hraw
      rw [List.append_nil]
      exact List.append_cancel_right hraw
  · intro h
    obtain ⟨cliff, dynamic, compounding, hcliff, hdynamic, hcompounding, hraw⟩ := h
    obtain ⟨a, ha⟩ := (isOption_int UInt64).mp hcliff
    obtain ⟨b, hset, hb⟩ := isOption_dynamicFeeUpdate.mp hdynamic
    cases hcompounding with
    | inl hnil =>
      refine ⟨⟨a, b, none⟩, hset, .inr ⟨rfl, ?_⟩⟩
      rw [hraw, hnil, ha, hb, List.append_nil, List.append_assoc]
      rfl
    | inr hoption =>
      obtain ⟨c, hc⟩ := (isOption_int UInt16).mp hoption
      refine ⟨⟨a, b, c⟩, hset, .inl ?_⟩
      rw [hraw, ha, hb, hc]
      rfl

end Formats

/-- The two decoders accept their formats alone, lose nothing, and never panic. -/
theorem fee_parameters_exact :
    (∀ raw : List UInt8, decodeMeteoraDammV2PoolFees raw ≠ none ∧
      decodeMeteoraDammV2PoolFeesUpdate raw ≠ none) ∧
    (∀ raw : List UInt8, (∃ fees, decodeMeteoraDammV2PoolFees raw = some (.ok fees)) ↔
      ∃ base two dynamic : List UInt8, base.length = 27 ∧
        (∃ mode ≤ 4, base.getLast? = some mode) ∧ two.length = 2 ∧ IsOption 32 dynamic ∧
        raw = base ++ (two ++ 0 :: dynamic)) ∧
    (∀ raw : List UInt8, (∃ update, decodeMeteoraDammV2PoolFeesUpdate raw = some (.ok update)) ↔
      ∃ cliff dynamic compounding : List UInt8, IsOption 8 cliff ∧ IsOption 32 dynamic ∧
        (compounding = [] ∨ IsOption 2 compounding) ∧
        raw = cliff ++ (dynamic ++ compounding)) ∧
    (∀ (raw : List UInt8) (fees : PoolFees),
      decodeMeteoraDammV2PoolFees raw = some (.ok fees) ↔ raw = encodePoolFees fees) ∧
    (∀ (raw raw' : List UInt8) (fees : PoolFees),
      decodeMeteoraDammV2PoolFees raw = some (.ok fees) →
      decodeMeteoraDammV2PoolFees raw' = some (.ok fees) → raw = raw') ∧
    (∀ (raw : List UInt8) (update : PoolFeesUpdate),
      decodeMeteoraDammV2PoolFeesUpdate raw = some (.ok update) →
      raw = encodePoolFeesUpdate update ∨
        update.compoundingFeeBps = none ∧ raw ++ [0] = encodePoolFeesUpdate update) ∧
    (∀ update : PoolFeesUpdate, decodeMeteoraDammV2PoolFeesUpdate (encodePoolFeesUpdate update) =
      some (.ok (if update.dynamicFee = .set zeroDynamicFee
        then { update with dynamicFee := .disabled } else update))) := by
  refine ⟨?_, fun raw => decodePoolFees_accepts, fun raw => decodePoolFeesUpdate_accepts,
    fun raw fees => decodePoolFees_eq_ok, ?_, ?_, ?_⟩
  · intro raw
    exact ⟨run'_ne_none readPoolFees_noPanic, run'_ne_none readPoolFeesUpdate_noPanic⟩
  · intro raw raw' fees h h'
    rw [decodePoolFees_eq_ok.mp h, decodePoolFees_eq_ok.mp h']
  · intro raw update h
    exact (decodePoolFeesUpdate_eq_ok.mp h).2
  · intro update
    split_ifs with hzero
    · refine decodePoolFeesUpdate_eq_ok.mpr ⟨DynamicFeeUpdate.noConfusion, .inl ?_⟩
      unfold encodePoolFeesUpdate
      rw [hzero]
      simp only [DynamicFeeUpdate.bytes, encodeDynamicFee_zero]
    · exact decodePoolFeesUpdate_eq_ok.mpr ⟨hzero, .inl rfl⟩

end YogSothoth.Extraction.MeteoraDammV2
