import YogSothoth.Extraction.FeeParameters

namespace YogSothoth.Extraction.MeteoraDammV2

open ByteReader (lift_some)

/-! What each fee blob is made of, and its bytes written back. -/

/-- The byte that names a scheduler's layout, from that of its linear decay. -/
def FeeDecay.mode (linear : UInt8) : FeeDecay → UInt8
  | .linear => linear
  | .exponential => linear + 1

def encodeBaseFee : BaseFee → List UInt8
  | .timeScheduler decay cliff number frequency reduction =>
    toLeBytes cliff ++ (toLeBytes number ++ (toLeBytes frequency ++ (toLeBytes reduction ++
      [decay.mode 0])))
  | .rateLimiter cliff increment duration fee reference =>
    toLeBytes cliff ++ (toLeBytes increment ++ (toLeBytes duration ++ (toLeBytes fee ++
      (toLeBytes reference ++ [2]))))
  | .marketCapScheduler decay cliff number step expiration reduction =>
    toLeBytes cliff ++ (toLeBytes number ++ (toLeBytes step ++ (toLeBytes expiration ++
      (toLeBytes reduction ++ [decay.mode 3]))))

def encodeDynamicFee (fee : DynamicFee) : List UInt8 :=
  toLeBytes fee.binStep ++ (toLeBytes fee.binStepU128 ++ (toLeBytes fee.filterPeriod ++
    (toLeBytes fee.decayPeriod ++ (toLeBytes fee.reductionFactor ++
      (toLeBytes fee.maxVolatilityAccumulator ++ toLeBytes fee.variableFeeControl)))))

section BaseFee

variable {bytes : Bytes BASE_FEE_LEN} {x₀ x₈ x₁₀ x₁₄ x₁₈ : List UInt8} {mode : UInt8}

theorem decayFrom_mode (decay : FeeDecay) :
    decayFrom 0 (decay.mode 0) = decay ∧ decayFrom 3 (decay.mode 3) = decay := by
  cases decay <;> decide

theorem mode_decayFrom {linear : UInt8} (h : mode = linear ∨ mode = linear + 1) :
    (decayFrom linear mode).mode linear = mode := by
  unfold decayFrom
  split_ifs with hlinear
  · exact hlinear.symm
  · exact (h.resolve_left hlinear).symm

/-- The bytes of a scheduler by time, field after field. -/
theorem decodeBaseFee_time (h₀ : x₀.length = 8) (h₈ : x₈.length = 2) (h₁₀ : x₁₀.length = 8)
    (h₁₈ : x₁₈.length = 8) (hbytes : bytes.1 = x₀ ++ (x₈ ++ (x₁₀ ++ (x₁₈ ++ [mode]))))
    (hmode : mode = 0 ∨ mode = 1) : decodeBaseFee bytes = some (.ok (.timeScheduler
      (decayFrom 0 mode) (fromLeBytes x₀) (fromLeBytes x₈) (fromLeBytes x₁₀)
      (fromLeBytes x₁₈))) := by
  have hcliff : leAt UInt64 bytes.1 0 = some (fromLeBytes x₀) := by
    rw [hbytes]
    exact leAt_parts _ (x := []) rfl h₀
  have hnumber : leAt UInt16 bytes.1 8 = some (fromLeBytes x₈) := by
    rw [hbytes]
    exact leAt_parts _ h₀ h₈
  have hfrequency : leAt UInt64 bytes.1 10 = some (fromLeBytes x₁₀) := by
    rw [hbytes, ← List.append_assoc]
    exact leAt_parts _ (by rw [List.length_append, h₀, h₈]) h₁₀
  have hreduction : leAt UInt64 bytes.1 18 = some (fromLeBytes x₁₈) := by
    rw [hbytes, ← List.append_assoc, ← List.append_assoc]
    exact leAt_parts _ (by simp only [List.length_append, h₀, h₈, h₁₀]) h₁₈
  have hlast : byteAt bytes.1 BASE_FEE_MODE_OFFSET = some mode := by
    rw [hbytes, ← List.append_assoc, ← List.append_assoc, ← List.append_assoc]
    exact byteAt_parts _ _ (by simp only [List.length_append, h₀, h₈, h₁₀, h₁₈]; rfl)
  unfold decodeBaseFee
  rw [hcliff, lift_some, hlast, lift_some, if_pos hmode, hnumber, lift_some, hfrequency, lift_some,
    hreduction, lift_some]
  rfl

/-- The bytes of the two other layouts, field after field. -/
theorem decodeBaseFee_rest (h₀ : x₀.length = 8) (h₈ : x₈.length = 2) (h₁₀ : x₁₀.length = 4)
    (h₁₄ : x₁₄.length = 4) (h₁₈ : x₁₈.length = 8)
    (hbytes : bytes.1 = x₀ ++ (x₈ ++ (x₁₀ ++ (x₁₄ ++ (x₁₈ ++ [mode])))))
    (hmode : ¬ (mode = 0 ∨ mode = 1)) : decodeBaseFee bytes =
      if mode = 2 then some (.ok (.rateLimiter (fromLeBytes x₀) (fromLeBytes x₈) (fromLeBytes x₁₀)
        (fromLeBytes x₁₄) (fromLeBytes x₁₈)))
      else if mode = 3 ∨ mode = 4 then some (.ok (.marketCapScheduler (decayFrom 3 mode)
        (fromLeBytes x₀) (fromLeBytes x₈) (fromLeBytes x₁₀) (fromLeBytes x₁₄) (fromLeBytes x₁₈)))
      else some (.error (.unknownBaseFeeMode mode)) := by
  have hcliff : leAt UInt64 bytes.1 0 = some (fromLeBytes x₀) := by
    rw [hbytes]
    exact leAt_parts _ (x := []) rfl h₀
  have hsecond : leAt UInt16 bytes.1 8 = some (fromLeBytes x₈) := by
    rw [hbytes]
    exact leAt_parts _ h₀ h₈
  have hthird : leAt UInt32 bytes.1 10 = some (fromLeBytes x₁₀) := by
    rw [hbytes, ← List.append_assoc]
    exact leAt_parts _ (by rw [List.length_append, h₀, h₈]) h₁₀
  have hfourth : leAt UInt32 bytes.1 14 = some (fromLeBytes x₁₄) := by
    rw [hbytes, ← List.append_assoc, ← List.append_assoc]
    exact leAt_parts _ (by simp only [List.length_append, h₀, h₈, h₁₀]) h₁₄
  have hfifth : leAt UInt64 bytes.1 18 = some (fromLeBytes x₁₈) := by
    rw [hbytes, ← List.append_assoc, ← List.append_assoc, ← List.append_assoc]
    exact leAt_parts _ (by simp only [List.length_append, h₀, h₈, h₁₀, h₁₄]) h₁₈
  have hlast : byteAt bytes.1 BASE_FEE_MODE_OFFSET = some mode := by
    rw [hbytes, ← List.append_assoc, ← List.append_assoc, ← List.append_assoc, ← List.append_assoc]
    exact byteAt_parts _ _ (by simp only [List.length_append, h₀, h₈, h₁₀, h₁₄, h₁₈]; rfl)
  unfold decodeBaseFee
  rw [hcliff, lift_some, hlast, lift_some, if_neg hmode, hsecond, lift_some, hthird, lift_some,
    hfourth, lift_some, hfifth, lift_some]
  rfl

/-- The time layouts read the two middle words as one. -/
theorem decodeBaseFee_joined (h₀ : x₀.length = 8) (h₈ : x₈.length = 2) (h₁₀ : x₁₀.length = 4)
    (h₁₄ : x₁₄.length = 4) (h₁₈ : x₁₈.length = 8)
    (hbytes : bytes.1 = x₀ ++ (x₈ ++ (x₁₀ ++ (x₁₄ ++ (x₁₈ ++ [mode])))))
    (hmode : mode = 0 ∨ mode = 1) : decodeBaseFee bytes = some (.ok (.timeScheduler
      (decayFrom 0 mode) (fromLeBytes x₀) (fromLeBytes x₈) (fromLeBytes (x₁₀ ++ x₁₄))
      (fromLeBytes x₁₈))) := by
  have hwide : (x₁₀ ++ x₁₄).length = 8 := by rw [List.length_append, h₁₀, h₁₄]
  rw [← List.append_assoc x₁₀] at hbytes
  exact decodeBaseFee_time h₀ h₈ hwide h₁₈ hbytes hmode

theorem exists_base (bytes : Bytes BASE_FEE_LEN) : ∃ x₀ x₈ x₁₀ x₁₄ x₁₈ : List UInt8, ∃ mode,
    x₀.length = 8 ∧ x₈.length = 2 ∧ x₁₀.length = 4 ∧ x₁₄.length = 4 ∧ x₁₈.length = 8 ∧
      bytes.1 = x₀ ++ (x₈ ++ (x₁₀ ++ (x₁₄ ++ (x₁₈ ++ [mode])))) := by
  obtain ⟨x₀, y, h₀, hx₀, hy⟩ := exists_parts (m := 8) (n := 19) bytes.2
  obtain ⟨x₈, y, h₈, hx₈, hy⟩ := exists_parts (m := 2) (n := 17) hy
  obtain ⟨x₁₀, y, h₁₀, hx₁₀, hy⟩ := exists_parts (m := 4) (n := 13) hy
  obtain ⟨x₁₄, y, h₁₄, hx₁₄, hy⟩ := exists_parts (m := 4) (n := 9) hy
  obtain ⟨x₁₈, y, h₁₈, hx₁₈, hy⟩ := exists_parts (m := 8) (n := 1) hy
  obtain ⟨mode, hmode⟩ := List.length_eq_one_iff.mp hy
  refine ⟨x₀, x₈, x₁₀, x₁₄, x₁₈, mode, hx₀, hx₈, hx₁₀, hx₁₄, hx₁₈, ?_⟩
  rw [h₀, h₈, h₁₀, h₁₄, h₁₈, hmode]

/-- A base fee decoded is its bytes, whatever its layout. -/
theorem decodeBaseFee_eq_ok {fee : BaseFee} :
    decodeBaseFee bytes = some (.ok fee) ↔ bytes.1 = encodeBaseFee fee := by
  constructor
  · intro h
    obtain ⟨x₀, x₈, x₁₀, x₁₄, x₁₈, mode, h₀, h₈, h₁₀, h₁₄, h₁₈, hbytes⟩ := exists_base bytes
    by_cases htime : mode = 0 ∨ mode = 1
    · have hwide : (x₁₀ ++ x₁₄).length = 8 := by rw [List.length_append, h₁₀, h₁₄]
      rw [decodeBaseFee_joined h₀ h₈ h₁₀ h₁₄ h₁₈ hbytes htime] at h
      rw [← Except.ok.inj (Option.some.inj h), encodeBaseFee, mode_decayFrom htime, hbytes,
        toLeBytes_fromLeBytes h₀, toLeBytes_fromLeBytes h₈, toLeBytes_fromLeBytes hwide,
        toLeBytes_fromLeBytes h₁₈, List.append_assoc]
    · rw [decodeBaseFee_rest h₀ h₈ h₁₀ h₁₄ h₁₈ hbytes htime] at h
      split_ifs at h with hrate hmarket
      · rw [← Except.ok.inj (Option.some.inj h), encodeBaseFee, hbytes, hrate,
          toLeBytes_fromLeBytes h₀, toLeBytes_fromLeBytes h₈, toLeBytes_fromLeBytes h₁₀,
          toLeBytes_fromLeBytes h₁₄, toLeBytes_fromLeBytes h₁₈]
      · rw [← Except.ok.inj (Option.some.inj h), encodeBaseFee, mode_decayFrom hmarket, hbytes,
          toLeBytes_fromLeBytes h₀, toLeBytes_fromLeBytes h₈, toLeBytes_fromLeBytes h₁₀,
          toLeBytes_fromLeBytes h₁₄, toLeBytes_fromLeBytes h₁₈]
      · cases Option.some.inj h
  · intro h
    cases fee with
    | timeScheduler decay cliff number frequency reduction =>
      rw [decodeBaseFee_time (toLeBytes_length _) (toLeBytes_length _) (toLeBytes_length _)
        (toLeBytes_length _) h (by cases decay <;> decide), fromLeBytes_toLeBytes,
        fromLeBytes_toLeBytes, fromLeBytes_toLeBytes, fromLeBytes_toLeBytes,
        (decayFrom_mode decay).1]
    | rateLimiter cliff increment duration fee reference =>
      rw [decodeBaseFee_rest (toLeBytes_length _) (toLeBytes_length _) (toLeBytes_length _)
        (toLeBytes_length _) (toLeBytes_length _) h (by decide), if_pos rfl, fromLeBytes_toLeBytes,
        fromLeBytes_toLeBytes, fromLeBytes_toLeBytes, fromLeBytes_toLeBytes, fromLeBytes_toLeBytes]
    | marketCapScheduler decay cliff number step expiration reduction =>
      rw [decodeBaseFee_rest (toLeBytes_length _) (toLeBytes_length _) (toLeBytes_length _)
        (toLeBytes_length _) (toLeBytes_length _) h (by cases decay <;> decide),
        if_neg (by cases decay <;> decide), if_pos (by cases decay <;> decide),
        fromLeBytes_toLeBytes, fromLeBytes_toLeBytes, fromLeBytes_toLeBytes, fromLeBytes_toLeBytes,
        fromLeBytes_toLeBytes, (decayFrom_mode decay).2]

theorem decodeBaseFee_ne_none : decodeBaseFee bytes ≠ none := by
  obtain ⟨x₀, x₈, x₁₀, x₁₄, x₁₈, mode, h₀, h₈, h₁₀, h₁₄, h₁₈, hbytes⟩ := exists_base bytes
  by_cases htime : mode = 0 ∨ mode = 1
  · rw [decodeBaseFee_joined h₀ h₈ h₁₀ h₁₄ h₁₈ hbytes htime]
    exact Option.some_ne_none _
  · rw [decodeBaseFee_rest h₀ h₈ h₁₀ h₁₄ h₁₈ hbytes htime]
    split_ifs <;> exact Option.some_ne_none _

/-- The layouts known are those of the modes up to 4. -/
theorem decodeBaseFee_known (bytes : Bytes BASE_FEE_LEN) :
    (∃ fee, decodeBaseFee bytes = some (.ok fee)) ↔
    ∃ mode ≤ 4, bytes.1.getLast? = some mode := by
  obtain ⟨x₀, x₈, x₁₀, x₁₄, x₁₈, mode, h₀, h₈, h₁₀, h₁₄, h₁₈, hbytes⟩ := exists_base bytes
  have hlast : bytes.1.getLast? = some mode := by
    rw [hbytes, ← List.append_assoc, ← List.append_assoc, ← List.append_assoc, ← List.append_assoc]
    exact List.getLast?_concat
  have hmodes : mode ≤ 4 ↔ (mode = 0 ∨ mode = 1) ∨ mode = 2 ∨ mode = 3 ∨ mode = 4 := by
    simp only [UInt8.le_iff_toNat_le, ← UInt8.toNat_inj]
    change mode.toNat ≤ 4 ↔ (mode.toNat = 0 ∨ mode.toNat = 1) ∨ mode.toNat = 2 ∨
      mode.toNat = 3 ∨ mode.toNat = 4
    omega
  simp only [hlast, Option.some.injEq, exists_eq_right', hmodes]
  by_cases htime : mode = 0 ∨ mode = 1
  · rw [decodeBaseFee_joined h₀ h₈ h₁₀ h₁₄ h₁₈ hbytes htime]
    exact iff_of_true ⟨_, rfl⟩ (.inl htime)
  · rw [decodeBaseFee_rest h₀ h₈ h₁₀ h₁₄ h₁₈ hbytes htime]
    split_ifs with hrate hmarket
    · exact iff_of_true ⟨_, rfl⟩ (.inr (.inl hrate))
    · exact iff_of_true ⟨_, rfl⟩ (.inr (.inr hmarket))
    · refine iff_of_false ?_ (not_or.mpr ⟨htime, not_or.mpr ⟨hrate, hmarket⟩⟩)
      intro h
      obtain ⟨fee, hfee⟩ := h
      cases Option.some.inj hfee

end BaseFee

section DynamicFee

variable {bytes : Bytes DYNAMIC_FEE_LEN}

theorem decodeDynamicFee_parts {x₀ x₂ x₁₈ x₂₀ x₂₂ x₂₄ x₂₈ : List UInt8} (h₀ : x₀.length = 2)
    (h₂ : x₂.length = 16) (h₁₈ : x₁₈.length = 2) (h₂₀ : x₂₀.length = 2) (h₂₂ : x₂₂.length = 2)
    (h₂₄ : x₂₄.length = 4) (h₂₈ : x₂₈.length = 4)
    (hbytes : bytes.1 = x₀ ++ (x₂ ++ (x₁₈ ++ (x₂₀ ++ (x₂₂ ++ (x₂₄ ++ x₂₈)))))) :
    decodeDynamicFee bytes = some (.ok ⟨fromLeBytes x₀, fromLeBytes x₂, fromLeBytes x₁₈,
      fromLeBytes x₂₀, fromLeBytes x₂₂, fromLeBytes x₂₄, fromLeBytes x₂₈⟩) := by
  have hfirst : leAt UInt16 bytes.1 0 = some (fromLeBytes x₀) := by
    rw [hbytes]
    exact leAt_parts _ (x := []) rfl h₀
  have hsecond : leAt (BitVec 128) bytes.1 2 = some (fromLeBytes x₂) := by
    rw [hbytes]
    exact leAt_parts _ h₀ h₂
  have hthird : leAt UInt16 bytes.1 18 = some (fromLeBytes x₁₈) := by
    rw [hbytes, ← List.append_assoc]
    exact leAt_parts _ (by rw [List.length_append, h₀, h₂]) h₁₈
  have hfourth : leAt UInt16 bytes.1 20 = some (fromLeBytes x₂₀) := by
    rw [hbytes, ← List.append_assoc, ← List.append_assoc]
    exact leAt_parts _ (by simp only [List.length_append, h₀, h₂, h₁₈]) h₂₀
  have hfifth : leAt UInt16 bytes.1 22 = some (fromLeBytes x₂₂) := by
    rw [hbytes, ← List.append_assoc, ← List.append_assoc, ← List.append_assoc]
    exact leAt_parts _ (by simp only [List.length_append, h₀, h₂, h₁₈, h₂₀]) h₂₂
  have hsixth : leAt UInt32 bytes.1 24 = some (fromLeBytes x₂₄) := by
    rw [hbytes, ← List.append_assoc, ← List.append_assoc, ← List.append_assoc, ← List.append_assoc]
    exact leAt_parts _ (by simp only [List.length_append, h₀, h₂, h₁₈, h₂₀, h₂₂]) h₂₄
  have hseventh : leAt UInt32 bytes.1 28 = some (fromLeBytes x₂₈) := by
    have hbefore : (x₀ ++ (x₂ ++ (x₁₈ ++ (x₂₀ ++ (x₂₂ ++ x₂₄))))).length = 28 := by
      simp only [List.length_append, h₀, h₂, h₁₈, h₂₀, h₂₂, h₂₄]
    have hparts : leAt UInt32 (_ ++ (x₂₈ ++ [])) 28 = some (fromLeBytes x₂₈) :=
      leAt_parts [] hbefore h₂₈
    simp only [List.append_assoc, List.append_nil] at hparts
    rw [hbytes]
    exact hparts
  unfold decodeDynamicFee
  rw [hfirst, lift_some, hsecond, lift_some, hthird, lift_some, hfourth, lift_some, hfifth,
    lift_some, hsixth, lift_some, hseventh, lift_some]
  rfl

/-- Any 32 bytes are a dynamic fee. -/
theorem decodeDynamicFee_total (bytes : Bytes DYNAMIC_FEE_LEN) :
    ∃ fee, decodeDynamicFee bytes = some (.ok fee) ∧ bytes.1 = encodeDynamicFee fee := by
  obtain ⟨x₀, y, h₀, hx₀, hy⟩ := exists_parts (m := 2) (n := 30) bytes.2
  obtain ⟨x₂, y, h₂, hx₂, hy⟩ := exists_parts (m := 16) (n := 14) hy
  obtain ⟨x₁₈, y, h₁₈, hx₁₈, hy⟩ := exists_parts (m := 2) (n := 12) hy
  obtain ⟨x₂₀, y, h₂₀, hx₂₀, hy⟩ := exists_parts (m := 2) (n := 10) hy
  obtain ⟨x₂₂, y, h₂₂, hx₂₂, hy⟩ := exists_parts (m := 2) (n := 8) hy
  obtain ⟨x₂₄, x₂₈, h₂₄, hx₂₄, hx₂₈⟩ := exists_parts (m := 4) (n := 4) hy
  have hbytes : bytes.1 = x₀ ++ (x₂ ++ (x₁₈ ++ (x₂₀ ++ (x₂₂ ++ (x₂₄ ++ x₂₈))))) := by
    rw [h₀, h₂, h₁₈, h₂₀, h₂₂, h₂₄]
  refine ⟨_, decodeDynamicFee_parts hx₀ hx₂ hx₁₈ hx₂₀ hx₂₂ hx₂₄ hx₂₈ hbytes, ?_⟩
  rw [encodeDynamicFee, hbytes, toLeBytes_fromLeBytes hx₀, toLeBytes_fromLeBytes hx₂,
    toLeBytes_fromLeBytes hx₁₈, toLeBytes_fromLeBytes hx₂₀, toLeBytes_fromLeBytes hx₂₂,
    toLeBytes_fromLeBytes hx₂₄, toLeBytes_fromLeBytes hx₂₈]

theorem decodeDynamicFee_eq_ok {fee : DynamicFee} :
    decodeDynamicFee bytes = some (.ok fee) ↔ bytes.1 = encodeDynamicFee fee := by
  constructor
  · intro h
    obtain ⟨read, hread, hbytes⟩ := decodeDynamicFee_total bytes
    rw [hread] at h
    rw [hbytes, Except.ok.inj (Option.some.inj h)]
  · intro h
    rw [decodeDynamicFee_parts (toLeBytes_length _) (toLeBytes_length _) (toLeBytes_length _)
      (toLeBytes_length _) (toLeBytes_length _) (toLeBytes_length _) (toLeBytes_length _) h]
    simp only [fromLeBytes_toLeBytes]

end DynamicFee

end YogSothoth.Extraction.MeteoraDammV2
