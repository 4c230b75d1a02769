import YogSothoth.Analytic.TrancheValue
import YogSothoth.Core.Text

namespace YogSothoth.Analytic

open Extraction (MeteoraDammV2SwapEvent TradeDirection EvtSwap2 translateSwap computeFeeTokenIsA)
open Projection (EventPosition)

/-- A fee and two of its parts. -/
structure Parts (fee protocol referral : ℚ) : Prop where
  protocol_nonneg : 0 ≤ protocol
  referral_nonneg : 0 ≤ referral
  within : protocol + referral ≤ fee

theorem Parts.fee_nonneg {fee protocol referral : ℚ} (h : Parts fee protocol referral) : 0 ≤ fee := by
  have hp := h.protocol_nonneg
  have hr := h.referral_nonneg
  have hw := h.within
  linarith

/-- What the sums of a pool's swaps have in common, whatever the swaps. -/
structure SwapEvents5min.Sound (t : SwapEvents5min) : Prop where
  volumeInA : 0 ≤ t.volumeInA.getD 0
  volumeInB : 0 ≤ t.volumeInB.getD 0
  boughtA : 0 ≤ t.tradedA - t.volumeInA.getD 0
  soldB : 0 ≤ t.tradedB - t.volumeInB.getD 0
  inA : Parts (t.feeInA.getD 0) (t.protocolFeeInA.getD 0) (t.referralFeeInA.getD 0)
  sold : Parts t.soldFeeB t.soldProtocolB t.soldReferralB
  onBuys : Parts (t.feeInBOnBuys.getD 0) (t.protocolFeeInBOnBuys.getD 0)
    (t.referralFeeInBOnBuys.getD 0)
  onBuys_le : t.feeInBOnBuys.getD 0 ≤ t.volumeInB.getD 0
  oneToken : t.feeInA.getD 0 = 0 ∨ t.feeInBOnBuys.getD 0 = 0

section Sums

variable {α : Type*}

theorem sumFilter_getD (p : α → Bool) (value : α → Nat) (rows : List α) :
    (sumFilter p value rows).getD 0 = ((rows.filter p).map (fun r => (value r : ℚ))).sum := by
  rw [sumFilter, sumOption_getD, List.map_map]
  rfl

theorem sum_map_mono {rows : List α} {v w : α → ℚ} (h : ∀ r ∈ rows, v r ≤ w r) :
    (rows.map v).sum ≤ (rows.map w).sum := List.sum_le_sum h

theorem sum_map_nonneg (rows : List α) (value : α → Nat) :
    0 ≤ (rows.map (fun r => (value r : ℚ))).sum := by
  apply List.sum_nonneg
  intro x hx
  obtain ⟨r, -, hr⟩ := List.mem_map.mp hx
  rw [← hr]
  exact Nat.cast_nonneg _

/-- A sum over rows splits by a second condition. -/
theorem sum_filter_split (p q : α → Bool) (v : α → ℚ) (rows : List α) :
    ((rows.filter p).map v).sum = ((rows.filter (fun r => q r && p r)).map v).sum +
      ((rows.filter (fun r => !q r && p r)).map v).sum := by
  induction rows with
  | nil => simp
  | cons r rows ih =>
    simp only [List.filter_cons]
    cases hp : p r with
    | false => simpa using ih
    | true =>
      cases hq : q r with
      | false =>
        simp only [Bool.false_and, Bool.not_false, Bool.true_and, if_true, Bool.false_eq_true,
          if_false, List.map_cons, List.sum_cons]
        rw [ih]
        ring
      | true =>
        simp only [Bool.true_and, Bool.not_true, Bool.false_and, if_true, Bool.false_eq_true,
          if_false, List.map_cons, List.sum_cons]
        rw [ih]
        ring

/-- The rows of a condition sum to no more than all of them. -/
theorem sum_filter_le (p : α → Bool) (value : α → Nat) (rows : List α) :
    ((rows.filter p).map (fun r => (value r : ℚ))).sum ≤
      (rows.map (fun r => (value r : ℚ))).sum := by
  have hsplit := sum_filter_split (fun _ => true) p (fun r => (value r : ℚ)) rows
  have hrest := sum_map_nonneg (rows.filter (fun r => !p r && true)) value
  simp only [List.filter_true, Bool.and_true] at hsplit hrest
  linarith

end Sums

section Fees

theorem Swap.parts (s : MeteoraDammV2SwapEvent) :
    Swap.protocolFee s + Swap.referralFee s ≤ Swap.fee s := by
  unfold Swap.protocolFee Swap.referralFee Swap.fee
  omega

theorem parts_sum (p : MeteoraDammV2SwapEvent → Bool) (swaps : List MeteoraDammV2SwapEvent) :
    Parts ((swaps.filter p).map (fun s => (Swap.fee s : ℚ))).sum
      ((swaps.filter p).map (fun s => (Swap.protocolFee s : ℚ))).sum
      ((swaps.filter p).map (fun s => (Swap.referralFee s : ℚ))).sum := by
  refine ⟨sum_map_nonneg _ _, sum_map_nonneg _ _, ?_⟩
  rw [← List.sum_map_add]
  apply sum_map_mono
  intro s _
  exact_mod_cast Swap.parts s

theorem sold_sum (value : MeteoraDammV2SwapEvent → Nat) (swaps : List MeteoraDammV2SwapEvent) :
    (sumFilter Swap.feeInB value swaps).getD 0 - (sumFilter Swap.feeInBOnBuys value swaps).getD 0 =
      ((swaps.filter (fun s => !Swap.bToA s && Swap.feeInB s)).map
        (fun s => (value s : ℚ))).sum := by
  have hsplit := sum_filter_split Swap.feeInB Swap.bToA (fun s => (value s : ℚ)) swaps
  rw [sumFilter_getD, sumFilter_getD, hsplit]
  exact add_sub_cancel_left _ _

/-- A sale pays its fee in B, as translated. -/
theorem translateSwap_sale {wire : EvtSwap2} {at_ : EventPosition} {s : MeteoraDammV2SwapEvent}
    (h : translateSwap wire at_ = .ok s) : Swap.aToB s = true → s.feeTokenIsA = false := by
  intro hsale
  obtain ⟨direction, -, h⟩ := bind_eq_ok h
  obtain ⟨isA, hisA, h⟩ := bind_eq_ok h
  cases direction with
  | bToA =>
    have hs := Except.ok.inj h
    rw [← hs] at hsale
    cases hsale
  | aToB =>
    have hs := Except.ok.inj h
    rw [← hs]
    change isA = false
    unfold computeFeeTokenIsA at hisA
    split_ifs at hisA
    all_goals simpa [Except.mapError] using hisA.symm

variable {swaps : List MeteoraDammV2SwapEvent}

/-- Purchases that all pay in one token leave one of their two fees empty. -/
theorem oneToken_sum
    (htranslated : ∀ s ∈ swaps, ∃ wire at_, translateSwap wire at_ = .ok s)
    (htoken : ∀ s ∈ swaps, ∀ s' ∈ swaps, Swap.bToA s → Swap.bToA s' →
      s.feeTokenIsA = s'.feeTokenIsA) :
    (sumFilter Swap.feeInA Swap.fee swaps).getD 0 = 0 ∨
      (sumFilter Swap.feeInBOnBuys Swap.fee swaps).getD 0 = 0 := by
  rw [sumFilter_getD, sumFilter_getD]
  by_cases hbuy : ∃ s ∈ swaps, Swap.feeInBOnBuys s
  · left
    obtain ⟨s, hs, hbuy⟩ := hbuy
    obtain ⟨hbought, hinB⟩ := Bool.and_eq_true_iff.mp hbuy
    have hnone : swaps.filter Swap.feeInA = [] := by
      apply List.filter_eq_nil_iff.mpr
      intro s' hs' hinA
      have hinA : s'.feeTokenIsA = true := hinA
      cases hdirection : s'.tradeDirection with
      | aToB =>
        obtain ⟨wire, at_, htranslate⟩ := htranslated s' hs'
        have hsale := translateSwap_sale htranslate (decide_eq_true hdirection)
        rw [hinA] at hsale
        cases hsale
      | bToA =>
        have hsame := htoken s' hs' s hs (decide_eq_true hdirection) hbought
        rw [hinA] at hsame
        rw [← hsame] at hinB
        cases hinB
    rw [hnone]
    rfl
  · right
    have hnone : swaps.filter Swap.feeInBOnBuys = [] :=
      List.filter_eq_nil_iff.mpr (fun s hs h => hbuy ⟨s, hs, h⟩)
    rw [hnone]
    rfl

/-- An input fee is within the input it is taken on. -/
theorem onBuys_sum_le (hinput : ∀ s ∈ swaps, Swap.feeInBOnBuys s → Swap.fee s ≤ Swap.amountB s) :
    (sumFilter Swap.feeInBOnBuys Swap.fee swaps).getD 0 ≤
      (sumFilter Swap.bToA Swap.amountB swaps).getD 0 := by
  rw [sumFilter_getD, sumFilter_getD]
  have hsplit := sum_filter_split Swap.bToA Swap.feeInB (fun s => (Swap.amountB s : ℚ)) swaps
  have hrest := sum_map_nonneg (swaps.filter (fun s => !Swap.feeInB s && Swap.bToA s))
    Swap.amountB
  have hbuys : swaps.filter (fun s => Swap.feeInB s && Swap.bToA s) =
      swaps.filter Swap.feeInBOnBuys := by
    apply List.filter_congr
    intro s _
    exact Bool.and_comm _ _
  have hle : ((swaps.filter Swap.feeInBOnBuys).map (fun s => (Swap.fee s : ℚ))).sum ≤
      ((swaps.filter Swap.feeInBOnBuys).map (fun s => (Swap.amountB s : ℚ))).sum := by
    apply sum_map_mono
    intro s hs
    obtain ⟨hs, hbuy⟩ := List.mem_filter.mp hs
    exact_mod_cast hinput s hs hbuy
  rw [hbuys] at hsplit
  linarith

/-- Fees in A are paid by purchases. -/
theorem feeInA_paid (htranslated : ∀ s ∈ swaps, ∃ wire at_, translateSwap wire at_ = .ok s)
    (hfee : (sumFilter Swap.feeInA Swap.fee swaps).getD 0 ≠ 0) :
    ∃ s ∈ swaps, Swap.bToA s ∧ Swap.fee s ≠ 0 := by
  by_contra hnone
  apply hfee
  rw [sumFilter_getD]
  apply List.sum_eq_zero
  intro x hx
  obtain ⟨s, hs, hx⟩ := List.mem_map.mp hx
  obtain ⟨hs, hinA⟩ := List.mem_filter.mp hs
  have hinA : s.feeTokenIsA = true := hinA
  rw [← hx]
  cases hdirection : s.tradeDirection with
  | aToB =>
    obtain ⟨wire, at_, htranslate⟩ := htranslated s hs
    have hsale := translateSwap_sale htranslate (decide_eq_true hdirection)
    rw [hinA] at hsale
    cases hsale
  | bToA =>
    have hzero : Swap.fee s = 0 := by
      by_contra hpays
      exact hnone ⟨s, hs, decide_eq_true hdirection, hpays⟩
    rw [hzero, Nat.cast_zero]

theorem volumeInB_ne_zero (h : ∃ s ∈ swaps, Swap.bToA s ∧ Swap.amountB s ≠ 0) :
    (sumFilter Swap.bToA Swap.amountB swaps).getD 0 ≠ 0 := by
  obtain ⟨s, hs, hbuy, hamount⟩ := h
  rw [sumFilter_getD]
  have hpos : (0 : ℚ) < Swap.amountB s := Nat.cast_pos.mpr (Nat.pos_of_ne_zero hamount)
  have hmem : (Swap.amountB s : ℚ) ∈
      (swaps.filter Swap.bToA).map (fun s => (Swap.amountB s : ℚ)) :=
    List.mem_map_of_mem (f := fun s => (Swap.amountB s : ℚ)) (List.mem_filter.mpr ⟨hs, hbuy⟩)
  have hle := List.single_le_sum (fun x hx => by
    obtain ⟨s', -, hx⟩ := List.mem_map.mp hx
    rw [← hx]
    exact Nat.cast_nonneg _) _ hmem
  exact (lt_of_lt_of_le hpos hle).ne'

theorem swapEvents5min_sound
    (htranslated : ∀ s ∈ swaps, ∃ wire at_, translateSwap wire at_ = .ok s)
    (htoken : ∀ s ∈ swaps, ∀ s' ∈ swaps, Swap.bToA s → Swap.bToA s' →
      s.feeTokenIsA = s'.feeTokenIsA)
    (hinput : ∀ s ∈ swaps, Swap.feeInBOnBuys s → Swap.fee s ≤ Swap.amountB s) :
    (swapEvents5min swaps).Sound where
  volumeInA := by
    change 0 ≤ (sumFilter Swap.aToB Swap.amountA swaps).getD 0
    rw [sumFilter_getD]
    exact sum_map_nonneg _ _
  volumeInB := by
    change 0 ≤ (sumFilter Swap.bToA Swap.amountB swaps).getD 0
    rw [sumFilter_getD]
    exact sum_map_nonneg _ _
  boughtA := by
    change 0 ≤ _ - (sumFilter Swap.aToB Swap.amountA swaps).getD 0
    rw [sumFilter_getD]
    exact sub_nonneg.mpr (sum_filter_le _ _ _)
  soldB := by
    change 0 ≤ _ - (sumFilter Swap.bToA Swap.amountB swaps).getD 0
    rw [sumFilter_getD]
    exact sub_nonneg.mpr (sum_filter_le _ _ _)
  inA := by
    change Parts ((sumFilter Swap.feeInA Swap.fee swaps).getD 0)
      ((sumFilter Swap.feeInA Swap.protocolFee swaps).getD 0)
      ((sumFilter Swap.feeInA Swap.referralFee swaps).getD 0)
    rw [sumFilter_getD, sumFilter_getD, sumFilter_getD]
    exact parts_sum _ _
  sold := by
    change Parts ((sumFilter Swap.feeInB Swap.fee swaps).getD 0 - _)
      ((sumFilter Swap.feeInB Swap.protocolFee swaps).getD 0 - _)
      ((sumFilter Swap.feeInB Swap.referralFee swaps).getD 0 - _)
    change Parts (_ - (sumFilter Swap.feeInBOnBuys Swap.fee swaps).getD 0)
      (_ - (sumFilter Swap.feeInBOnBuys Swap.protocolFee swaps).getD 0)
      (_ - (sumFilter Swap.feeInBOnBuys Swap.referralFee swaps).getD 0)
    rw [sold_sum, sold_sum, sold_sum]
    exact parts_sum _ _
  onBuys := by
    change Parts ((sumFilter Swap.feeInBOnBuys Swap.fee swaps).getD 0)
      ((sumFilter Swap.feeInBOnBuys Swap.protocolFee swaps).getD 0)
      ((sumFilter Swap.feeInBOnBuys Swap.referralFee swaps).getD 0)
    rw [sumFilter_getD, sumFilter_getD, sumFilter_getD]
    exact parts_sum _ _
  onBuys_le := onBuys_sum_le hinput
  oneToken := oneToken_sum htranslated htoken

end Fees

/-- Market prices are positive, where there are any. -/
structure Quoted.Positive (q : Quoted) : Prop where
  marketA : ∀ p, q.marketA = some p → 0 < p
  marketB : ∀ p, q.marketB = some p → 0 < p

section Amounts

variable {decimals : Option Int} {price : Option ℚ}

/-- With a scale and a price, an amount is worth so much a raw unit. -/
theorem exists_unit (hprice : ∀ p, price = some p → 0 < p) (hok : price.isSome && decimals.isSome) :
    ∃ unit : ℚ, 0 < unit ∧ (∀ x, yogAmountUsd x decimals price = some (x * unit)) ∧
      ∀ x, yogMovedAmountUsd x decimals price = some (x * unit) := by
  obtain ⟨hp, hd⟩ := Bool.and_eq_true_iff.mp hok
  obtain ⟨p, hp⟩ := Option.isSome_iff_exists.mp hp
  obtain ⟨d, hd⟩ := Option.isSome_iff_exists.mp hd
  subst hp hd
  have hamount (x : ℚ) : yogAmountUsd x (some d) (some p) = some (x * (p / 10 ^ d)) := by
    change some (x / 10 ^ d * p) = _
    rw [div_mul_eq_mul_div, mul_div_assoc]
  refine ⟨p / 10 ^ d, div_pos (hprice p rfl) (zpow_pos (by norm_num) d), hamount, ?_⟩
  intro x
  unfold yogMovedAmountUsd
  split_ifs with hx
  · rw [hx, zero_mul]
  · exact hamount x

theorem yogAmountUsd_nonneg (hprice : ∀ p, price = some p → 0 < p) {x v : ℚ} (hx : 0 ≤ x)
    (h : yogAmountUsd x decimals price = some v) : 0 ≤ v := by
  obtain ⟨y, p, hy, hp, hv⟩ := Option.map₂_eq_some_iff.mp h
  obtain ⟨d, -, hyd⟩ := Option.map_eq_some_iff.mp hy
  rw [← hv, ← hyd]
  exact mul_nonneg (div_nonneg hx (zpow_pos (by norm_num) d).le) (hprice p hp).le

theorem yogMovedAmountUsd_nonneg (hprice : ∀ p, price = some p → 0 < p) {x v : ℚ} (hx : 0 ≤ x)
    (h : yogMovedAmountUsd x decimals price = some v) : 0 ≤ v := by
  unfold yogMovedAmountUsd at h
  split_ifs at h
  · exact (Option.some.inj h).le
  · exact yogAmountUsd_nonneg hprice hx h

/-- A share of a gross is within it. -/
theorem share_le {fee out gross : ℚ} (hfee : 0 ≤ fee) (hle : fee ≤ out) (hgross : 0 ≤ gross) :
    fee * (gross / out) ≤ gross := by
  rcases hfee.lt_or_eq with hpos | hzero
  · have hout : 0 < out := lt_of_lt_of_le hpos hle
    rw [← mul_div_assoc, div_le_iff₀ hout, mul_comm]
    exact mul_le_mul_of_nonneg_left hle hgross
  · rw [← hzero, zero_mul]
    exact hgross

end Amounts

namespace Quoted

variable {q : Quoted}

theorem trust_a (h : q.trust = some .a) : (q.marketA.isSome && q.decA.isSome) = true := by
  unfold trust at h
  grind

theorem trust_b (h : q.trust = some .b) : (q.marketB.isSome && q.decB.isSome) = true := by
  unfold trust at h
  grind

theorem trust_both (h : q.trust = some .both) : (q.marketA.isSome && q.decA.isSome) = true ∧
    (q.marketB.isSome && q.decB.isSome) = true := by
  unfold trust at h
  grind

end Quoted

namespace SwapEvents5min

variable {t : SwapEvents5min} {q : Quoted}

section Legs

theorem Sound.outA_nonneg (h : t.Sound) : 0 ≤ t.outA := add_nonneg h.boughtA h.inA.fee_nonneg

theorem Sound.outB_nonneg (h : t.Sound) : 0 ≤ t.outB := add_nonneg h.soldB h.sold.fee_nonneg

theorem Sound.feeInA_le (h : t.Sound) : t.feeInA.getD 0 ≤ t.outA :=
  le_add_of_nonneg_left h.boughtA

theorem Sound.soldFeeB_le (h : t.Sound) : t.soldFeeB ≤ t.outB := le_add_of_nonneg_left h.soldB

theorem Sound.aToBByA_nonneg (h : t.Sound) (hq : q.Positive) {v : ℚ}
    (hv : t.aToBByA q = some v) : 0 ≤ v := yogMovedAmountUsd_nonneg hq.marketA h.volumeInA hv

theorem Sound.aToBByB_nonneg (h : t.Sound) (hq : q.Positive) {v : ℚ}
    (hv : t.aToBByB q = some v) : 0 ≤ v := yogMovedAmountUsd_nonneg hq.marketB h.outB_nonneg hv

theorem Sound.bToAByB_nonneg (h : t.Sound) (hq : q.Positive) {v : ℚ}
    (hv : t.bToAByB q = some v) : 0 ≤ v := yogMovedAmountUsd_nonneg hq.marketB h.volumeInB hv

theorem Sound.bToAByA_nonneg (h : t.Sound) (hq : q.Positive) {v : ℚ}
    (hv : t.bToAByA q = some v) : 0 ≤ v := by
  unfold bToAByA at hv
  split_ifs at hv
  · exact (Option.some.inj hv).le
  · obtain ⟨x, rest, hx, hrest, hv⟩ := Option.map₂_eq_some_iff.mp hv
    obtain ⟨moved, volume, hmoved, hvolume, hx⟩ := Option.map₂_eq_some_iff.mp hx
    have hmoved := yogMovedAmountUsd_nonneg hq.marketA h.outA_nonneg hmoved
    have hvolumeInB := h.volumeInB
    rw [hvolume, Option.getD_some] at hvolumeInB
    have hle := sub_nonneg.mpr h.onBuys_le
    rw [(nullifZero_eq_some.mp hrest).2] at hle
    rw [← hv, ← hx]
    exact div_nonneg (mul_nonneg hmoved hvolumeInB) hle

theorem Sound.aToB_nonneg (h : t.Sound) (hq : q.Positive) {v : ℚ} (hv : t.aToB q = some v) :
    0 ≤ v := by
  unfold aToB at hv
  split at hv
  · exact h.aToBByA_nonneg hq hv
  · exact h.aToBByB_nonneg hq hv
  · cases least_mem hv with
    | inl hv => exact h.aToBByA_nonneg hq hv
    | inr hv => exact h.aToBByB_nonneg hq hv
  · cases hv

theorem Sound.bToA_nonneg (h : t.Sound) (hq : q.Positive) {v : ℚ} (hv : t.bToA q = some v) :
    0 ≤ v := by
  unfold bToA at hv
  split at hv
  · exact h.bToAByB_nonneg hq hv
  · exact h.bToAByA_nonneg hq hv
  · cases least_mem hv with
    | inl hv => exact h.bToAByB_nonneg hq hv
    | inr hv => exact h.bToAByA_nonneg hq hv
  · cases hv

end Legs

section Prices

theorem quotient_nonneg {gross price : Option ℚ} {out v : ℚ} (hgross : ∀ g, gross = some g → 0 ≤ g)
    (hout : 0 ≤ out) (hprice : price = Option.map₂ (· / ·) gross (nullifZero out))
    (h : price = some v) : 0 ≤ v := by
  rw [hprice] at h
  obtain ⟨g, o, hg, ho, hv⟩ := Option.map₂_eq_some_iff.mp h
  rw [(nullifZero_eq_some.mp ho).2] at hout
  rw [← hv]
  exact div_nonneg (hgross g hg) hout

theorem Sound.perA_nonneg (h : t.Sound) (hq : q.Positive) {v : ℚ} (hv : t.perA q = some v) :
    0 ≤ v := by
  unfold perA at hv
  split_ifs at hv
  · exact (Option.some.inj hv).le
  · exact quotient_nonneg (fun g hg => h.bToAByB_nonneg hq hg) h.outA_nonneg rfl hv
  · exact yogAmountUsd_nonneg hq.marketA zero_le_one hv

theorem Sound.saleB_nonneg (h : t.Sound) (hq : q.Positive) {v : ℚ} (hv : t.saleB q = some v) :
    0 ≤ v := by
  unfold saleB at hv
  split_ifs at hv
  · exact (Option.some.inj hv).le
  · exact quotient_nonneg (fun g hg => h.aToBByA_nonneg hq hg) h.outB_nonneg rfl hv
  · exact yogAmountUsd_nonneg hq.marketB zero_le_one hv

theorem Sound.buyB_nonneg (h : t.Sound) (hq : q.Positive) {v : ℚ} (hv : t.buyB q = some v) :
    0 ≤ v := by
  unfold buyB at hv
  split_ifs at hv
  · exact (Option.some.inj hv).le
  · exact quotient_nonneg (fun g hg => h.bToAByA_nonneg hq hg) h.volumeInB rfl hv
  · exact yogAmountUsd_nonneg hq.marketB zero_le_one hv

end Prices

section Bounds

/-- A share of the gross of a direction, priced by it, is within it. -/
theorem quotient_le {gross price : Option ℚ} {fee out g v : ℚ} (hfee : 0 ≤ fee) (hle : fee ≤ out)
    (hgross : gross = some g) (hg : 0 ≤ g)
    (hprice : price = Option.map₂ (· / ·) gross (nullifZero out)) (h : price = some v) :
    fee * v ≤ g := by
  rw [hprice, hgross] at h
  obtain ⟨g', o, hg', ho, hv⟩ := Option.map₂_eq_some_iff.mp h
  rw [← hv, ← Option.some.inj hg', ← (nullifZero_eq_some.mp ho).2]
  exact share_le hfee hle hg

/-- The sales' fees are within the sales' leg they are priced with. -/
theorem Sound.sold_le (h : t.Sound) (hq : q.Positive) {sb : ℚ} (hsb : t.saleB q = some sb) :
    (q.trust = some .a → ∀ leg, t.aToBByA q = some leg → t.soldFeeB * sb ≤ leg) ∧
    (q.trust = some .b ∨ q.trust = some .both →
      ∃ leg, t.aToBByB q = some leg ∧ t.soldFeeB * sb ≤ leg) := by
  have hfee := h.sold.fee_nonneg
  have hle := h.soldFeeB_le
  refine ⟨?_, ?_⟩
  · intro htrust leg hleg
    have hnonneg := h.aToBByA_nonneg hq hleg
    unfold saleB at hsb
    split_ifs at hsb with hzero
    · rw [hzero, zero_mul]
      exact hnonneg
    · exact quotient_le hfee hle hleg hnonneg rfl hsb
  · intro htrust
    have hok : (q.marketB.isSome && q.decB.isSome) = true := by
      cases htrust with
      | inl htrust => exact Quoted.trust_b htrust
      | inr htrust => exact (Quoted.trust_both htrust).2
    obtain ⟨unit, hunit, hamount, hmoved⟩ := exists_unit hq.marketB hok
    refine ⟨t.outB * unit, hmoved t.outB, ?_⟩
    unfold saleB at hsb
    split_ifs at hsb with hzero htrust'
    · rw [hzero, zero_mul]
      exact mul_nonneg h.outB_nonneg hunit.le
    · rw [htrust'] at htrust
      simp at htrust
    · rw [hamount, one_mul] at hsb
      rw [← Option.some.inj hsb]
      exact mul_le_mul_of_nonneg_right hle hunit.le

/-- The purchases' gross by A, when something goes in and comes out and their fee is in A. -/
theorem bToAByA_eq (hzero : t.feeInBOnBuys.getD 0 = 0) (hin : t.volumeInB.getD 0 ≠ 0)
    (hout : t.outA ≠ 0) : t.bToAByA q = yogMovedAmountUsd t.outA q.decA q.marketA := by
  cases hvolume : t.volumeInB with
  | none =>
    rw [hvolume] at hin
    exact absurd rfl hin
  | some volume =>
    rw [hvolume, Option.getD_some] at hin
    unfold bToAByA
    rw [hvolume, Option.getD_some, if_neg (not_or.mpr ⟨hin, hout⟩), hzero, sub_zero, nullifZero,
      if_neg hin]
    cases yogMovedAmountUsd t.outA q.decA q.marketA with
    | none => rfl
    | some moved =>
      change some (moved * volume / volume) = some moved
      rw [mul_div_cancel_right₀ moved hin]

/-- Within the purchases' gross of a trusted token; of either leg on a tie. -/
def WithinBuys (t : SwapEvents5min) (q : Quoted) (x : ℚ) : Prop :=
  (q.trust = some .a → ∀ leg, t.bToAByA q = some leg → x ≤ leg) ∧
  (q.trust = some .b → ∀ leg, t.bToAByB q = some leg → x ≤ leg) ∧
  (q.trust = some .both → ∀ low, t.bToA q = some low →
    ∃ leg, (t.bToAByA q = some leg ∨ t.bToAByB q = some leg) ∧ x ≤ leg)

theorem Sound.zero_withinBuys (h : t.Sound) (hq : q.Positive) : t.WithinBuys q 0 := by
  refine ⟨fun _ leg hleg => h.bToAByA_nonneg hq hleg, fun _ leg hleg => h.bToAByB_nonneg hq hleg, ?_⟩
  intro htrust low hlow
  have hnonneg := h.bToA_nonneg hq hlow
  unfold bToA at hlow
  rw [htrust] at hlow
  exact ⟨low, (least_mem hlow).symm, hnonneg⟩

theorem Sound.feeInBOnBuys_withinBuys (h : t.Sound) (hq : q.Positive) {bb : ℚ}
    (hbb : t.buyB q = some bb) : t.WithinBuys q (t.feeInBOnBuys.getD 0 * bb) := by
  have hfee := h.onBuys.fee_nonneg
  have hle := h.onBuys_le
  by_cases hB : t.feeInBOnBuys.getD 0 = 0
  · rw [hB, zero_mul]
    exact h.zero_withinBuys hq
  unfold buyB at hbb
  rw [if_neg hB] at hbb
  have hmarket (hok : (q.marketB.isSome && q.decB.isSome) = true) (hne : q.trust ≠ some .a) :
      ∃ leg, t.bToAByB q = some leg ∧ t.feeInBOnBuys.getD 0 * bb ≤ leg := by
    obtain ⟨unit, hunit, hamount, hmoved⟩ := exists_unit hq.marketB hok
    rw [if_neg hne, hamount, one_mul] at hbb
    refine ⟨t.volumeInB.getD 0 * unit, hmoved _, ?_⟩
    rw [← Option.some.inj hbb]
    exact mul_le_mul_of_nonneg_right hle hunit.le
  refine ⟨?_, ?_, ?_⟩
  · intro htrust leg hleg
    rw [if_pos htrust] at hbb
    exact quotient_le hfee hle hleg (h.bToAByA_nonneg hq hleg) rfl hbb
  · intro htrust leg hleg
    obtain ⟨leg', hleg', hle⟩ := hmarket (Quoted.trust_b htrust) (by simp [htrust])
    rw [hleg] at hleg'
    exact Option.some.inj hleg' ▸ hle
  · intro htrust low _
    obtain ⟨leg, hleg, hle⟩ := hmarket (Quoted.trust_both htrust).2 (by simp [htrust])
    exact ⟨leg, .inr hleg, hle⟩

/-- A purchase's output fee, when purchases put something in or B alone is trusted. -/
theorem Sound.feeInA_withinBuys (h : t.Sound) (hq : q.Positive)
    (hpaid : q.trust ≠ some .b → t.feeInA.getD 0 ≠ 0 → t.volumeInB.getD 0 ≠ 0) {pa : ℚ}
    (hpa : t.perA q = some pa) : t.WithinBuys q (t.feeInA.getD 0 * pa) := by
  have hfee := h.inA.fee_nonneg
  have hle := h.feeInA_le
  by_cases hA : t.feeInA.getD 0 = 0
  · rw [hA, zero_mul]
    exact h.zero_withinBuys hq
  have hB : t.feeInBOnBuys.getD 0 = 0 := h.oneToken.resolve_left hA
  have hout : t.outA ≠ 0 := (lt_of_lt_of_le (lt_of_le_of_ne hfee (Ne.symm hA)) hle).ne'
  unfold perA at hpa
  rw [if_neg hA] at hpa
  have hmarket (hok : (q.marketA.isSome && q.decA.isSome) = true) (hne : q.trust ≠ some .b) :
      ∃ leg, t.bToAByA q = some leg ∧ t.feeInA.getD 0 * pa ≤ leg := by
    obtain ⟨unit, hunit, hamount, hmoved⟩ := exists_unit hq.marketA hok
    rw [if_neg hne, hamount, one_mul] at hpa
    refine ⟨t.outA * unit, ?_, ?_⟩
    · rw [bToAByA_eq hB (hpaid hne hA) hout, hmoved]
    · rw [← Option.some.inj hpa]
      exact mul_le_mul_of_nonneg_right hle hunit.le
  refine ⟨?_, ?_, ?_⟩
  · intro htrust leg hleg
    obtain ⟨leg', hleg', hle⟩ := hmarket (Quoted.trust_a htrust) (by simp [htrust])
    rw [hleg] at hleg'
    exact Option.some.inj hleg' ▸ hle
  · intro htrust leg hleg
    rw [if_pos htrust] at hpa
    exact quotient_le hfee hle hleg (h.bToAByB_nonneg hq hleg) rfl hpa
  · intro htrust low _
    obtain ⟨leg, hleg, hle⟩ := hmarket (Quoted.trust_both htrust).1 (by simp [htrust])
    exact ⟨leg, .inl hleg, hle⟩

/-- The purchases pay one of the two fees. -/
theorem Sound.bought_withinBuys (h : t.Sound) (hq : q.Positive)
    (hpaid : q.trust ≠ some .b → t.feeInA.getD 0 ≠ 0 → t.volumeInB.getD 0 ≠ 0) {pa bb : ℚ}
    (hpa : t.perA q = some pa) (hbb : t.buyB q = some bb) :
    t.WithinBuys q (t.feeInA.getD 0 * pa + t.feeInBOnBuys.getD 0 * bb) := by
  have hinA := h.feeInA_withinBuys hq hpaid hpa
  have hinB := h.feeInBOnBuys_withinBuys hq hbb
  cases h.oneToken with
  | inl hA =>
    rw [hA, zero_mul, zero_add]
    exact hinB
  | inr hB =>
    rw [hB, zero_mul, add_zero]
    exact hinA

end Bounds

section Row

/-- What a valued row has: its two grosses and its three prices. -/
theorem valued_parts (h : t.valued q) : ∃ ga gb pa sb bb : ℚ, t.aToB q = some ga ∧
    t.bToA q = some gb ∧ t.perA q = some pa ∧ t.saleB q = some sb ∧ t.buyB q = some bb := by
  unfold valued at h
  simp only [Bool.and_eq_true] at h
  obtain ⟨⟨⟨⟨⟨-, hga⟩, hgb⟩, hpa⟩, hsb⟩, hbb⟩ := h
  obtain ⟨ga, hga⟩ := Option.isSome_iff_exists.mp hga
  obtain ⟨gb, hgb⟩ := Option.isSome_iff_exists.mp hgb
  obtain ⟨pa, hpa⟩ := Option.isSome_iff_exists.mp hpa
  obtain ⟨sb, hsb⟩ := Option.isSome_iff_exists.mp hsb
  obtain ⟨bb, hbb⟩ := Option.isSome_iff_exists.mp hbb
  exact ⟨ga, gb, pa, sb, bb, hga, hgb, hpa, hsb, hbb⟩

theorem feeUsd_eq (h : t.valued q) {pa sb bb : ℚ} (hpa : t.perA q = some pa)
    (hsb : t.saleB q = some sb) (hbb : t.buyB q = some bb) (inA sold onBuys : ℚ) :
    t.feeUsd q inA sold onBuys = some (inA * pa + sold * sb + onBuys * bb) := by
  rw [feeUsd, if_pos h, hpa, hsb, hbb]
  rfl

/-- Three prices keep the order of a fee and its parts. -/
theorem parts_priced {f f' f'' p p' p'' r r' r'' pa sb bb : ℚ} (h : Parts f p r) (h' : Parts f' p' r')
    (h'' : Parts f'' p'' r'') (hpa : 0 ≤ pa) (hsb : 0 ≤ sb) (hbb : 0 ≤ bb) :
    Parts (f * pa + f' * sb + f'' * bb) (p * pa + p' * sb + p'' * bb)
      (r * pa + r' * sb + r'' * bb) := by
  refine ⟨?_, ?_, ?_⟩
  · exact add_nonneg (add_nonneg (mul_nonneg h.protocol_nonneg hpa)
      (mul_nonneg h'.protocol_nonneg hsb)) (mul_nonneg h''.protocol_nonneg hbb)
  · exact add_nonneg (add_nonneg (mul_nonneg h.referral_nonneg hpa)
      (mul_nonneg h'.referral_nonneg hsb)) (mul_nonneg h''.referral_nonneg hbb)
  · have hA := mul_le_mul_of_nonneg_right h.within hpa
    have hS := mul_le_mul_of_nonneg_right h'.within hsb
    have hB := mul_le_mul_of_nonneg_right h''.within hbb
    linarith

/-- A valued row's grosses and fees, for a sound aggregate. -/
theorem Sound.pool5min (h : t.Sound) (hq : q.Positive) (hvalued : t.valued q) :
    ∃ ga gb fees lp protocol referral : ℚ,
      (pool5min t q).volumeInAUsd = some ga ∧ (pool5min t q).volumeInBUsd = some gb ∧
      (pool5min t q).feesUsd = some fees ∧ (pool5min t q).lpFeesUsd = some lp ∧
      (pool5min t q).protocolFeesUsd = some protocol ∧
      (pool5min t q).referralFeesUsd = some referral ∧
      0 ≤ ga ∧ 0 ≤ gb ∧ 0 ≤ lp ∧ 0 ≤ protocol ∧ 0 ≤ referral ∧ lp + protocol + referral = fees ∧
      ((q.trust ≠ some .b → t.feeInA.getD 0 ≠ 0 → t.volumeInB.getD 0 ≠ 0) →
        (q.trust ≠ some .both → fees ≤ ga + gb) ∧
        (q.trust = some .both → ∃ highA highB, greatest (t.aToBByA q) (t.aToBByB q) = some highA ∧
          greatest (t.bToAByB q) (t.bToAByA q) = some highB ∧ fees ≤ highA + highB)) := by
  obtain ⟨ga, gb, pa, sb, bb, hga, hgb, hpa, hsb, hbb⟩ := valued_parts hvalued
  have hfee := feeUsd_eq hvalued hpa hsb hbb
  have hparts := parts_priced h.inA h.sold h.onBuys (h.perA_nonneg hq hpa) (h.saleB_nonneg hq hsb)
    (h.buyB_nonneg hq hbb)
  have hfees : (Analytic.pool5min t q).feesUsd = _ := hfee (t.feeInA.getD 0) t.soldFeeB
    (t.feeInBOnBuys.getD 0)
  have hprotocol : (Analytic.pool5min t q).protocolFeesUsd = _ :=
    hfee (t.protocolFeeInA.getD 0) t.soldProtocolB (t.protocolFeeInBOnBuys.getD 0)
  have hreferral : (Analytic.pool5min t q).referralFeesUsd = _ :=
    hfee (t.referralFeeInA.getD 0) t.soldReferralB (t.referralFeeInBOnBuys.getD 0)
  have hlp : (Analytic.pool5min t q).lpFeesUsd = Option.map₂ (· - ·) (Option.map₂ (· - ·)
    (Analytic.pool5min t q).feesUsd (Analytic.pool5min t q).protocolFeesUsd)
      (Analytic.pool5min t q).referralFeesUsd := rfl
  rw [hfees, hprotocol, hreferral] at hlp
  refine ⟨ga, gb, _, _, _, _, (if_pos hvalued).trans hga, (if_pos hvalued).trans hgb, hfees, hlp,
    hprotocol, hreferral, h.aToB_nonneg hq hga, h.bToA_nonneg hq hgb, ?_, hparts.protocol_nonneg,
    hparts.referral_nonneg, by ring, ?_⟩
  · have hwithin := hparts.within
    linarith
  · intro hpaid
    have hsold := h.sold_le hq hsb
    have hbought := h.bought_withinBuys hq hpaid hpa hbb
    refine ⟨?_, ?_⟩
    · intro hsingle
      unfold aToB at hga
      unfold bToA at hgb
      cases htrust : q.trust with
      | none =>
        rw [htrust] at hga
        cases hga
      | some trust =>
        rw [htrust] at hga hgb
        cases trust with
        | a =>
          have hsales := hsold.1 htrust ga hga
          have hbuys := hbought.1 htrust gb hgb
          linarith
        | b =>
          obtain ⟨leg, hleg, hsales⟩ := hsold.2 (.inl htrust)
          have hleg : leg = ga := Option.some.inj (hleg.symm.trans hga)
          have hbuys := hbought.2.1 htrust gb hgb
          rw [hleg] at hsales
          linarith
        | both => exact absurd htrust hsingle
    · intro htrust
      obtain ⟨legA, hlegA, hsales⟩ := hsold.2 (.inr htrust)
      obtain ⟨legB, hlegB, hbuys⟩ := hbought.2.2 htrust gb hgb
      obtain ⟨highA, hhighA, hleA⟩ := greatest_isSome (a := t.aToBByA q) (.inr hlegA)
      obtain ⟨highB, hhighB, hleB⟩ := greatest_isSome hlegB.symm
      exact ⟨highA, highB, hhighA, hhighB, by linarith⟩

end Row

end SwapEvents5min

/-- A valued tranche row of swaps as translated: its grosses and fee parts are non-negative, and its
fees within its gross unless both tokens are trusted; then within the dearer leg of each direction. -/
theorem pool5min_fees {swaps : List MeteoraDammV2SwapEvent} {q : Quoted}
    (htranslated : ∀ s ∈ swaps, ∃ wire at_, translateSwap wire at_ = .ok s)
    (htoken : ∀ s ∈ swaps, ∀ s' ∈ swaps, Swap.bToA s → Swap.bToA s' →
      s.feeTokenIsA = s'.feeTokenIsA)
    (hinput : ∀ s ∈ swaps, Swap.feeInBOnBuys s → Swap.fee s ≤ Swap.amountB s)
    (hq : q.Positive) (hvalued : (pool5min (swapEvents5min swaps) q).valued) :
    let t := swapEvents5min swaps
    ∃ ga gb fees lp protocol referral : ℚ,
      (pool5min t q).volumeInAUsd = some ga ∧ (pool5min t q).volumeInBUsd = some gb ∧
      (pool5min t q).feesUsd = some fees ∧ (pool5min t q).lpFeesUsd = some lp ∧
      (pool5min t q).protocolFeesUsd = some protocol ∧
      (pool5min t q).referralFeesUsd = some referral ∧
      0 ≤ ga ∧ 0 ≤ gb ∧ 0 ≤ lp ∧ 0 ≤ protocol ∧ 0 ≤ referral ∧ lp + protocol + referral = fees ∧
      ((q.trust ≠ some .b → (∃ s ∈ swaps, Swap.bToA s ∧ Swap.fee s ≠ 0) →
          ∃ s ∈ swaps, Swap.bToA s ∧ Swap.amountB s ≠ 0) →
        (q.trust ≠ some .both → fees ≤ ga + gb) ∧
        (q.trust = some .both → ∃ highA highB, greatest (t.aToBByA q) (t.aToBByB q) = some highA ∧
          greatest (t.bToAByB q) (t.bToAByA q) = some highB ∧ fees ≤ highA + highB)) := by
  intro t
  have hsound : t.Sound := swapEvents5min_sound htranslated htoken hinput
  obtain ⟨ga, gb, fees, lp, protocol, referral, hga, hgb, hfees, hlp, hprotocol, hreferral, hga0, hgb0,
    hlp0, hprotocol0, hreferral0, hsum, hbound⟩ := hsound.pool5min hq hvalued
  refine ⟨ga, gb, fees, lp, protocol, referral, hga, hgb, hfees, hlp, hprotocol, hreferral, hga0, hgb0,
    hlp0, hprotocol0, hreferral0, hsum, ?_⟩
  intro hpaid
  apply hbound
  intro htrust hfee
  apply volumeInB_ne_zero
  apply hpaid htrust
  exact feeInA_paid htranslated hfee

def sampledPosition : EventPosition := ⟨zeroSignature, 0, 0, none, 0⟩

/-- A swap of a direction and a fee mode, of what goes in, what comes out and its claiming fee. -/
def sampledWire (direction mode : UInt8) (amountIn amountOut fee : UInt64) : EvtSwap2 where
  pool := zeroPubkey
  tradeDirection := direction
  collectFeeMode := mode
  hasReferral := false
  params := ⟨0, 0, 0⟩
  swapResult := ⟨0, 0, 0, 0, 0, fee, 0, 0, 0⟩
  includedTransferFeeAmountIn := amountIn
  includedTransferFeeAmountOut := amountOut
  excludedTransferFeeAmountOut := amountOut
  currentTimestamp := 0
  reserveAAmount := 0
  reserveBAmount := 0

def translated (wires : List EvtSwap2) : List MeteoraDammV2SwapEvent :=
  wires.filterMap (fun wire => (translateSwap wire sampledPosition).toOption)

theorem translated_ok {wires : List EvtSwap2} :
    ∀ s ∈ translated wires, ∃ wire at_, translateSwap wire at_ = .ok s := by
  intro s hs
  obtain ⟨wire, -, hwire⟩ := List.mem_filterMap.mp hs
  refine ⟨wire, sampledPosition, ?_⟩
  cases h : translateSwap wire sampledPosition with
  | error e =>
    rw [h] at hwire
    cases hwire
  | ok e =>
    rw [h] at hwire
    rw [Option.some.inj hwire]

/-- Swaps of one fee token a direction, input fees within their input, and fees past the gross. -/
def FeesExceed (wires : List EvtSwap2) (q : Quoted) (gross fees : ℚ) : Prop :=
  (∀ s ∈ translated wires, ∀ s' ∈ translated wires, Swap.bToA s → Swap.bToA s' →
    s.feeTokenIsA = s'.feeTokenIsA) ∧
  (∀ s ∈ translated wires, Swap.feeInBOnBuys s → Swap.fee s ≤ Swap.amountB s) ∧ q.Positive ∧
  (pool5min (swapEvents5min (translated wires)) q).valued ∧
  Option.map₂ (· + ·) (pool5min (swapEvents5min (translated wires)) q).volumeInAUsd
    (pool5min (swapEvents5min (translated wires)) q).volumeInBUsd = some gross ∧
  (pool5min (swapEvents5min (translated wires)) q).feesUsd = some fees ∧ gross < fees

theorem positive_of {decA decB : Option Int} {a b : Option ℚ} {anchor : Option Token}
    (ha : a.all (0 < ·)) (hb : b.all (0 < ·)) : (⟨decA, decB, a, b, anchor⟩ : Quoted).Positive := by
  refine ⟨?_, ?_⟩
  · intro p hp
    change a = some p at hp
    rw [hp] at ha
    exact of_decide_eq_true ha
  · intro p hp
    change b = some p at hp
    rw [hp] at hb
    exact of_decide_eq_true hb

/-- On a tie, a sale whose output fee is dear beside its input, and a dust purchase taken whole as
fee; and with A trusted, a purchase that puts nothing in and pays a fee. -/
theorem pool5min_fees_exceed :
    FeesExceed [sampledWire 0 1 1000 990 10] ⟨some 0, some 0, some (1 / 1000), some 1, none⟩ 1 10 ∧
    FeesExceed [sampledWire 1 1 1 0 1] ⟨some 0, some 0, some 1, some 1, none⟩ 0 1 ∧
    FeesExceed [sampledWire 1 0 0 0 5] ⟨some 0, none, some 1, none, none⟩ 0 5 :=
  ⟨⟨by decide +kernel, by decide +kernel, positive_of (by decide +kernel) (by decide +kernel),
      by decide +kernel, by decide +kernel, by decide +kernel, by decide +kernel⟩,
    ⟨by decide +kernel, by decide +kernel, positive_of (by decide +kernel) (by decide +kernel),
      by decide +kernel, by decide +kernel, by decide +kernel, by decide +kernel⟩,
    ⟨by decide +kernel, by decide +kernel, positive_of (by decide +kernel) (by decide +kernel),
      by decide +kernel, by decide +kernel, by decide +kernel, by decide +kernel⟩⟩

/-- A sale and a purchase of a pool that pays in both tokens, B the anchor at $2. -/
theorem pool5min_fees_traded :
    ∃ ga gb fees : ℚ,
      (pool5min (swapEvents5min (translated [sampledWire 0 0 1000 990 10,
        sampledWire 1 0 500 495 5])) ⟨some 6, some 2, none, some 2, some .b⟩).volumeInAUsd =
          some ga ∧
      (pool5min (swapEvents5min (translated [sampledWire 0 0 1000 990 10,
        sampledWire 1 0 500 495 5])) ⟨some 6, some 2, none, some 2, some .b⟩).volumeInBUsd =
          some gb ∧
      (pool5min (swapEvents5min (translated [sampledWire 0 0 1000 990 10,
        sampledWire 1 0 500 495 5])) ⟨some 6, some 2, none, some 2, some .b⟩).feesUsd =
          some fees ∧ fees ≤ ga + gb := by
  obtain ⟨ga, gb, fees, -, -, -, hga, hgb, hfees, -, -, -, -, -, -, -, -, -, hbound⟩ :=
    @pool5min_fees (translated [sampledWire 0 0 1000 990 10, sampledWire 1 0 500 495 5])
      ⟨some 6, some 2, none, some 2, some .b⟩ translated_ok (by decide +kernel)
      (by decide +kernel) (positive_of (by decide +kernel) (by decide +kernel)) (by decide +kernel)
  exact ⟨ga, gb, fees, hga, hgb, hfees, (hbound (by decide +kernel)).1 (by decide +kernel)⟩

end YogSothoth.Analytic
