import YogSothoth.Analytic.SplitBars
import YogSothoth.Analytic.SwapBuckets
import YogSothoth.Core.Decimals

namespace YogSothoth.Analytic

open Hourly

def ProtocolColumn.field : ProtocolColumn → String
  | volume => "volume_usd"
  | fees => "fees_usd"
  | lpFees => "lp_fees_usd"
  | protocolFees => "protocol_fees_usd"
  | referralFees => "referral_fees_usd"

/-- The exact sum of a column over the pool-hours valued. -/
def valuedSum (rows : List PoolHour) (c : ProtocolColumn) : ℚ :=
  ((rows.filterMap PoolHour.usd).map c.of).sum

/-- What a figure over some pool-hours says: unknown when there are some and none is valued, else
the sum of those that are; the counts are plain sums. -/
structure Folds (decimal : ℚ → String → Except RepositoryError ℚ) (rows : List PoolHour)
    (a : SwapActivity) : Prop where
  unknown : ∀ c, a.usd c = none ↔ rows ≠ [] ∧ ∀ r ∈ rows, r.valued = false
  known : ∀ c v, a.usd c = some v → decimal (valuedSum rows c) c.field = .ok v
  swaps : a.swaps = (rows.map PoolHour.swapCount).sum
  poolHours : a.poolHours = rows.length
  poolHoursValued : a.poolHoursValued = rows.countP PoolHour.valued

/-- A `NUMERIC` is read exactly where a `Decimal` holds it. -/
def ReadsHeld (decimal : ℚ → String → Except RepositoryError ℚ) : Prop :=
  ∀ (d : Decimal) field, decimal d.value field = .ok d.value

/-- A number as it is. -/
def asIs (value : ℚ) (_ : String) : Except RepositoryError ℚ := .ok value

section Columns

variable {decimal : ℚ → String → Except RepositoryError ℚ} {rows : List PoolHour}
  {row a : SwapActivity}

theorem tryFrom_ok (h : SwapActivity.tryFrom decimal row = .ok a) :
    a.swaps = row.swaps ∧ a.poolHours = row.poolHours ∧
      a.poolHoursValued = row.poolHoursValued ∧
      ∀ c, RunSplit.convertOptional decimal (row.usd c) c.field = .ok (a.usd c) := by
  unfold SwapActivity.tryFrom at h
  obtain ⟨volume, hvolume, h⟩ := bind_eq_ok h
  obtain ⟨fees, hfees, h⟩ := bind_eq_ok h
  obtain ⟨lpFees, hlpFees, h⟩ := bind_eq_ok h
  obtain ⟨protocolFees, hprotocolFees, h⟩ := bind_eq_ok h
  obtain ⟨referralFees, hreferralFees, h⟩ := bind_eq_ok h
  have ha := Except.ok.inj h
  rw [← ha]
  refine ⟨rfl, rfl, rfl, ?_⟩
  intro c
  cases c with
  | volume => exact hvolume
  | fees => exact hfees
  | lpFees => exact hlpFees
  | protocolFees => exact hprotocolFees
  | referralFees => exact hreferralFees

theorem convertOptional_none {value : Option ℚ} {field : String} {read : Option ℚ}
    (h : RunSplit.convertOptional decimal value field = .ok read) : read = none ↔ value = none := by
  cases value with
  | none =>
    have hread := Except.ok.inj h
    rw [← hread]
  | some w =>
    obtain ⟨v, hv, -⟩ := RunSplit.convertOptional_of_some h
    rw [hv]
    simp

/-- A row read says of its pool-hours what the row does. -/
theorem Folds.tryFrom (h : Folds asIs rows row) (hread : SwapActivity.tryFrom decimal row = .ok a) :
    Folds decimal rows a := by
  obtain ⟨hswaps, hhours, hvalued, husd⟩ := tryFrom_ok hread
  refine ⟨?_, ?_, hswaps.trans h.swaps, hhours.trans h.poolHours, hvalued.trans h.poolHoursValued⟩
  · intro c
    rw [convertOptional_none (husd c)]
    exact h.unknown c
  · intro c v hv
    have hc := husd c
    rw [hv] at hc
    obtain ⟨w, hrow, hdecimal⟩ := RunSplit.convertOptional_some hc
    have hw : valuedSum rows c = w := Except.ok.inj (h.known c w hrow)
    rw [hw]
    exact hdecimal

end Columns

/-- A figure known is the exact sum, where a `Decimal` holds it. -/
theorem Folds.exact {decimal : ℚ → String → Except RepositoryError ℚ} {rows : List PoolHour}
    {a : SwapActivity} (h : Folds decimal rows a) (hdecimal : ReadsHeld decimal)
    {c : ProtocolColumn} {v : ℚ} (hv : a.usd c = some v) {d : Decimal}
    (hd : d.value = valuedSum rows c) : v = valuedSum rows c := by
  have hread := h.known c v hv
  rw [← hd, hdecimal d c.field] at hread
  rw [← hd]
  exact (Except.ok.inj hread).symm

section Sums

variable {rows : List PoolHour}

theorem valuedSum_eq (rows : List PoolHour) (c : ProtocolColumn) :
    valuedSum rows c = (rows.map (fun r => (r.usd.map c.of).getD 0)).sum := by
  unfold valuedSum
  induction rows with
  | nil => rfl
  | cons r rows ih =>
    cases husd : r.usd with
    | none => simp [husd, ih]
    | some u => simp [husd, ih]

theorem column_eq_none {r : PoolHour} {c : ProtocolColumn} :
    r.usd.map c.of = none ↔ r.valued = false := by
  unfold PoolHour.valued
  cases r.usd with
  | none => simp
  | some u => simp

theorem columns_eq_none {c : ProtocolColumn} :
    (∀ x ∈ rows.map (fun r => r.usd.map c.of), x = none) ↔ ∀ r ∈ rows, r.valued = false := by
  rw [List.forall_mem_map]
  simp only [column_eq_none]

theorem sumFacts_usd (rows : List PoolHour) (c : ProtocolColumn) :
    (SwapActivity.sumFacts rows).usd c = sumOrZero (rows.map (fun r => r.usd.map c.of)) := by
  cases rows with
  | nil => rfl
  | cons r rows => rfl

theorem protocolHour_usd (rows : List PoolHour) (c : ProtocolColumn) :
    (protocolHour rows).usd c = sumOrZero (rows.map (fun r => r.usd.map c.of)) := by
  cases rows with
  | nil => rfl
  | cons r rows => rfl

/-- Facts summed, 0 only without any, fold them. -/
theorem sumFacts_folds (rows : List PoolHour) : Folds asIs rows (SwapActivity.sumFacts rows) := by
  refine ⟨?_, ?_, rfl, rfl, rfl⟩
  · intro c
    rw [sumFacts_usd, sumOrZero_eq_none, columns_eq_none, ne_eq, List.map_eq_nil_iff]
  · intro c v hv
    rw [sumFacts_usd] at hv
    have hsum := sumOrZero_getD (rows.map (fun r => r.usd.map c.of))
    rw [hv, List.map_map] at hsum
    unfold asIs
    rw [valuedSum_eq]
    exact congrArg Except.ok hsum.symm

theorem ofFact_eq (fact : Option PoolHour) :
    SwapActivity.ofFact fact = SwapActivity.sumFacts fact.toList := by
  cases fact with
  | none => rfl
  | some r =>
    unfold SwapActivity.ofFact SwapActivity.sumFacts
    congr 1
    · simp
    · funext c
      change r.usd.map c.of = sumOption [r.usd.map c.of]
      unfold sumOption
      cases r.usd with
      | none => rfl
      | some u => simp
    · cases hvalued : r.valued with
      | false => simp [hvalued]
      | true => simp [hvalued]

theorem ofHour_eq (rows : List PoolHour) :
    SwapActivity.ofHour (protocolHour rows) = SwapActivity.sumFacts rows := by
  unfold SwapActivity.ofHour SwapActivity.sumFacts
  congr 1
  funext c
  rw [protocolHour_usd]
  exact (sumFacts_usd rows c).symm

end Sums

end YogSothoth.Analytic
