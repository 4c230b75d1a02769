import YogSothoth.Analytic.Hourly
import YogSothoth.Analytic.RunCycles

namespace YogSothoth.Analytic

open Hourly

variable {P : Type*}

theorem hourOf_eq_iff {b h : Int} (hh : h % hour = 0) : hourOf b = h ↔ h ≤ b ∧ b < h + hour := by
  simp only [hourOf, durationTrunc, hour_eq] at *
  omega

theorem mem_hours {start through h : Int} (hs : start % hour = 0) :
    h ∈ series start through hour ↔ start ≤ h ∧ h ≤ through ∧ h % hour = 0 := by
  rw [mem_series (by decide)]
  simp only [hour_eq] at *
  omega

theorem keyed_map {K V : Type*} [LinearOrder K] (keys : List K) (row : K → V) :
    OrdMap.Keyed (keys.map (fun k => (k, row k))) := by
  rintro a ha b hb hab
  obtain ⟨k, -, rfl⟩ := List.mem_map.mp ha
  obtain ⟨k', -, rfl⟩ := List.mem_map.mp hb
  obtain rfl : k = k' := hab
  rfl

/-- One row a key upserted: the keys listed read their row, the others are left. -/
theorem get?_upsertAll_map {K V : Type*} [LinearOrder K] (m : OrdMap K V) (keys : List K)
    (row : K → V) (k : K) : (m.upsertAll (keys.map (fun k => (k, row k)))).get? k =
      if k ∈ keys then some (row k) else m.get? k := by
  apply Option.ext
  intro v
  rw [OrdMap.get?_upsertAll (keyed_map keys row)]
  simp only [List.mem_map, Prod.mk.injEq]
  split_ifs with hk
  · constructor
    · rintro (⟨k', -, rfl, rfl⟩ | ⟨hnone, -⟩)
      · rfl
      · exact absurd ⟨k, hk, rfl, rfl⟩ (hnone (row k))
    · intro hv
      exact Or.inl ⟨k, hk, rfl, Option.some.inj hv⟩
  · constructor
    · rintro (⟨k', hk', rfl, -⟩ | ⟨-, hv⟩)
      · exact absurd hk' hk
      · exact hv
    · intro hv
      refine Or.inr ⟨?_, hv⟩
      rintro w ⟨k', hk', rfl, -⟩
      exact hk hk'

section Rows

variable [LinearOrder P]

/-- The facts of a pool's hour. -/
def hourFacts (facts : List (PoolFact P)) (k : P ×ₗ Int) : List (PoolFact P) :=
  facts.filter (fun f => hourKey f = k)

/-- A pool's hour, where the pool has a fact in it. -/
def poolHourOf (facts : List (PoolFact P)) (k : P ×ₗ Int) : Option PoolHour :=
  if hourFacts facts k = [] then none else some (poolHour (hourFacts facts k))

/-- The rows of an hour's pools. -/
def hourPools (pools : OrdMap (P ×ₗ Int) PoolHour) (h : Int) : List PoolHour :=
  (pools.entries.filter (fun e => (ofLex e.1).2 = h)).map Prod.snd

variable {facts : List (PoolFact P)} {start through : Int}

theorem mem_hourFacts {f : PoolFact P} {k : P ×ₗ Int} :
    f ∈ hourFacts facts k ↔ f ∈ facts ∧ f.pool = (ofLex k).1 ∧ hourOf f.bucket = (ofLex k).2 := by
  have hk : hourKey f = k ↔ f.pool = (ofLex k).1 ∧ hourOf f.bucket = (ofLex k).2 :=
    ⟨fun h => h ▸ ⟨rfl, rfl⟩, fun h => congrArg toLex (Prod.ext h.1 h.2)⟩
  simp only [hourFacts, List.mem_filter, decide_eq_true_eq, hk]

theorem selected_iff (hs : start % hour = 0) (ht : through % hour = 0) (b : Int) :
    (start ≤ b ∧ b < through + hour) ↔ start ≤ hourOf b ∧ hourOf b ≤ through := by
  simp only [hourOf, durationTrunc, hour_eq] at *
  omega

theorem selected_filter (hs : start % hour = 0) (ht : through % hour = 0) (k : P ×ₗ Int) :
    (selected facts start through).filter (fun f => hourKey f = k) =
      if start ≤ (ofLex k).2 ∧ (ofLex k).2 ≤ through then hourFacts facts k else [] := by
  have hkey : ∀ f : PoolFact P, hourKey f = k → hourOf f.bucket = (ofLex k).2 :=
    fun f hf => congrArg (fun k => (ofLex k).2) hf
  rw [selected, List.filter_filter]
  split_ifs with h
  · apply List.filter_congr
    intro f _
    simp only [selected_iff hs ht, Bool.and_eq_left_iff_imp, decide_eq_true_eq]
    intro hf
    rwa [hkey f hf]
  · rw [List.filter_eq_nil_iff]
    intro f _
    simp only [selected_iff hs ht, Bool.and_eq_true, decide_eq_true_eq, not_and]
    intro hf
    rw [hkey f hf]
    exact not_and.mp h

theorem mem_selected_keys (hs : start % hour = 0) (ht : through % hour = 0) (k : P ×ₗ Int) :
    k ∈ ((selected facts start through).map hourKey).dedup ↔
      (start ≤ (ofLex k).2 ∧ (ofLex k).2 ≤ through) ∧ hourFacts facts k ≠ [] := by
  have hne : k ∈ ((selected facts start through).map hourKey).dedup ↔
      (selected facts start through).filter (fun f => hourKey f = k) ≠ [] := by
    rw [List.mem_dedup, List.mem_map, ne_eq, List.filter_eq_nil_iff]
    simp only [decide_eq_true_eq, not_forall, not_not, exists_prop]
  rw [hne, selected_filter hs ht]
  split_ifs with h
  · simp only [ne_eq, h, and_self, true_and]
  · simp only [ne_eq, not_true_eq_false, h, false_and]

/-- The hours from `start` through `through` are rewritten from their facts, the others left. -/
theorem get?_upsertPoolHourly (hs : start % hour = 0) (ht : through % hour = 0)
    (hourly : OrdMap (P ×ₗ Int) PoolHour) (k : P ×ₗ Int) :
    (upsertPoolHourly hourly facts start through).get? k =
      if (start ≤ (ofLex k).2 ∧ (ofLex k).2 ≤ through) ∧ hourFacts facts k ≠ [] then
        some (poolHour (hourFacts facts k)) else hourly.get? k := by
  rw [upsertPoolHourly, poolRows, get?_upsertAll_map]
  simp only [mem_selected_keys hs ht]
  split_ifs with h
  · rw [selected_filter hs ht, if_pos h.1]
  · rfl

theorem hourRows_eq (pools : OrdMap (P ×ₗ Int) PoolHour) {h : Int} (hs : start ≤ h)
    (ht : h ≤ through) : Hourly.hourRows pools start through h = hourPools pools h := by
  rw [Hourly.hourRows, hourPools]
  congr 1
  apply List.filter_congr
  intro e _
  simp only [decide_eq_decide, and_iff_right_iff_imp]
  rintro rfl
  exact ⟨hs, ht⟩

theorem get?_upsertProtocolHourly (hs : start % hour = 0) (hourly : OrdMap Int ProtocolHour)
    (pools : OrdMap (P ×ₗ Int) PoolHour) (h : Int) :
    (upsertProtocolHourly hourly pools start through).get? h =
      if start ≤ h ∧ h ≤ through ∧ h % hour = 0 then some (protocolHour (hourPools pools h))
      else hourly.get? h := by
  rw [upsertProtocolHourly, get?_upsertAll_map]
  simp only [mem_hours hs]
  split_ifs with hin
  · rw [hourRows_eq pools hin.1 hin.2.1]
  · rfl

end Rows

theorem get?_upsertLiquidityHourly {start through : Int} (hs : start % hour = 0)
    (hourly : OrdMap Int LiquidityHour) (moves : List LiquidityMove) (next h : Int) :
    (upsertLiquidityHourly hourly moves start through next).get? h =
      if (start ≤ h ∧ h ≤ through ∧ h % hour = 0) ∧ liquidityFloor hourly next ≤ h then
        some (liquidityHour (moves.filter (fun m => h ≤ m.timestamp ∧ m.timestamp < h + hour)))
      else hourly.get? h := by
  rw [upsertLiquidityHourly, get?_upsertAll_map]
  simp only [List.mem_filter, mem_hours hs, decide_eq_true_eq]

end YogSothoth.Analytic
