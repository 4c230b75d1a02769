import YogSothoth.Analytic.HourlySums
import YogSothoth.Analytic.SwapActivity
import YogSothoth.Framework.Fallible

namespace YogSothoth.Analytic

open RunSplit (timeBucket)

section Grid

variable {width h b origin : Int}

/-- A bucket is the one aligned on the origin that holds the instant. -/
theorem timeBucket_eq_iff (hwidth : 0 < width) :
    timeBucket width h origin = b ↔ b ≤ h ∧ h < b + width ∧ width ∣ b - origin := by
  have hnonneg : 0 ≤ (h - origin) % width := Int.emod_nonneg _ hwidth.ne'
  have hlt : (h - origin) % width < width := Int.emod_lt_of_pos _ hwidth
  have hdvd : width ∣ timeBucket width h origin - origin := by
    have hself : width ∣ h - origin - (h - origin) % width := Int.dvd_self_sub_emod
    have heq : timeBucket width h origin - origin = h - origin - (h - origin) % width := by
      unfold timeBucket
      omega
    rw [heq]
    exact hself
  constructor
  · intro heq
    rw [← heq]
    refine ⟨?_, ?_, hdvd⟩
    · unfold timeBucket
      omega
    · unfold timeBucket
      omega
  · intro ⟨hle, hend, hb⟩
    have hzero : timeBucket width h origin - b = 0 := by
      apply Int.eq_zero_of_abs_lt_dvd (m := width)
      · have hsub := dvd_sub hdvd hb
        rwa [sub_sub_sub_cancel_right] at hsub
      · unfold timeBucket
        rw [abs_lt]
        omega
    omega

/-- The buckets aligned on the end of a period that lie in it. -/
def FrozenPeriod.buckets (period : FrozenPeriod) (width : Int) : List Int :=
  series period.from_ (period.asOf - width) width

variable {period : FrozenPeriod}

theorem mem_buckets (hwidth : 0 < width) (hdvd : width ∣ period.asOf - period.from_) :
    b ∈ period.buckets width ↔
      period.from_ ≤ b ∧ b + width ≤ period.asOf ∧ width ∣ b - period.asOf := by
  have hiff : (b - period.from_) % width = 0 ↔ width ∣ b - period.asOf := by
    rw [← Int.dvd_iff_emod_eq_zero]
    have hadd := dvd_add_left (a := width) (b := b - period.asOf) hdvd
    rw [← hadd]
    have heq : b - period.asOf + (period.asOf - period.from_) = b - period.from_ := by ring
    rw [heq]
  unfold FrozenPeriod.buckets
  rw [mem_series hwidth, hiff]
  have hend : b ≤ period.asOf - width ↔ b + width ≤ period.asOf := by omega
  rw [hend]

theorem buckets_sorted (period : FrozenPeriod) (hwidth : 0 < width) :
    (period.buckets width).Pairwise (· < ·) := by
  unfold FrozenPeriod.buckets series
  split_ifs
  · exact List.Pairwise.nil
  · rw [List.pairwise_map]
    apply List.pairwise_lt_range.imp
    intro i j hij
    have hcast : (i : Int) < j := by exact_mod_cast hij
    have hmul := Int.mul_lt_mul_of_pos_right hcast hwidth
    omega

/-- An hour of the period falls in one of its buckets. -/
theorem timeBucket_mem (hwidth : 0 < width) (hdvd : width ∣ period.asOf - period.from_)
    (hfrom : period.from_ ≤ h) (hasOf : h < period.asOf) :
    timeBucket width h period.asOf ∈ period.buckets width := by
  obtain ⟨hle, hend, hb⟩ := (timeBucket_eq_iff hwidth).mp (rfl :
    timeBucket width h period.asOf = timeBucket width h period.asOf)
  have hgrid (x : Int) (hx : width ∣ x) (hpos : 0 < x) : width ≤ x := Int.le_of_dvd hpos hx
  rw [mem_buckets hwidth hdvd]
  refine ⟨?_, ?_, hb⟩
  · by_contra hbefore
    have hsum := dvd_add hb hdvd
    have hle' := hgrid (period.from_ - timeBucket width h period.asOf)
      (by
        have hneg := (dvd_neg (a := width)).mpr hsum
        have heq : -(timeBucket width h period.asOf - period.asOf + (period.asOf - period.from_)) =
          period.from_ - timeBucket width h period.asOf := by ring
        rwa [heq] at hneg) (by omega)
    omega
  · have hneg := (dvd_neg (a := width)).mpr hb
    rw [neg_sub] at hneg
    have hle' := hgrid _ hneg (by omega)
    omega

/-- The buckets aligned on the end of a period partition its hours. -/
theorem buckets_partition (hwidth : 0 < width) (hdvd : width ∣ period.asOf - period.from_)
    (hfrom : period.from_ ≤ h) (hasOf : h < period.asOf) :
    ∃! b, b ∈ period.buckets width ∧ b ≤ h ∧ h < b + width := by
  obtain ⟨hle, hend, -⟩ := (timeBucket_eq_iff hwidth).mp (rfl :
    timeBucket width h period.asOf = timeBucket width h period.asOf)
  refine ⟨timeBucket width h period.asOf, ⟨timeBucket_mem hwidth hdvd hfrom hasOf, hle, hend⟩, ?_⟩
  intro b ⟨hb, hble, hbend⟩
  have hgrid := ((mem_buckets hwidth hdvd).mp hb).2.2
  exact ((timeBucket_eq_iff hwidth).mpr ⟨hble, hbend, hgrid⟩).symm

/-- A sorted list without repeats is what its members say. -/
theorem sorted_eq_buckets {starts : List Int} (hwidth : 0 < width) {p : Int → Bool}
    (h : ∀ b, b ∈ starts ↔ b ∈ period.buckets width ∧ p b) :
    starts.dedup.insertionSort (· ≤ ·) = (period.buckets width).filter p := by
  have hsorted := List.pairwise_insertionSort (· ≤ ·) starts.dedup
  have hnodup : (starts.dedup.insertionSort (· ≤ ·)).Nodup :=
    ((List.perm_insertionSort _ _).nodup_iff).mpr (List.nodup_dedup starts)
  have hlt : (starts.dedup.insertionSort (· ≤ ·)).Pairwise (· < ·) :=
    (hsorted.and hnodup).imp (fun hab => lt_of_le_of_ne hab.1 hab.2)
  apply hlt.eq_of_mem_iff ((buckets_sorted period hwidth).filter p)
  intro b
  rw [List.mem_insertionSort, List.mem_dedup, h, List.mem_filter]

end Grid

end YogSothoth.Analytic
