import YogSothoth.Analytic.Run

namespace YogSothoth.Analytic

section Grains

theorem durationTrunc_mono {a b span : Int} (h : 0 < span) (hab : a ≤ b) :
    durationTrunc a span ≤ durationTrunc b span := by
  have ha : durationTrunc a span = span * (a / span) := by
    have := Int.mul_ediv_add_emod a span
    unfold durationTrunc
    omega
  have hb : durationTrunc b span = span * (b / span) := by
    have := Int.mul_ediv_add_emod b span
    unfold durationTrunc
    omega
  rw [ha, hb]
  exact Int.mul_le_mul_of_nonneg_left (Int.ediv_le_ediv h hab) h.le

/-- A multiple at or before an instant is at or before its truncation. -/
theorem le_durationTrunc {a t span : Int} (h : 0 < span) (ha : a % span = 0) (hat : a ≤ t) :
    a ≤ durationTrunc t span := by
  have hself : durationTrunc a span = a := by
    unfold durationTrunc
    omega
  rw [← hself]
  exact durationTrunc_mono h hat

theorem trancheOf_le (t : Int) : trancheOf t ≤ t := durationTrunc_le t tranche (by decide)

theorem hourOf_sub_hour (t : Int) : hourOf (t - hour) = hourOf t - hour := by
  simp only [hourOf, durationTrunc, hour_eq]
  omega

theorem trancheOf_sub_tranche (t : Int) : trancheOf (t - tranche) = trancheOf t - tranche := by
  simp only [trancheOf, durationTrunc, tranche_eq]
  omega

/-- The tranche an instant is in is in the instant's hour. -/
theorem hourOf_trancheOf (t : Int) : hourOf (trancheOf t) = hourOf t := by
  simp only [hourOf, trancheOf, durationTrunc, hour_eq, tranche_eq]
  omega

theorem series_length (start stop : Int) {step : Int} (h : 0 < step) :
    (series start stop step).length = ((stop - start) / step + 1).toNat := by
  unfold series
  split_ifs with hlt
  · have hneg : (stop - start) / step < 0 := Int.ediv_neg_of_neg_of_pos (by omega) h
    rw [List.length_nil]
    omega
  · rw [List.length_map, List.length_range]

end Grains

/-- The last hour closed for longer than the margin. -/
def closedHour (now : Int) : Int := hourOf (now - hour - freezeMargin)

/-- The last tranche closed for longer than the margin. -/
def closedTranche (now : Int) : Int := trancheOf (now - tranche - freezeMargin)

theorem closedHour_eq (now : Int) : closedHour now = hourOf (now - freezeMargin) - hour := by
  have hswap : now - hour - freezeMargin = now - freezeMargin - hour := by omega
  rw [closedHour, hswap, hourOf_sub_hour]

theorem closedTranche_eq (now : Int) :
    closedTranche now = trancheOf (now - freezeMargin) - tranche := by
  have hswap : now - tranche - freezeMargin = now - freezeMargin - tranche := by omega
  rw [closedTranche, hswap, trancheOf_sub_tranche]

/-- The hour is closed when its last tranche is. -/
theorem closedHour_eq_of_tranche (now : Int) :
    closedHour now = hourOf (closedTranche now + tranche) - hour := by
  rw [closedTranche_eq, Int.sub_add_cancel, hourOf_trancheOf, closedHour_eq]

theorem closedHour_le_hourOf (now : Int) : closedHour now ≤ hourOf now := by
  apply durationTrunc_mono (by decide)
  simp only [hour_eq, freezeMargin, minutes]
  omega

section Plan

variable {db : Tables} {first : Int} {n : Nat} {now : Int}

theorem plan_start (now : Int) (progress : AnalyticProgress) :
    (CycleWrite.plan now progress).from_ = CycleWrite.planFrom (hourOf now) progress := by
  change (CycleWrite.due now progress).fromAfter progress = _
  unfold CycleWrite.fromAfter
  cases hfrozen : progress.lastFrozen with
  | none => rfl
  | some frozen =>
    have hfrom : (CycleWrite.due now progress).from_ = frozen + hour := by
      change CycleWrite.planFrom (hourOf now) progress = _
      rw [planFrom_eq, hfrozen]
      rfl
    have hfrom' : CycleWrite.planFrom (hourOf now) progress = frozen + hour := hfrom
    simp only [hfrom, hfrom', max_self]

/-- The plan starts at the next tranche. -/
theorem Grid.due_tranchesFrom (hg : Grid db first n)
    (hfirst : db.progress.firstHour.getD (hourOf now) = first) :
    (CycleWrite.due now db.progress).tranchesFrom = first + (n : Int) * tranche := by
  have hready := hg.due hfirst
  change db.progress.lastTranche.elim (CycleWrite.planFrom (hourOf now) db.progress) (· + tranche) = _
  rw [hg.lastTranche]
  split_ifs with hn
  · have hle := hready.first_le
    have hge := hready.from_le
    rw [hn] at hge ⊢
    change CycleWrite.planFrom (hourOf now) db.progress = _
    change first ≤ CycleWrite.planFrom (hourOf now) db.progress at hle
    change CycleWrite.planFrom (hourOf now) db.progress ≤ _ at hge
    simp only [tranche_eq] at *
    omega
  · simp only [Option.elim_some, tranche_eq]
    omega

theorem Grid.due_tranchesThrough (hg : Grid db first n)
    (hfirst : db.progress.firstHour.getD (hourOf now) = first) :
    (CycleWrite.due now db.progress).tranchesThrough =
      min (closedTranche now) (first + (n : Int) * tranche + tranche * 71) := by
  have hfrom := hg.due_tranchesFrom hfirst
  change db.progress.lastTranche.elim (CycleWrite.planFrom (hourOf now) db.progress) (· + tranche) = _
    at hfrom
  change min (closedTranche now) (db.progress.lastTranche.elim
    (CycleWrite.planFrom (hourOf now) db.progress) (· + tranche) + tranche * 71) = _
  rw [hfrom]

/-- The last tranche there is once the cycle has written its own. -/
theorem Grid.due_tranchesWritten (hg : Grid db first n)
    (hfirst : db.progress.firstHour.getD (hourOf now) = first) :
    (CycleWrite.due now db.progress).tranchesWritten db.progress =
      if first + (n : Int) * tranche ≤ (CycleWrite.due now db.progress).tranchesThrough
      then some (CycleWrite.due now db.progress).tranchesThrough
      else db.progress.lastTranche := by
  have hfrom := hg.tranchesFromAfter (hg.due hfirst)
  unfold CycleWrite.tranchesWritten
  rw [hfrom]
  split_ifs with hadds
  · rw [Option.filter_some_pos (by simpa using hadds), hg.lastTranche]
    split_ifs with hn
    · rfl
    · change some (max _ _) = _
      rw [max_eq_left]
      simp only [tranche_eq] at *
      omega
  · rw [Option.filter_some_neg (by simpa using hadds)]
    rfl

/-- What the tranches complete is never short of what the clock and the cap let freeze. -/
theorem Grid.due_complete (hg : Grid db first n)
    (hfirst : db.progress.firstHour.getD (hourOf now) = first) {start : Int}
    (hstart : CycleWrite.planFrom (hourOf now) db.progress = start) :
    (∃ last, (CycleWrite.due now db.progress).tranchesWritten db.progress = some last ∧
      min (closedHour now) (start + hour * 5) ≤ hourOf (last + tranche) - hour) ∨
    ((CycleWrite.due now db.progress).tranchesWritten db.progress = none ∧
      closedHour now < start) := by
  have hready := hg.due hfirst
  have haligned : start % hour = 0 := hstart ▸ hready.fromAligned
  have hfromLe : start ≤ first + (n : Int) * tranche := hstart ▸ hready.from_le
  have hfirstLe : first ≤ start := hstart ▸ hready.first_le
  have hthrough := hg.due_tranchesThrough hfirst
  rw [hg.due_tranchesWritten hfirst, hthrough]
  split_ifs with hadds
  · refine .inl ⟨_, rfl, ?_⟩
    rcases le_total (closedTranche now) (first + (n : Int) * tranche + tranche * 71) with hcut | hcut
    · rw [min_eq_left hcut, ← closedHour_eq_of_tranche]
      exact min_le_left _ _
    · rw [min_eq_right hcut]
      have hcap : start + hour * 6 ≤
          hourOf (first + (n : Int) * tranche + tranche * 71 + tranche) := by
        apply le_durationTrunc (by decide)
        · simp only [hour_eq] at *
          omega
        · simp only [hour_eq, tranche_eq] at *
          omega
      have hmin := min_le_right (closedHour now) (start + hour * 5)
      simp only [hour_eq] at *
      omega
  · have hbehind : closedTranche now + tranche ≤ first + (n : Int) * tranche := by
      have hmod := durationTrunc_mod (now - tranche - freezeMargin) tranche
      change closedTranche now % tranche = 0 at hmod
      have hgrid := hg.aligned
      simp only [hour_eq, tranche_eq] at *
      omega
    have hhour : hourOf (closedTranche now + tranche) ≤ hourOf (first + (n : Int) * tranche) :=
      durationTrunc_mono (by decide) hbehind
    have hclosed := closedHour_eq_of_tranche now
    rw [hg.lastTranche]
    split_ifs with hn
    · refine .inr ⟨rfl, ?_⟩
      have hle := hourOf_le (first + (n : Int) * tranche)
      rw [hn] at hle hhour
      simp only [hour_eq, tranche_eq] at *
      omega
    · refine .inl ⟨_, rfl, ?_⟩
      have hlast : first + ((n : Int) - 1) * tranche + tranche = first + (n : Int) * tranche := by
        simp only [tranche_eq]
        omega
      rw [hlast]
      have hmin := min_le_left (closedHour now) (start + hour * 5)
      omega

/-- The plan freezes through the closed hour, six hours at most, whatever the tranches. -/
theorem Grid.plan_freezeThrough (hg : Grid db first n)
    (hfirst : db.progress.firstHour.getD (hourOf now) = first) {start : Int}
    (hstart : CycleWrite.planFrom (hourOf now) db.progress = start) :
    (CycleWrite.plan now db.progress).freezeThrough =
      if start ≤ min (closedHour now) (start + hour * 5)
      then some (min (closedHour now) (start + hour * 5)) else none := by
  have hfrom : (CycleWrite.due now db.progress).fromAfter db.progress = start :=
    (plan_start now db.progress).trans hstart
  have hclosed := closedHour_le_hourOf now
  have hthrough : (CycleWrite.due now db.progress).through = min (hourOf now) (start + hour * 5) := by
    change min (hourOf now) (CycleWrite.planFrom (hourOf now) db.progress + hour * 5) = _
    rw [hstart]
  change (((some (closedHour now)).bind (fun h =>
    (((CycleWrite.due now db.progress).tranchesWritten db.progress).map
      (fun last => hourOf (last + tranche) - hour)).map (fun complete => (h, complete)))).map
      (fun e => min (min e.1 (CycleWrite.due now db.progress).through) e.2)).filter
        (fun h => (CycleWrite.due now db.progress).fromAfter db.progress ≤ h) = _
  rw [hfrom, hthrough]
  cases hg.due_complete hfirst hstart with
  | inl h =>
    obtain ⟨last, hlast, hcomplete⟩ := h
    have hmin : min (min (closedHour now) (min (hourOf now) (start + hour * 5)))
        (hourOf (last + tranche) - hour) = min (closedHour now) (start + hour * 5) := by
      rw [← min_assoc, min_eq_left hclosed, min_eq_left hcomplete]
    rw [hlast]
    simp only [Option.map_some, Option.bind_some, hmin]
    split_ifs with hle
    · exact Option.filter_some_pos (decide_eq_true hle)
    · exact Option.filter_some_neg (by simpa using hle)
  | inr h =>
    obtain ⟨hnone, hlt⟩ := h
    have hnot : ¬start ≤ min (closedHour now) (start + hour * 5) := by
      intro hle
      exact absurd (hle.trans (min_le_left _ _)) (not_le.mpr hlt)
    rw [hnone, if_neg hnot]
    rfl

/-- The freeze of a cycle, given its end and what is complete. -/
def freezeWithin (start through : Int) (complete freeze : Option Int) : Option Int :=
  ((freeze.bind (fun h => complete.map (fun complete => (h, complete)))).map
    (fun e => min (min e.1 through) e.2)).filter (fun h => start ≤ h)

theorem freezeWithin_idem (start through : Int) (complete freeze : Option Int) :
    freezeWithin start through complete (freezeWithin start through complete freeze) =
      freezeWithin start through complete freeze := by
  cases freeze with
  | none => rfl
  | some closed =>
    cases complete with
    | none => rfl
    | some complete =>
      have hone (h : Int) : freezeWithin start through (some complete) (some h) =
          if start ≤ min (min h through) complete then some (min (min h through) complete)
          else none := by
        unfold freezeWithin
        simp only [Option.map_some, Option.bind_some, Option.filter_some, decide_eq_true_eq]
      rw [hone]
      split_ifs with hle
      · have hmin : min (min (min (min closed through) complete) through) complete =
            min (min closed through) complete := by omega
        rw [hone, hmin, if_pos hle]
      · rfl

/-- A cycle without what is written loses nothing more to the same tables. -/
theorem withoutWritten_idem (c : CycleWrite) (written : AnalyticProgress) :
    (c.withoutWritten written).withoutWritten written = c.withoutWritten written := by
  have hfrom : (c.withoutWritten written).fromAfter written = c.fromAfter written := by
    have hstart : (c.withoutWritten written).from_ = c.fromAfter written := rfl
    cases hfrozen : written.lastFrozen with
    | none => rw [CycleWrite.fromAfter, hfrozen, hstart]
    | some frozen =>
      rw [CycleWrite.fromAfter, hfrozen, hstart, CycleWrite.fromAfter, hfrozen]
      exact max_eq_left (le_max_right _ _)
  have htranches : (c.withoutWritten written).tranchesFromAfter written =
      c.tranchesFromAfter written := by
    unfold CycleWrite.tranchesFromAfter
    rw [hfrom]
    change (List.filterMap id _).foldl max (c.tranchesFromAfter written) = _
    unfold CycleWrite.tranchesFromAfter
    cases written.lastTranche with
    | none => exact max_eq_left (le_max_right _ _)
    | some last =>
      change max (max (max (max c.tranchesFrom _) _) _) _ = max (max c.tranchesFrom _) _
      omega
  have hwritten : (c.withoutWritten written).tranchesWritten written = c.tranchesWritten written := by
    unfold CycleWrite.tranchesWritten
    rw [htranches]
    rfl
  have hfreeze : ((c.withoutWritten written).withoutWritten written).freezeThrough =
      (c.withoutWritten written).freezeThrough := by
    change freezeWithin ((c.withoutWritten written).fromAfter written) c.through
      (((c.withoutWritten written).tranchesWritten written).map
        (fun last => hourOf (last + tranche) - hour)) (freezeWithin (c.fromAfter written) c.through
          ((c.tranchesWritten written).map (fun last => hourOf (last + tranche) - hour))
          c.freezeThrough) = _
    rw [hfrom, hwritten]
    exact freezeWithin_idem _ _ _ _
  have htvl : ((c.withoutWritten written).withoutWritten written).tvlHour =
      (c.withoutWritten written).tvlHour := by
    change ((c.tvlHour.filter _).filter _) = c.tvlHour.filter _
    rw [Option.filter_filter]
    simp only [Bool.and_self]
  change CycleWrite.mk _ _ _ _ _ _ _ = CycleWrite.mk _ _ _ _ _ _ _
  rw [CycleWrite.mk.injEq]
  exact ⟨htranches, rfl, hfrom, rfl, hfreeze, htvl, rfl⟩

end Plan

/-- The tables a plan reads are a grid from its first hour, or empty. -/
theorem Reachable.grid_from {W : Type*} [DecidableEq W] {s : State W} (h : Reachable s) (now : Int) :
    ∃ first n, Grid s.db first n ∧ s.db.progress.firstHour.getD (hourOf now) = first := by
  have hs := h.inv
  by_cases he : s.executed = []
  · refine ⟨hourOf now, 0, ?_, ?_⟩
    · rw [(hs.fresh he).1]
      exact Grid.empty (durationTrunc_mod now hour)
    · rw [(hs.fresh he).1]
      rfl
  · obtain ⟨first, n, hg, hf, -⟩ := hs.running he
    exact ⟨first, n, hg, by rw [hf, Option.getD_some]⟩

/-- The hours of a range of at most six, or of all there are. -/
theorem series_length_cap (start stop : Int) :
    (series start (min stop (start + hour * 5)) hour).length =
      min 6 (series start stop hour).length := by
  rw [series_length _ _ (by decide), series_length _ _ (by decide)]
  simp only [hour_eq]
  omega

/-- A plan on the tables of any run of cycles, at any clock: it freezes through the closed hour, six
hours at most and whatever the tranches; it values only closed tranches, seventy-two at most, and
all there are when the cap does not cut. -/
theorem Reachable.plan_exact {W : Type*} [DecidableEq W] {s : State W} (h : Reachable s)
    (now : Int) :
    let c := CycleWrite.plan now s.db.progress
    let start := CycleWrite.planFrom (hourOf now) s.db.progress
    let frozen := c.freezeThrough.elim [] (fun through => series c.from_ through hour)
    c.from_ = start ∧ c.withoutWritten s.db.progress = c ∧
    c.freezeThrough = (if start ≤ min (closedHour now) (start + hour * 5)
      then some (min (closedHour now) (start + hour * 5)) else none) ∧
    frozen.length = min 6 (series start (closedHour now) hour).length ∧
    (∀ t ∈ series c.tranchesFrom c.tranchesThrough tranche, t + tranche + freezeMargin ≤ now) ∧
    (∀ t ∈ frozen, t + hour + freezeMargin ≤ now) ∧
    (series c.tranchesFrom c.tranchesThrough tranche).length ≤ 72 ∧
    (series c.from_ c.through hour).length ≤ 6 ∧
    (closedTranche now ≤ c.tranchesFrom + tranche * 71 →
      c.tranchesThrough % tranche = 0 ∧ c.tranchesThrough + tranche + freezeMargin ≤ now ∧
      ∀ t, t % tranche = 0 → t + tranche + freezeMargin ≤ now → t ≤ c.tranchesThrough) := by
  intro c start frozen
  obtain ⟨first, n, hg, hfirst⟩ := h.grid_from now
  have hfrom : c.from_ = start := plan_start now s.db.progress
  have hstart : CycleWrite.planFrom (hourOf now) s.db.progress = start := rfl
  have hfreeze := hg.plan_freezeThrough hfirst hstart
  have htranches : c.tranchesFrom = first + (n : Int) * tranche :=
    hg.tranchesFromAfter (hg.due hfirst)
  have hthrough : c.tranchesThrough = min (closedTranche now) (c.tranchesFrom + tranche * 71) := by
    rw [htranches]
    exact hg.due_tranchesThrough hfirst
  have hhours : c.through = min (hourOf now) (start + hour * 5) := rfl
  have hclosedHour : closedHour now + hour + freezeMargin ≤ now := by
    have hle := hourOf_le (now - hour - freezeMargin)
    change closedHour now ≤ _ at hle
    omega
  have hclosedTranche : closedTranche now + tranche + freezeMargin ≤ now := by
    have hle := trancheOf_le (now - tranche - freezeMargin)
    change closedTranche now ≤ _ at hle
    omega
  have hfrozen : frozen = series start (min (closedHour now) (start + hour * 5)) hour := by
    change c.freezeThrough.elim [] (fun through => series c.from_ through hour) = _
    change c.freezeThrough = _ at hfreeze
    rw [hfreeze, hfrom]
    split_ifs with hle
    · rfl
    · rw [series, if_pos (not_le.mp hle)]
      rfl
  refine ⟨hfrom, withoutWritten_idem _ _, hfreeze, ?_, ?_, ?_, ?_, ?_, ?_⟩
  · rw [hfrozen]
    exact series_length_cap start (closedHour now)
  · intro t ht
    have hle := ((mem_series (by decide)).mp ht).2.1
    rw [hthrough] at hle
    have hmin := hle.trans (min_le_left _ _)
    omega
  · intro t ht
    rw [hfrozen] at ht
    have hmin := ((mem_series (by decide)).mp ht).2.1.trans (min_le_left _ _)
    omega
  · have hcap : c.tranchesThrough ≤ c.tranchesFrom + tranche * 71 := by
      rw [hthrough]
      exact min_le_right _ _
    rw [series_length _ _ (by decide)]
    simp only [tranche_eq] at *
    omega
  · have hcap : c.through ≤ c.from_ + hour * 5 := by
      rw [hhours, hfrom]
      exact min_le_right _ _
    rw [series_length _ _ (by decide)]
    simp only [hour_eq] at *
    omega
  · intro huncut
    rw [hthrough, min_eq_left huncut]
    refine ⟨durationTrunc_mod _ _, hclosedTranche, ?_⟩
    intro t ht hclosed
    exact le_durationTrunc (by decide) ht (by omega)

/-- Opened at 10:20, the tables read at 12:10 freeze 10:00 and 11:00. -/
theorem plan_exact_opened :
    (CycleWrite.plan (minutes 730) openedState.db.progress).freezeThrough = some (minutes 660) ∧
    ∀ t ∈ series (minutes 600) (minutes 660) hour, t + hour + freezeMargin ≤ minutes 730 := by
  obtain ⟨-, -, hfreeze, -, -, hfrozen, -⟩ := openedState_reachable.plan_exact (minutes 730)
  have hthrough : (CycleWrite.plan (minutes 730) openedState.db.progress).freezeThrough =
      some (minutes 660) := by
    rw [hfreeze]
    decide
  have hstart : (CycleWrite.plan (minutes 730) openedState.db.progress).from_ = minutes 600 := by
    decide
  rw [hthrough, hstart] at hfrozen
  exact ⟨hthrough, hfrozen⟩

end YogSothoth.Analytic
