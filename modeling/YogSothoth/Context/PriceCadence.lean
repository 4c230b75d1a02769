import YogSothoth.Context.PriceRuns
import Mathlib.Tactic.Ring

namespace YogSothoth.Context

theorem numSeconds_seconds (n : Int) : numSeconds (seconds n) = n := by
  unfold numSeconds seconds
  rw [Int.mul_tdiv_cancel n (by decide)]

theorem mul_seconds (n secs : Nat) : (n : Int) * seconds secs = seconds (n * secs : Nat) := by
  unfold seconds
  push_cast
  ring

theorem seconds_lt_iff (a b : Nat) : seconds a < seconds b ↔ a < b := by
  constructor
  · intro h
    have hlt : (a : Int) * 1000000000 < (b : Int) * 1000000000 := h
    omega
  · intro h
    have hlt : (a : Int) * 1000000000 < (b : Int) * 1000000000 := by omega
    exact hlt

/-- The ticks a motionless price waits at a cadence of whole seconds. -/
def ticksApart (secs : Nat) : Nat := (510 - secs) / secs + 1

theorem ticksApart_pos (secs : Nat) : 0 < ticksApart secs := Nat.succ_pos _

section Cadence

variable {secs : Nat}

theorem new_tick (hmax : seconds secs ≤ DURATION_MAX) :
    (KeptPrices.new (secs * 10 ^ 9)).tick = seconds secs := by
  unfold KeptPrices.new fromStdOr
  have hcast : ((secs * 10 ^ 9 : Nat) : Int) = seconds secs := by
    unfold seconds
    norm_cast
  simp only [hcast, hmax, if_true]

theorem new_maxGap (hmax : seconds secs ≤ DURATION_MAX) :
    (KeptPrices.new (secs * 10 ^ 9)).maxGap = seconds ((510 - secs : Nat) : Int) := by
  have htick := new_tick hmax
  change max (PRICE_SERIES_MAX_GAP - (KeptPrices.new (secs * 10 ^ 9)).tick) 0 = _
  rw [htick]
  change max ((510 : Int) * 10 ^ 9 - (secs : Int) * 10 ^ 9) 0 = ((510 - secs : Nat) : Int) * 10 ^ 9
  omega

/-- What the worker announces, in ticks. -/
theorem rewritesAtMostEvery_eq (hpos : 0 < secs) (hmax : seconds secs ≤ DURATION_MAX) :
    (KeptPrices.new (secs * 10 ^ 9)).rewritesAtMostEvery =
      (ticksApart secs : Int) * seconds secs := by
  have hmaxOne : max (secs : Int) 1 = secs := max_eq_left (by omega)
  unfold KeptPrices.rewritesAtMostEvery
  rw [new_tick hmax, new_maxGap hmax]
  simp only [numSeconds_seconds, hmaxOne]
  unfold ticksApart seconds
  push_cast
  ring

/-- A motionless price passes the gap at the announced tick and not before. -/
theorem gap_passed_iff (hpos : 0 < secs) (r : Nat) :
    seconds ((510 - secs : Nat) : Int) < ((r + 1 : Nat) : Int) * seconds secs ↔
      ticksApart secs ≤ r + 1 := by
  rw [mul_seconds, seconds_lt_iff, ← Nat.div_lt_iff_lt_mul hpos, ticksApart,
    Nat.succ_le_succ_iff, Nat.lt_succ_iff]

end Cadence

/-- An observation that repeats the last one kept earns a row by its age alone. -/
theorem KeptPrices.worthKeeping_same {kept : KeptPrices} {p : TokenPrice} {t : Instant}
    (h : kept.last p.mint = some ⟨atStorageScale p.priceUsd, p.priceProvider, t⟩) :
    kept.worthKeeping p = true ↔ kept.maxGap < p.fetchedAt - t := by
  unfold worthKeeping
  rw [h]
  simp

theorem dvd_succ_iff {m k : Nat} (hm : 0 < m) : m ∣ k + 1 ↔ m ≤ k % m + 1 := by
  have hlt := Nat.mod_lt k hm
  have hsplit : k + 1 = k / m * m + (k % m + 1) := by
    rw [← Nat.add_assoc, Nat.div_add_mod']
  rw [hsplit, Nat.dvd_add_right (Nat.dvd_mul_left m (k / m))]
  constructor
  · exact Nat.le_of_dvd (Nat.succ_pos _)
  · intro hle
    have heq : k % m + 1 = m := by omega
    rw [heq]

/-- The last multiple of the wait, one tick later. -/
theorem last_multiple_succ {m : Nat} (hm : 0 < m) (k : Nat) :
    (k + 1) / m * m = if m ≤ k % m + 1 then k + 1 else k / m * m := by
  by_cases hdvd : m ∣ k + 1
  · rw [if_pos ((dvd_succ_iff hm).mp hdvd), Nat.div_mul_cancel hdvd]
  · rw [if_neg (fun h => hdvd ((dvd_succ_iff hm).mpr h)), Nat.succ_div, if_neg hdvd,
      Nat.add_zero]

namespace PriceRun

/-- A run in which, after the tick `first` kept a mint, the source answers an unchanged price of
it at every tick, a cadence after the one before, and the database refuses no batch. -/
structure Motionless (secs : Nat) (before : List Tick) (first : Tick) (ticks : List Tick)
    (mint : Pubkey) (price : Int) (provider : PriceProvider) : Prop where
  kept : (exec (secs * 10 ^ 9) (before ++ [first])).worker.kept.last mint =
    some ⟨price, provider, first.now⟩
  storable : 0 < price ∧ price < 10 ^ PRICE_STORAGE_PRECISION
  clock : ∀ k i, ticks[k]? = some i → i.now = first.now + ((k + 1 : Nat) : Int) * seconds secs
  answered : ∀ k i, ticks[k]? = some i → ∃ answer f,
    (exec (secs * 10 ^ 9) (before ++ first :: ticks.take k)).worker.answer i = .ok answer ∧
      f ∈ answer.priced ∧ f.mint = mint ∧ atStorageScale f.priceUsd = price ∧
      f.priceProvider = provider
  written : ∀ k i e, ticks[k]? = some i →
    (exec (secs * 10 ^ 9) (before ++ first :: ticks.take k)).outcome i ≠ .insertFailed e

variable {secs : Nat} {before ticks : List Tick} {first : Tick} {mint : Pubkey} {price : Int}
  {provider : PriceProvider}

theorem exec_take_succ {k : Nat} {i : Tick} (hi : ticks[k]? = some i) :
    exec (secs * 10 ^ 9) (before ++ first :: ticks.take (k + 1)) =
      (exec (secs * 10 ^ 9) (before ++ first :: ticks.take k)).step i := by
  rw [← exec_concat, List.take_add_one, hi]
  simp

/-- The time since the last multiple of the wait, at the next tick. -/
theorem age_eq (t : Instant) (secs k : Nat) :
    t + ((k + 1 : Nat) : Int) * seconds secs -
      (t + ((k / ticksApart secs * ticksApart secs : Nat) : Int) * seconds secs) =
      ((k % ticksApart secs + 1 : Nat) : Int) * seconds secs := by
  have hsplit := Nat.div_add_mod' k (ticksApart secs)
  nth_rewrite 1 [← hsplit]
  push_cast
  ring

theorem isStorable_of_price {f : FetchedPrice} {now : Instant}
    (hprice : atStorageScale f.priceUsd = price)
    (h : 0 < price ∧ price < 10 ^ PRICE_STORAGE_PRECISION) :
    (f.observed now).isStorable = true := by
  change (decide (0 < atStorageScale f.priceUsd) &&
    decide (atStorageScale f.priceUsd < 10 ^ PRICE_STORAGE_PRECISION)) = true
  rw [hprice, decide_eq_true h.1, decide_eq_true h.2]
  rfl

/-- After `k` ticks the memory holds the observation of the last multiple of the wait. -/
theorem Motionless.entry (hpos : 0 < secs) (hmax : seconds secs ≤ DURATION_MAX)
    (hticks : Ticks (before ++ first :: ticks))
    (h : Motionless secs before first ticks mint price provider) {k : Nat}
    (hk : k ≤ ticks.length) :
    (exec (secs * 10 ^ 9) (before ++ first :: ticks.take k)).worker.kept.last mint =
      some ⟨price, provider,
        first.now + ((k / ticksApart secs * ticksApart secs : Nat) : Int) * seconds secs⟩ := by
  induction k with
  | zero => simpa using h.kept
  | succ k ih =>
    have hget := List.getElem?_eq_getElem hk
    have hentry := ih (Nat.le_of_succ_le hk)
    obtain ⟨answer, f, hanswer, hf, rfl, hprice, rfl⟩ := h.answered k _ hget
    have hlast := step_last (hticks.once ticks[k] (by simp)) hanswer hf
      (isStorable_of_price hprice h.storable) (fun e => h.written k _ e hget)
    have hnow : (f.observed ticks[k].now).fetchedAt =
        first.now + ((k + 1 : Nat) : Int) * seconds secs := h.clock k _ hget
    have hsub := (List.take_sublist k ticks).cons_cons first |>.append_left before
    have hworth := KeptPrices.worthKeeping_same (p := f.observed ticks[k].now) (hprice ▸ hentry)
    rw [hnow, age_eq, (exec_inv _ (hticks.sublist hsub)).maxGap, new_maxGap hmax,
      gap_passed_iff hpos] at hworth
    rw [exec_take_succ hget, hlast, hentry, last_multiple_succ (ticksApart_pos secs)]
    by_cases hwait : ticksApart secs ≤ k % ticksApart secs + 1
    · rw [if_pos (hworth.mpr hwait), if_pos hwait, KeptPrice.of, hnow]
      change some (KeptPrice.mk (atStorageScale f.priceUsd) f.priceProvider _) = _
      rw [hprice]
    · rw [if_neg (fun hw => hwait (hworth.mp hw)), if_neg hwait]

/-- After `k` ticks the newest row is that of the last multiple of the announced wait. -/
theorem Motionless.latest (hpos : 0 < secs) (hmax : seconds secs ≤ DURATION_MAX)
    (hticks : Ticks (before ++ first :: ticks))
    (h : Motionless secs before first ticks mint price provider) {k : Nat}
    (hk : k ≤ ticks.length) :
    (exec (secs * 10 ^ 9) (before ++ first :: ticks.take k)).tables.findLatestByMint mint =
      some ⟨mint, price, provider, columnInstant (first.now +
        (k : Int) * seconds secs / (KeptPrices.new (secs * 10 ^ 9)).rewritesAtMostEvery *
          (KeptPrices.new (secs * 10 ^ 9)).rewritesAtMostEvery)⟩ := by
  have hsub := (List.take_sublist k ticks).cons_cons first |>.append_left before
  have hsecs : 0 < seconds secs := (seconds_lt_iff 0 secs).mpr hpos
  have hmultiple : (k : Int) * seconds secs / ((ticksApart secs : Int) * seconds secs) *
      ((ticksApart secs : Int) * seconds secs) =
      ((k / ticksApart secs * ticksApart secs : Nat) : Int) * seconds secs := by
    rw [Int.mul_ediv_mul_of_pos_left _ _ hsecs]
    push_cast
    ring
  rw [(exec_inv _ (hticks.sublist hsub)).mirrors.latest, h.entry hpos hmax hticks hk,
    rewritesAtMostEvery_eq hpos hmax, hmultiple]
  rfl

theorem new_maxGap_eq (interval : Nat) :
    (KeptPrices.new interval).maxGap = max (PRICE_SERIES_MAX_GAP - interval) 0 := by
  change max (PRICE_SERIES_MAX_GAP - fromStdOr interval PRICE_SERIES_MAX_GAP) 0 = _
  unfold fromStdOr
  by_cases hmax : (interval : Int) ≤ DURATION_MAX
  · rw [if_pos hmax]
  · rw [if_neg hmax, Int.sub_self, max_self, max_eq_right]
    have hlarge : ¬ (interval : Int) ≤ (2 ^ 63 - 1) * 10 ^ 6 := hmax
    change (510 * 10 ^ 9 - (interval : Int) : Int) ≤ 0
    omega

theorem findLatestByMint_isSome_iff (tables : PriceTables) (mint : Pubkey) :
    (tables.findLatestByMint mint).isSome ↔ ∃ row ∈ tables.rows, row.mint = mint := by
  constructor
  · intro h
    obtain ⟨row, hrow⟩ := Option.isSome_iff_exists.mp h
    exact ⟨row, mem_of_findLatestByMint hrow⟩
  · rintro ⟨row, hrow, hmint⟩
    have hmem : row ∈ orderBy (fun r => OrderDual.toDual r.fetchedAt)
        (tables.rows.filter (fun r => r.mint = mint)) :=
      mem_orderBy.mpr (List.mem_filter.mpr ⟨hrow, decide_eq_true hmint⟩)
    exact List.isSome_head?.mpr (List.ne_nil_of_mem hmem)

/-- The price series over any run of a clock that moves by a microsecond at least: the memory, the
series and the last prices agree; what was answered is in the series, near enough; and a
motionless price is written again exactly as often as announced. -/
theorem exec_faithful (interval : Nat) {ticks : List Tick} (h : Ticks ticks) :
    (∀ mint, let s := exec interval ticks
      ((s.worker.kept.last mint).isSome ↔ ∃ row ∈ s.tables.rows, row.mint = mint) ∧
      s.tables.findLatestByMint mint = (s.worker.kept.last mint).map (·.row mint) ∧
      s.tables.lastPrice mint = (s.worker.kept.last mint).map (·.lastRow)) ∧
    (∀ before i, ticks = before ++ [i] → ∀ answer f,
      (exec interval before).worker.answer i = .ok answer → f ∈ answer.priced →
      (f.observed i.now).isStorable = true →
      (∀ e, (exec interval before).outcome i ≠ .insertFailed e) →
      ∃ row t, (exec interval ticks).tables.findLatestByMint f.mint = some row ∧
        row.priceUsd = atStorageScale f.priceUsd ∧ row.priceProvider = f.priceProvider ∧
        row.fetchedAt = columnInstant t ∧
        i.now - t ≤ max (PRICE_SERIES_MAX_GAP - interval) 0) ∧
    ∀ secs before first rest mint price provider, interval = secs * 10 ^ 9 → 0 < secs →
      seconds secs ≤ DURATION_MAX → ticks = before ++ first :: rest →
      Motionless secs before first rest mint price provider → ∀ k ≤ rest.length,
      (exec interval (before ++ first :: rest.take k)).tables.findLatestByMint mint =
        some ⟨mint, price, provider, columnInstant (first.now +
          (k : Int) * seconds secs / (KeptPrices.new interval).rewritesAtMostEvery *
            (KeptPrices.new interval).rewritesAtMostEvery)⟩ := by
  have hinv := exec_inv interval h
  refine ⟨?_, ?_, ?_⟩
  · intro mint
    refine ⟨?_, hinv.mirrors.latest mint, hinv.mirrors.last mint⟩
    rw [← findLatestByMint_isSome_iff, hinv.mirrors.latest, Option.isSome_map]
  · rintro before i rfl answer f hanswer hf hstorable hwritten
    have hbefore := exec_inv interval (h.sublist (List.sublist_append_left before [i]))
    have hgap : (exec interval before).worker.kept.maxGap =
        max (PRICE_SERIES_MAX_GAP - interval) 0 := by
      rw [hbefore.maxGap, new_maxGap_eq]
    obtain ⟨entry, hentry, hprice, hprovider, hat⟩ := step_answered h.last_once
      (by rw [hgap]; exact le_max_right _ _) hanswer hf hstorable hwritten
    refine ⟨entry.row f.mint, entry.fetchedAt, ?_, hprice, hprovider, rfl, hgap ▸ hat⟩
    rw [hinv.mirrors.latest, exec_concat, hentry]
    rfl
  · rintro secs before first rest mint price provider rfl hpos hmax rfl hmotionless k hk
    exact hmotionless.latest hpos hmax h hk

/-- Only the insert fails as an insert. -/
theorem answer_ne_insertFailed (self : PriceWorker) (i : Tick) (e : RepositoryError) :
    self.answer i ≠ .error (.insertFailed e) := by
  intro h
  unfold PriceWorker.answer PriceWorker.ask at h
  cases hcandidates : i.candidates with
  | error failure =>
    rw [hcandidates] at h
    cases h
  | ok candidates =>
    rw [hcandidates] at h
    dsimp only at h
    split_ifs at h
    · cases h
    · cases h
    · change (i.fetchPrices _).mapError TickOutcome.sourceFailed = _ at h
      generalize i.fetchPrices _ = fetched at h
      cases fetched with
      | error failure => cases h
      | ok answer => cases h

theorem outcome_unrefused (s : PriceRun) {i : Tick} (h : i.refused = none) (e : RepositoryError) :
    s.outcome i ≠ .insertFailed e := by
  unfold outcome PriceWorker.priceOnce
  cases hanswer : s.worker.answer i with
  | error ending =>
    rintro rfl
    exact answer_ne_insertFailed _ _ e hanswer
  | ok answer =>
    dsimp only
    unfold PriceWorker.write
    rw [h]
    dsimp only
    split_ifs with hnone hsame
    · nofun
    · nofun
    · unfold PriceTables.insertBatch
      rw [if_neg hsame]
      nofun

/-- A tick that asks one mint and is answered its price. -/
def pricedTick (now : Instant) (dollars : Nat) (h : (dollars : Int).natAbs < 2 ^ 96) : Tick where
  candidates := .ok [⟨zeroPubkey, .regular⟩]
  askedAt := now
  fetchPrices := fun _ => .ok ⟨[⟨zeroPubkey, .jupiter, ⟨dollars, 0, h, by decide⟩⟩], []⟩
  now := now
  refused := none

/-- The first instant of 2026. -/
def NEW_YEAR : Instant := seconds 1767225600

/-- Ticks a whole number of 240 s after the first instant of 2026, of one price. -/
def steadyTicks : List Tick :=
  (List.range 5).map (fun k : Nat =>
    pricedTick (NEW_YEAR + ((k + 1 : Nat) : Int) * seconds 240) 1 (by decide))

theorem steadyTicks_motionless : Motionless 240 [] (pricedTick NEW_YEAR 1 (by decide)) steadyTicks
    zeroPubkey (10 ^ 18) .jupiter where
  kept := rfl
  storable := by decide
  clock k i hi := by
    rw [steadyTicks, List.getElem?_map, Option.map_eq_some_iff] at hi
    obtain ⟨j, hj, rfl⟩ := hi
    obtain ⟨hlt, rfl⟩ := List.getElem?_eq_some_iff.mp hj
    rw [List.getElem_range]
    rfl
  answered k i hi := by
    match k, hi with
    | 0, hi => cases hi; exact ⟨_, _, rfl, List.mem_singleton_self _, rfl, by decide, rfl⟩
    | 1, hi => cases hi; exact ⟨_, _, rfl, List.mem_singleton_self _, rfl, by decide, rfl⟩
    | 2, hi => cases hi; exact ⟨_, _, rfl, List.mem_singleton_self _, rfl, by decide, rfl⟩
    | 3, hi => cases hi; exact ⟨_, _, rfl, List.mem_singleton_self _, rfl, by decide, rfl⟩
    | 4, hi => cases hi; exact ⟨_, _, rfl, List.mem_singleton_self _, rfl, by decide, rfl⟩
  written k i e hi := by
    rw [steadyTicks, List.getElem?_map, Option.map_eq_some_iff] at hi
    obtain ⟨j, hj, rfl⟩ := hi
    exact outcome_unrefused _ rfl e

theorem pricedTick_once {now : Instant} {dollars : Nat} {h : (dollars : Int).natAbs < 2 ^ 96}
    {mints : List Pubkey} {answer : PriceAnswer}
    (hanswer : (pricedTick now dollars h).fetchPrices mints = .ok answer) : answer.Once := by
  cases hanswer
  exact List.nodup_singleton _

theorem exec_faithful_priced :
    let changed := [pricedTick NEW_YEAR 1 (by decide),
      pricedTick (NEW_YEAR + seconds 60) 2 (by decide)]
    let steady := pricedTick NEW_YEAR 1 (by decide) :: steadyTicks
    Ticks changed ∧ (exec (60 * 10 ^ 9) changed).tables.findLatestByMint zeroPubkey =
        ((exec (60 * 10 ^ 9) changed).worker.kept.last zeroPubkey).map (·.row zeroPubkey) ∧
      (∃ row t, (exec (60 * 10 ^ 9) changed).tables.findLatestByMint zeroPubkey = some row ∧
        row.priceUsd = 2 * 10 ^ 18 ∧ row.fetchedAt = columnInstant t ∧
        NEW_YEAR + seconds 60 - t ≤ seconds 450) ∧
    Ticks steady ∧ ∀ k ≤ 5, (exec (240 * 10 ^ 9) (pricedTick NEW_YEAR 1 (by decide) ::
        steadyTicks.take k)).tables.findLatestByMint zeroPubkey =
      some ⟨zeroPubkey, 10 ^ 18, .jupiter,
        columnInstant (NEW_YEAR + (k : Int) * seconds 240 / seconds 480 * seconds 480)⟩ := by
  intro changed steady
  have hchanged : Ticks changed := by
    constructor
    · decide
    · intro i hi mints answer hanswer
      simp only [changed, List.mem_cons, List.not_mem_nil, or_false] at hi
      rcases hi with rfl | rfl
      · exact pricedTick_once hanswer
      · exact pricedTick_once hanswer
  have hsteady : Ticks steady := by
    constructor
    · decide
    · intro i hi mints answer hanswer
      rcases List.mem_cons.mp hi with rfl | hi
      · exact pricedTick_once hanswer
      · obtain ⟨k, -, rfl⟩ := List.mem_map.mp hi
        exact pricedTick_once hanswer
  obtain ⟨hmirrors, hanswered, -⟩ := exec_faithful (60 * 10 ^ 9) hchanged
  have hanswer : ∃ answer f,
      (exec (60 * 10 ^ 9) [pricedTick NEW_YEAR 1 (by decide)]).worker.answer
        (pricedTick (NEW_YEAR + seconds 60) 2 (by decide)) = .ok answer ∧ f ∈ answer.priced ∧
      f.mint = zeroPubkey ∧ atStorageScale f.priceUsd = 2 * 10 ^ 18 ∧
      (f.observed (NEW_YEAR + seconds 60)).isStorable = true :=
    ⟨_, _, rfl, List.mem_singleton_self _, rfl, by decide, by decide⟩
  obtain ⟨answer, f, hanswer, hf, hmint, hdollars, hstorable⟩ := hanswer
  obtain ⟨row, t, hrow, hprice, -, hat, hgap⟩ := hanswered
    [pricedTick NEW_YEAR 1 (by decide)] _ rfl answer f hanswer hf hstorable (outcome_unrefused _ rfl)
  rw [hmint] at hrow
  rw [hdollars] at hprice
  refine ⟨hchanged, (hmirrors zeroPubkey).2.1, ⟨row, t, hrow, hprice, hat, hgap⟩, hsteady,
    fun k hk => ?_⟩
  have hwait : (KeptPrices.new (240 * 10 ^ 9)).rewritesAtMostEvery = seconds 480 := by
    rw [rewritesAtMostEvery_eq (by decide) (by decide)]
    rfl
  rw [← hwait]
  exact (exec_faithful (240 * 10 ^ 9) hsteady).2.2 240 [] _ _ zeroPubkey (10 ^ 18) .jupiter rfl
    (by decide) (by decide) rfl steadyTicks_motionless k hk

/-- A clock that moves by nanoseconds: the row forgets the nanosecond the memory keeps, and a
price answered in the microsecond of the row before is not inserted. -/
theorem exec_nanoseconds :
    ((exec (60 * 10 ^ 9) [pricedTick (NEW_YEAR + 1) 1 (by decide)]).worker.kept.last
        zeroPubkey).map (·.fetchedAt) = some (NEW_YEAR + 1) ∧
    ((exec (60 * 10 ^ 9) [pricedTick (NEW_YEAR + 1) 1 (by decide)]).tables.findLatestByMint
        zeroPubkey).map (·.fetchedAt) = some NEW_YEAR ∧
    ((exec (60 * 10 ^ 9) [pricedTick NEW_YEAR 1 (by decide),
        pricedTick (NEW_YEAR + 1) 2 (by decide)]).tables.findLatestByMint
        zeroPubkey).map (·.priceUsd) = some (10 ^ 18) := by
  decide

end PriceRun

end YogSothoth.Context
