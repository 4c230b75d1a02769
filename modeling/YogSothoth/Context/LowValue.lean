import Mathlib.Data.List.Dedup
import YogSothoth.Context.PriceTurns
import YogSothoth.Framework.Paces

namespace YogSothoth.Context

/-- How old the latest observation may be and still count as current. -/
def PRICE_MAX_AGE_LATEST : Span := seconds (15 * 60)

/-- The cadence the worker runs at by default. -/
def CADENCE : Nat := 30 * 10 ^ 9

theorem isTurn_lowValue {mint : Pubkey} {n k : Nat} (hcount : n + k < 2 ^ 64)
    (hturn : PriceCandidate.isTurn ⟨mint, .lowValue⟩ (UInt64.ofNat n) = true) :
    PriceCandidate.isTurn ⟨mint, .lowValue⟩ (UInt64.ofNat (n + k)) = true ↔ k % 3 = 0 := by
  have hmod (m : Nat) (hm : m < 2 ^ 64) (x : UInt64) :
      UInt64.ofNat m % 3 = x ↔ m % 3 = x.toNat := by
    rw [← UInt64.toNat_inj, UInt64.toNat_mod, UInt64.toNat_ofNat_of_lt' hm]
    rfl
  unfold PriceCandidate.isTurn at hturn ⊢
  rw [beq_iff_eq] at hturn ⊢
  change UInt64.ofNat n % 3 = _ at hturn
  change UInt64.ofNat (n + k) % 3 = _ ↔ _
  rw [hmod n (by omega)] at hturn
  rw [hmod (n + k) hcount, ← hturn]
  omega

namespace PriceRun

/-- A run in which, after the tick `first` kept a low-value mint at its turn, the source answers an
unchanged price of it at every turn, the ticks last from `a` to `b`, and the database refuses no
batch. -/
structure LowValue (a b : Span) (before : List Tick) (first : Tick) (ticks : List Tick)
    (mint : Pubkey) (price : Int) (provider : PriceProvider) : Prop where
  count : (before ++ first :: ticks).length ≤ 2 ^ 64
  turn : PriceCandidate.isTurn ⟨mint, .lowValue⟩ (exec CADENCE before).worker.tick = true
  kept : (exec CADENCE (before ++ [first])).worker.kept.last mint =
    some ⟨price, provider, first.now⟩
  storable : 0 < price ∧ price < 10 ^ PRICE_STORAGE_PRECISION
  paced : (first :: ticks).IsChain (fun i j => a ≤ j.now - i.now ∧ j.now - i.now ≤ b)
  listed : ∀ i ∈ ticks, ∀ candidates, i.candidates = .ok candidates → ∀ c ∈ candidates,
    c.mint = mint → c.class_ = .lowValue
  asked : ∀ i ∈ ticks, ∀ mints answer, i.fetchPrices mints = .ok answer →
    answer.Once ∧ ∀ f ∈ answer.priced, f.mint ∈ mints
  answered : ∀ k i, ticks[k]? = some i → PriceCandidate.isTurn ⟨mint, .lowValue⟩
      (exec CADENCE (before ++ first :: ticks.take k)).worker.tick = true →
    ∃ answer f, (exec CADENCE (before ++ first :: ticks.take k)).worker.answer i = .ok answer ∧
      f ∈ answer.priced ∧ f.mint = mint ∧ atStorageScale f.priceUsd = price ∧
      f.priceProvider = provider
  written : ∀ k i e, ticks[k]? = some i →
    (exec CADENCE (before ++ first :: ticks.take k)).outcome i ≠ .insertFailed e

/-- Consecutive prices kept of the mint are less than the staleness bound apart, at the instants
they were fetched at: the rows' own are cut to the microsecond. -/
def Spaced (before : List Tick) (first : Tick) (ticks : List Tick) (mint : Pubkey) : Prop :=
  ∀ k i earlier later, ticks[k]? = some i →
    (exec CADENCE (before ++ first :: ticks.take k)).worker.kept.last mint = some earlier →
    (exec CADENCE (before ++ first :: ticks.take (k + 1))).worker.kept.last mint = some later →
    later.fetchedAt - earlier.fetchedAt < PRICE_MAX_AGE_LATEST

variable {a b : Span} {before ticks : List Tick} {first : Tick} {mint : Pubkey} {price : Int}
  {provider : PriceProvider}

theorem take_succ {k : Nat} {i : Tick} (hi : ticks[k]? = some i) (interval : Nat) :
    exec interval (before ++ first :: ticks.take (k + 1)) =
      (exec interval (before ++ first :: ticks.take k)).step i := by
  rw [← exec_concat, List.take_add_one, hi]
  simp

theorem LowValue.tick_eq {k : Nat} (hk : k ≤ ticks.length) :
    (exec CADENCE (before ++ first :: ticks.take k)).worker.tick =
      UInt64.ofNat (before.length + (k + 1)) := by
  rw [exec_tick, List.length_append, List.length_cons, List.length_take_of_le hk]

/-- One tick in three is the mint's turn. -/
theorem LowValue.isTurn_iff (h : LowValue a b before first ticks mint price provider) {k : Nat}
    (hk : k < ticks.length) :
    PriceCandidate.isTurn ⟨mint, .lowValue⟩
      (exec CADENCE (before ++ first :: ticks.take k)).worker.tick = true ↔ (k + 1) % 3 = 0 := by
  have hcount := h.count
  rw [List.length_append, List.length_cons] at hcount
  have hturn := h.turn
  rw [exec_tick] at hturn
  rw [LowValue.tick_eq (Nat.le_of_lt hk)]
  exact isTurn_lowValue (by omega) hturn

/-- A tick rewrites the mint at its turn when the row is past the floor. -/
theorem LowValue.step (h : LowValue a b before first ticks mint price provider) {k : Nat} {i : Tick}
    (hi : ticks[k]? = some i) {t : Instant}
    (hentry : (exec CADENCE (before ++ first :: ticks.take k)).worker.kept.last mint =
      some ⟨price, provider, t⟩) :
    (exec CADENCE (before ++ first :: ticks.take (k + 1))).worker.kept.last mint =
      some ⟨price, provider, if (k + 1) % 3 = 0 ∧ seconds 480 < i.now - t then i.now else t⟩ := by
  obtain ⟨hk, hget⟩ := List.getElem?_eq_some_iff.mp hi
  have hmem : i ∈ ticks := List.mem_of_getElem? hi
  have honce : ∀ mints answer, i.fetchPrices mints = .ok answer → answer.Once :=
    fun mints answer hfetch => (h.asked i hmem mints answer hfetch).1
  have hturn := h.isTurn_iff hk
  rw [take_succ hi]
  by_cases hthird : (k + 1) % 3 = 0
  · obtain ⟨answer, f, hanswer, hf, hmint, hprice, hprovider⟩ :=
      h.answered k i hi (hturn.mpr hthird)
    have hlast := step_last honce hanswer hf (isStorable_of_price hprice h.storable)
      (fun e => h.written k i e hi)
    rw [← hmint, ← hprice, ← hprovider] at hentry ⊢
    have hworth := KeptPrices.worthKeeping_same (p := f.observed i.now) hentry
    have hgap : max (PRICE_SERIES_MAX_GAP - (CADENCE : Int)) 0 = seconds 480 := by decide
    rw [exec_maxGap, hgap] at hworth
    change _ ↔ seconds 480 < i.now - t at hworth
    rw [hlast, hentry]
    by_cases hpast : seconds 480 < i.now - t
    · rw [if_pos (hworth.mpr hpast), if_pos ⟨hthird, hpast⟩]
      rfl
    · rw [if_neg (fun hw => hpast (hworth.mp hw)), if_neg (fun hw => hpast hw.2)]
  · rw [if_neg (fun hw => hthird hw.1), ← hentry]
    apply step_unnamed honce
    intro answer hanswer f hf hmint
    obtain ⟨mints, hmints, hfetch⟩ := PriceWorker.answer_asked hanswer
    have hasked := (h.asked i hmem mints answer hfetch).2 f hf
    rw [hmint, PriceWorker.mem_asked hmints] at hasked
    obtain ⟨candidates, c, hcandidates, hc, hcmint, hcturn, -⟩ := hasked
    have hclass := h.listed i hmem candidates hcandidates c hc hcmint
    have hsame : c = ⟨mint, .lowValue⟩ := by
      rw [← hcmint, ← hclass]
    rw [hsame] at hcturn
    exact hthird (hturn.mp hcturn)

/-- A tick's length. -/
theorem LowValue.length (h : LowValue a b before first ticks mint price provider) {k : Nat}
    {i j : Tick} (hi : (first :: ticks)[k]? = some i) (hj : ticks[k]? = some j) :
    a ≤ j.now - i.now ∧ j.now - i.now ≤ b := by
  obtain ⟨hk, hgetj⟩ := List.getElem?_eq_some_iff.mp hj
  obtain ⟨hk', hgeti⟩ := List.getElem?_eq_some_iff.mp hi
  have hpaced := List.isChain_iff_getElem.mp h.paced k (by rw [List.length_cons]; omega)
  rw [List.getElem_cons_succ, hgeti, hgetj] at hpaced
  exact hpaced

/-- After `k` ticks: `m` turns since the row, `u` its age at the last of them, and the ticks since. -/
structure Waiting (a b : Int) (k : Nat) (now t : Int) (m : Nat) (u : Int) : Prop where
  least : 3 * m * a ≤ u
  most : u ≤ 3 * m * b
  floor : u ≤ seconds 480
  since : (k % 3 : Nat) * a ≤ now - t - u ∧ now - t - u ≤ (k % 3 : Nat) * b

theorem Waiting.row {a b : Int} (k : Nat) (hk : k % 3 = 0) (now : Int) :
    Waiting a b k now now 0 0 where
  least := by simp
  most := by simp
  floor := by decide
  since := by simp [hk]

/-- A tick that is no turn, a turn short of the floor, or a turn past it. -/
theorem Waiting.tick {a b : Int} {k m : Nat} {now now' t u : Int}
    (h : Waiting a b k now t m u) (hstep : a ≤ now' - now ∧ now' - now ≤ b) :
    ((k + 1) % 3 ≠ 0 ∧ Waiting a b (k + 1) now' t m u) ∨
    ((k + 1) % 3 = 0 ∧ now' - t ≤ u + 3 * b ∧
      (now' - t ≤ seconds 480 → Waiting a b (k + 1) now' t (m + 1) (now' - t))) := by
  have hlt := Nat.mod_lt k (by decide : 0 < 3)
  obtain ⟨hsince, hsince'⟩ := h.since
  have hsucc (c : Int) (n : Nat) : ((n + 1 : Nat) : Int) * c = n * c + c := by
    push_cast
    ring
  by_cases hturn : (k + 1) % 3 = 0
  · have hphase : k % 3 = 2 := by omega
    rw [hphase] at hsince hsince'
    have hthree (c : Int) : 3 * ((m + 1 : Nat) : Int) * c = 3 * m * c + 3 * c := by
      push_cast
      ring
    have hleast := h.least
    have hmost := h.most
    refine .inr ⟨hturn, by omega, ?_⟩
    intro hfloor
    refine ⟨?_, ?_, hfloor, ?_⟩
    · rw [hthree]
      omega
    · rw [hthree]
      omega
    · simp [hturn]
  · have hphase : (k + 1) % 3 = k % 3 + 1 := by omega
    refine .inl ⟨hturn, h.least, h.most, h.floor, ?_⟩
    rw [hphase, hsucc, hsucc]
    constructor
    · omega
    · omega

theorem LowValue.waiting (h : LowValue a b before first ticks mint price provider) {k : Nat}
    {i : Tick} (hi : (first :: ticks)[k]? = some i) : ∃ t m u,
    (exec CADENCE (before ++ first :: ticks.take k)).worker.kept.last mint =
      some ⟨price, provider, t⟩ ∧ Waiting a b k i.now t m u := by
  induction k generalizing i with
  | zero =>
    obtain rfl := Option.some.inj hi
    exact ⟨first.now, 0, 0, h.kept, Waiting.row 0 rfl first.now⟩
  | succ k ih =>
    rw [List.getElem?_cons_succ] at hi
    obtain ⟨hk, -⟩ := List.getElem?_eq_some_iff.mp hi
    have hprev := List.getElem?_eq_getElem (l := first :: ticks) (i := k)
      (by rw [List.length_cons]; omega)
    obtain ⟨t, m, u, hentry, hwaiting⟩ := ih hprev
    rw [h.step hi hentry]
    cases hwaiting.tick (h.length hprev hi) with
    | inl hoff => exact ⟨t, m, u, by rw [if_neg (fun hw => hoff.1 hw.1)], hoff.2⟩
    | inr hon =>
      obtain ⟨hturn, -, hshort⟩ := hon
      by_cases hpast : seconds 480 < i.now - t
      · exact ⟨i.now, 0, 0, by rw [if_pos ⟨hturn, hpast⟩], Waiting.row (k + 1) hturn i.now⟩
      · exact ⟨t, m + 1, i.now - t, by rw [if_neg (fun hw => hpast hw.2)],
          hshort (not_lt.mp hpast)⟩

/-- Tick lengths at which a row short of the floor at a turn is still valid at the next one. -/
def Paced (a b : Span) : Prop :=
  b < seconds 140 ∨ (seconds 80 < a ∧ b < seconds 150) ∨ (seconds 160 < a ∧ b < seconds 300)

theorem paced_iff {a b : Int} (ha : 0 < a) (hab : a ≤ b) : Paced a b ↔
    ∀ m : Nat, 3 * m * a ≤ 480000000000 →
      min (3 * m * b) 480000000000 + 3 * b < 900000000000 := by
  change (b < 140000000000 ∨ (80000000000 < a ∧ b < 150000000000) ∨
    (160000000000 < a ∧ b < 300000000000)) ↔ _
  constructor
  · intro h m hm
    have hmany (n : Nat) (hn : n ≤ m) : 3 * n * a ≤ 480000000000 := by
      have hmul : (n : Int) * a ≤ m * a := mul_le_mul_of_nonneg_right (by omega) (by omega)
      linarith
    obtain h | ⟨h, h'⟩ | ⟨h, h'⟩ := h
    · omega
    · have hfew : m = 0 ∨ m = 1 := by
        by_contra hmore
        have htwo := hmany 2 (by omega)
        omega
      obtain hm | hm := hfew
      · rw [hm]
        omega
      · rw [hm]
        omega
    · have hnone : m = 0 := by
        by_contra hsome
        have hone := hmany 1 (by omega)
        omega
      rw [hnone]
      omega
  · intro h
    have hzero := h 0 (by omega)
    have hone := h 1
    have htwo := h 2
    omega

/-- At these lengths a row is rewritten before it is stale. -/
theorem LowValue.spaced (h : LowValue a b before first ticks mint price provider) (ha : 0 < a)
    (hab : a ≤ b) (hpaced : Paced a b) : Spaced before first ticks mint := by
  intro k i earlier later hi hearlier hlater
  obtain ⟨hk, -⟩ := List.getElem?_eq_some_iff.mp hi
  have hprev := List.getElem?_eq_getElem (l := first :: ticks) (i := k)
    (by rw [List.length_cons]; omega)
  obtain ⟨t, m, u, hentry, hwaiting⟩ := h.waiting hprev
  rw [h.step hi hentry] at hlater
  rw [hentry] at hearlier
  rw [← Option.some.inj hearlier, ← Option.some.inj hlater]
  have hbound := (paced_iff ha hab).mp hpaced m (hwaiting.least.trans hwaiting.floor)
  have hmost := le_min hwaiting.most hwaiting.floor
  simp only
  split_ifs with hkept
  · cases hwaiting.tick (h.length hprev hi) with
    | inl hoff => exact absurd hkept.1 hoff.1
    | inr hon =>
      calc i.now - t ≤ u + 3 * b := hon.2.1
        _ ≤ min (3 * m * b) (seconds 480) + 3 * b := add_le_add_left hmost (3 * b)
        _ < PRICE_MAX_AGE_LATEST := hbound
  · rw [sub_self]
    decide

/-- Until a turn past the floor, the mint keeps its first row. -/
theorem LowValue.first_row (h : LowValue a b before first ticks mint price provider) {k : Nat}
    (hk : k ≤ ticks.length) (hshort : ∀ j i, j < k → (j + 1) % 3 = 0 → ticks[j]? = some i →
      i.now - first.now ≤ seconds 480) :
    (exec CADENCE (before ++ first :: ticks.take k)).worker.kept.last mint =
      some ⟨price, provider, first.now⟩ := by
  induction k with
  | zero => exact h.kept
  | succ k ih =>
    have hget := List.getElem?_eq_getElem hk
    have hentry := ih (Nat.le_of_succ_le hk)
      (fun j i hj => hshort j i (Nat.lt_succ_of_lt hj))
    rw [h.step hget hentry, if_neg]
    intro ⟨hturn, hpast⟩
    exact absurd (hshort k _ (Nat.lt_succ_self k) hturn hget) (not_le.mpr hpast)

section Lengths

theorem oneDollar_bits : (1 : Int).natAbs < 2 ^ 96 := by decide

def oneDollar : Decimal := ⟨1, 0, oneDollar_bits, wholeDigits⟩

/-- A tick of one low-value candidate, priced a dollar. -/
def lowValueTick (now : Instant) : Tick where
  candidates := .ok [⟨zeroPubkey, .lowValue⟩]
  askedAt := now
  fetchPrices := fun mints => .ok ⟨mints.dedup.map (fun mint => ⟨mint, .jupiter, oneDollar⟩), []⟩
  now := now
  refused := none

/-- Such ticks after one at `t`, of the lengths given. -/
def lowValueTicks (t : Instant) (lengths : List Int) : List Tick :=
  (List.range lengths.length).map (fun k => lowValueTick (t + (lengths.take (k + 1)).sum))

variable {t : Instant} {lengths : List Int}

theorem lowValueTicks_get {k : Nat} {i : Tick} (hi : (lowValueTicks t lengths)[k]? = some i) :
    k < lengths.length ∧ i = lowValueTick (t + (lengths.take (k + 1)).sum) := by
  unfold lowValueTicks at hi
  rw [List.getElem?_map, Option.map_eq_some_iff] at hi
  obtain ⟨n, hn, hi⟩ := hi
  obtain ⟨hk, hget⟩ := List.getElem?_eq_some_iff.mp hn
  rw [List.getElem_range] at hget
  rw [List.length_range] at hk
  rw [hget]
  exact ⟨hget ▸ hk, hi.symm⟩

theorem lowValueTicks_now {k : Nat} {i : Tick}
    (hi : (lowValueTick t :: lowValueTicks t lengths)[k]? = some i) :
    i.now = t + (lengths.take k).sum := by
  cases k with
  | zero =>
    rw [← Option.some.inj hi, List.take_zero, List.sum_nil, Int.add_zero]
    rfl
  | succ k =>
    rw [List.getElem?_cons_succ] at hi
    rw [(lowValueTicks_get hi).2]
    rfl

theorem lowValueTicks_length : (lowValueTicks t lengths).length = lengths.length := by
  unfold lowValueTicks
  rw [List.length_map, List.length_range]

theorem lowValueTicks_mem {i : Tick} (hi : i ∈ lowValueTicks t lengths) :
    ∃ now, i = lowValueTick now := by
  obtain ⟨k, -, hk⟩ := List.mem_map.mp hi
  exact ⟨_, hk.symm⟩

theorem lowValueTick_once {now : Instant} {mints : List Pubkey} {answer : PriceAnswer}
    (h : (lowValueTick now).fetchPrices mints = .ok answer) :
    answer.Once ∧ ∀ f ∈ answer.priced, f.mint ∈ mints := by
  rw [← Except.ok.inj h]
  constructor
  · change ((mints.dedup.map _).map _).Nodup
    rw [List.map_map]
    exact (List.nodup_dedup mints).map (fun a b hab => hab)
  · intro f hf
    obtain ⟨mint, hmint, hf⟩ := List.mem_map.mp hf
    rw [← hf]
    exact List.mem_dedup.mp hmint

/-- The mint always has a price. -/
theorem lowValueTicks_due {run : List Tick} (hrun : ∀ i ∈ run, ∃ now, i = lowValueTick now) :
    (exec CADENCE run).worker.unpriced.deferred zeroPubkey = none := by
  induction run using List.reverseRecOn with
  | nil => rfl
  | append_singleton run i ih =>
    have ih := ih (fun j hj => hrun j (List.mem_append_left _ hj))
    obtain ⟨now, hi⟩ := hrun i (List.mem_append_right _ List.mem_cons_self)
    have hasked : ((exec CADENCE run).worker.ask i).1.unpriced.deferred zeroPubkey = none := by
      rw [hi, PriceWorker.ask_unpriced rfl]
      unfold UnpricedMints.retainOnly
      simp only [ih, ite_self]
    rw [exec_concat, step_unpriced]
    cases hanswer : (exec CADENCE run).worker.answer i with
    | error ending => exact hasked
    | ok answer =>
      obtain ⟨mints, -, hfetch⟩ := PriceWorker.answer_asked hanswer
      rw [hi] at hfetch
      have hnone : answer.unpriced = [] := by
        rw [← Except.ok.inj hfetch]
      change (UnpricedMints.record _ _ _ _).deferred zeroPubkey = none
      rw [hnone, (UnpricedMints.record_deferred _ _ List.nodup_nil _ _).2,
        if_neg List.not_mem_nil, hasked]
      exact ite_self none

/-- At its turn the mint is answered a dollar. -/
theorem lowValueTicks_answered {run : List Tick} (hrun : ∀ i ∈ run, ∃ now, i = lowValueTick now)
    (hturn : PriceCandidate.isTurn ⟨zeroPubkey, .lowValue⟩ (exec CADENCE run).worker.tick = true)
    (now : Instant) : ∃ answer f,
      (exec CADENCE run).worker.answer (lowValueTick now) = .ok answer ∧ f ∈ answer.priced ∧
        f.mint = zeroPubkey ∧ atStorageScale f.priceUsd = 10 ^ 18 ∧ f.priceProvider = .jupiter := by
  have hdue : ((exec CADENCE run).worker.unpriced.retainOnly [zeroPubkey]).isDue zeroPubkey now =
      true := by
    unfold UnpricedMints.isDue UnpricedMints.retainOnly
    simp only [lowValueTicks_due hrun, ite_self]
  obtain ⟨mints, hmints, hmem⟩ := PriceWorker.ask_due (i := lowValueTick now) rfl
    List.mem_cons_self hturn hdue
  refine ⟨⟨mints.dedup.map (fun mint => ⟨mint, .jupiter, oneDollar⟩), []⟩,
    ⟨zeroPubkey, .jupiter, oneDollar⟩, ?_, ?_, rfl, by decide, rfl⟩
  · unfold PriceWorker.answer
    rw [hmints]
    rfl
  · exact List.mem_map.mpr ⟨zeroPubkey, List.mem_dedup.mpr hmem, rfl⟩

/-- Any lengths are those of a run. -/
theorem lowValue_run (t : Instant) (hcount : lengths.length < 2 ^ 64) (h : Within a b lengths) :
    LowValue a b [] (lowValueTick t) (lowValueTicks t lengths) zeroPubkey (10 ^ 18) .jupiter where
  count := by
    rw [List.nil_append, List.length_cons, lowValueTicks_length]
    exact hcount
  turn := by decide
  kept := by
    have hnone : ∀ i ∈ ([] : List Tick), ∃ now, i = lowValueTick now := nofun
    obtain ⟨answer, f, hanswer, hf, hmint, hprice, hprovider⟩ :=
      lowValueTicks_answered hnone (by decide) t
    have hlast := step_last (i := lowValueTick t) (fun mints answer hfetch =>
      (lowValueTick_once hfetch).1) hanswer hf (isStorable_of_price hprice (by decide))
      (outcome_accepted rfl)
    rw [List.nil_append, ← List.nil_append [lowValueTick t], exec_concat, ← hmint, hlast]
    unfold KeptPrice.of
    change (if true = true then some _ else _) = _
    rw [if_pos rfl]
    change some (KeptPrice.mk (atStorageScale f.priceUsd) f.priceProvider t) = _
    rw [hprice, hprovider]
    rfl
  storable := by decide
  paced := by
    rw [List.isChain_iff_getElem]
    intro k hk
    rw [List.length_cons, lowValueTicks_length] at hk
    have hearlier := lowValueTicks_now (List.getElem?_eq_getElem (l := lowValueTick t ::
      lowValueTicks t lengths) (i := k) (by rw [List.length_cons, lowValueTicks_length]; omega))
    have hlater := lowValueTicks_now (List.getElem?_eq_getElem (l := lowValueTick t ::
      lowValueTicks t lengths) (i := k + 1) (by
        rw [List.length_cons, lowValueTicks_length]
        exact hk))
    have hsum := List.sum_take_succ lengths k (by omega)
    rw [hearlier, hlater, hsum]
    have hlength := h lengths[k] (List.getElem_mem _)
    constructor
    · linarith
    · linarith
  listed := by
    intro i hi candidates hcandidates c hc _
    obtain ⟨now, hi⟩ := lowValueTicks_mem hi
    rw [hi] at hcandidates
    rw [← Except.ok.inj hcandidates, List.mem_singleton] at hc
    rw [hc]
  asked := by
    intro i hi mints answer hfetch
    obtain ⟨now, hi⟩ := lowValueTicks_mem hi
    rw [hi] at hfetch
    exact lowValueTick_once hfetch
  answered := by
    intro k i hi hturn
    obtain ⟨-, hi⟩ := lowValueTicks_get hi
    rw [hi]
    refine lowValueTicks_answered ?_ hturn _
    intro j hj
    cases List.mem_cons.mp hj with
    | inl hfirst => exact ⟨t, hfirst⟩
    | inr hrest => exact lowValueTicks_mem (List.mem_of_mem_take hrest)
  written := by
    intro k i e hi
    obtain ⟨-, hi⟩ := lowValueTicks_get hi
    rw [hi]
    exact outcome_accepted rfl e

/-- A row short of the floor at a turn, and stale at the next one. -/
theorem lowValue_late {m : Nat} {a b : Int} {steps : List Int} (ha : 0 < a) (hab : a ≤ b)
    (hlength : steps.length = 3 * m) (hcount : 3 * m + 3 < 2 ^ 64) (hwithin : Within a b steps)
    (hshort : steps.sum ≤ 480000000000) (hlate : 900000000000 ≤ steps.sum + 3 * b) :
    LowValue a b [] (lowValueTick NEW_YEAR)
        (lowValueTicks NEW_YEAR (steps ++ List.replicate 3 b)) zeroPubkey (10 ^ 18) .jupiter ∧
      ¬ Spaced [] (lowValueTick NEW_YEAR)
        (lowValueTicks NEW_YEAR (steps ++ List.replicate 3 b)) zeroPubkey := by
  have hlengths : (steps ++ List.replicate 3 b).length = 3 * m + 3 := by
    rw [List.length_append, hlength, List.length_replicate]
  have hrun := lowValue_run (a := a) (b := b) NEW_YEAR (hlengths ▸ hcount)
    (hwithin.append (within_replicate 3 ⟨hab, le_refl b⟩))
  refine ⟨hrun, ?_⟩
  intro hspaced
  have hticks : (lowValueTicks NEW_YEAR (steps ++ List.replicate 3 b)).length = 3 * m + 3 := by
    rw [lowValueTicks_length, hlengths]
  have hfirst := hrun.first_row (k := 3 * m + 2) (by omega) (by
    intro j i hj hturn hi
    obtain ⟨-, hi⟩ := lowValueTicks_get hi
    have hage : (steps.take (j + 1)).sum ≤ 480000000000 := by
      have hrest := Within.sum_nonneg ha.le (hwithin.drop (j + 1))
      have hsplit := List.sum_take_add_sum_drop steps (j + 1)
      omega
    rw [hi]
    change NEW_YEAR + ((steps ++ List.replicate 3 b).take (j + 1)).sum - NEW_YEAR ≤ _
    rw [List.take_append_of_le_length (by omega), add_sub_cancel_left]
    exact hage)
  have hget := List.getElem?_eq_getElem
    (l := lowValueTicks NEW_YEAR (steps ++ List.replicate 3 b)) (i := 3 * m + 2) (by omega)
  have hnow : ((lowValueTicks NEW_YEAR (steps ++ List.replicate 3 b))[3 * m + 2].now -
      (lowValueTick NEW_YEAR).now : Int) = steps.sum + 3 * b := by
    rw [(lowValueTicks_get hget).2]
    change NEW_YEAR + ((steps ++ List.replicate 3 b).take (3 * m + 2 + 1)).sum - NEW_YEAR = _
    rw [List.take_of_length_le (by omega), List.sum_append, List.sum_replicate,
      add_sub_cancel_left]
    exact congrArg (steps.sum + ·) (by simp)
  have hpast : seconds 480 <
      (lowValueTicks NEW_YEAR (steps ++ List.replicate 3 b))[3 * m + 2].now -
        (lowValueTick NEW_YEAR).now := by
    change (480000000000 : Int) < _
    rw [hnow]
    omega
  have hbound := hspaced (3 * m + 2) _ _ _ hget hfirst (hrun.step hget hfirst)
  rw [if_pos ⟨by omega, hpast⟩] at hbound
  change _ < (900000000000 : Int) at hbound
  rw [hnow] at hbound
  omega

end Lengths

/-- Between two tick lengths a motionless low-value price is always rewritten before it is stale
exactly when the lengths are paced. -/
theorem lowValue_spaced_iff {a b : Span} (ha : 0 < a) (hab : a ≤ b) :
    (∀ before first ticks mint price provider, LowValue a b before first ticks mint price provider →
      Spaced before first ticks mint) ↔ Paced a b := by
  constructor
  · intro h
    rw [paced_iff ha hab]
    intro m hshort
    by_contra hlate
    have hcount : 3 * (m : Int) ≤ 480000000000 := by
      have hmul : (3 * m : Int) * 1 ≤ 3 * m * a := mul_le_mul_of_nonneg_left ha (by omega)
      omega
    have hmab : (m : Int) * a ≤ m * b := mul_le_mul_of_nonneg_left hab (by omega)
    have hlow : ((3 * m : Nat) : Int) * a ≤ min (3 * m * b) 480000000000 := by
      push_cast
      exact le_min (by linarith) hshort
    have hhigh : min (3 * m * b) 480000000000 ≤ ((3 * m : Nat) : Int) * b := by
      push_cast
      exact min_le_left _ _
    obtain ⟨steps, hlength, hwithin, hsum⟩ := exists_within (3 * m) hlow hhigh
    obtain ⟨hrun, hstale⟩ := lowValue_late ha hab hlength (by omega) hwithin
      (hsum.trans_le (min_le_right _ _)) (hsum ▸ not_lt.mp hlate)
    exact hstale (h _ _ _ _ _ _ hrun)
  · intro hpaced before first ticks mint price provider hrun
    exact hrun.spaced ha hab hpaced

/-- At lengths over 160 s and under 300 s a row is rewritten at the first turn after it. -/
theorem lowValue_spaced_long : Spaced [] (lowValueTick NEW_YEAR)
    (lowValueTicks NEW_YEAR (List.replicate 6 (seconds 299))) zeroPubkey :=
  (lowValue_spaced_iff (a := seconds 161) (b := seconds 299) (by decide) (by decide)).mpr
    (.inr (.inr (by decide))) _ _ _ _ _ _
    (lowValue_run NEW_YEAR (by decide) (within_replicate 6 (by decide)))

/-- Three ticks of 30 s, then three of 299 s: the row is written again after 987 s. -/
theorem lowValue_stale :
    LowValue (seconds 30) (seconds 299) [] (lowValueTick NEW_YEAR)
        (lowValueTicks NEW_YEAR (List.replicate 3 (seconds 30) ++ List.replicate 3 (seconds 299)))
        zeroPubkey (10 ^ 18) .jupiter ∧
      ¬ Spaced [] (lowValueTick NEW_YEAR)
        (lowValueTicks NEW_YEAR (List.replicate 3 (seconds 30) ++ List.replicate 3 (seconds 299)))
        zeroPubkey :=
  lowValue_late (m := 1) (by decide) (by decide) (by decide) (by decide)
    (within_replicate 3 (by decide)) (by decide) (by decide)

end PriceRun

end YogSothoth.Context
