import Mathlib.Algebra.Order.Ring.Int
import Mathlib.Data.List.Dedup
import Mathlib.Tactic.IntervalCases
import Mathlib.Tactic.Linarith
import Mathlib.Tactic.Positivity
import YogSothoth.Context.UnpricedRuns

namespace YogSothoth.Context

section Multiples

variable {T wait delay : Int}

/-- A wait of so many cadences and less than one more ends at that many. -/
theorem doubled_due {m l : Nat} (hdelay : 0 < delay) (hlt : delay < T) (hl : l ≤ m) :
    m * T + delay ≤ (l + 1 : Nat) * T ↔ l = m := by
  have hpos : 0 < T := hdelay.trans hlt
  constructor
  · intro h
    by_contra hne
    have hmul : ((l + 1 : Nat) : Int) * T ≤ m * T :=
      mul_le_mul_of_nonneg_right (by omega) hpos.le
    omega
  · intro h
    rw [h]
    push_cast
    linarith

/-- The first tick past a wait, when some tick is. -/
theorem exists_first_due {j : Nat} (hj : 1 ≤ j) (hdue : wait ≤ (j + 1 : Nat) * T) :
    ∃ i, 1 ≤ i ∧ i ≤ j ∧ ∀ l : Nat, 1 ≤ l → l ≤ i → (wait ≤ (l + 1 : Nat) * T ↔ l = i) := by
  classical
  have hexists : ∃ i : Nat, 1 ≤ i ∧ wait ≤ (i + 1 : Nat) * T := ⟨j, hj, hdue⟩
  obtain ⟨hfirst, hfound⟩ := Nat.find_spec hexists
  refine ⟨Nat.find hexists, hfirst, Nat.find_min' hexists ⟨hj, hdue⟩, ?_⟩
  intro l hl hle
  constructor
  · intro h
    exact le_antisymm hle (Nat.find_min' hexists ⟨hl, h⟩)
  · intro h
    rw [h]
    exact hfound

/-- A capped wait ends within the cap exactly when the delay leaves room for what the cap is past a
multiple of the cadence. -/
theorem capped_due {cap : Int} (hle : T ≤ cap) (hdelay : 0 < delay)
    (hlt : delay < T) : (∃ j : Nat, 1 ≤ j ∧ j * T ≤ cap ∧ cap + delay ≤ (j + 1 : Nat) * T) ↔
      cap % T + delay ≤ T := by
  have hpos : 0 < T := hdelay.trans hlt
  have hsplit := Int.mul_ediv_add_emod cap T
  constructor
  · intro ⟨j, hj, hjcap, hdue⟩
    have hquot : (j : Int) ≤ cap / T := (Int.le_ediv_iff_mul_le hpos).mpr hjcap
    have hmul : (j : Int) * T ≤ cap / T * T := mul_le_mul_of_nonneg_right hquot hpos.le
    push_cast at hdue
    linarith
  · intro hroom
    have hone : 1 ≤ cap / T := (Int.le_ediv_iff_mul_le hpos).mpr (by linarith)
    obtain ⟨j, hj⟩ := Int.eq_ofNat_of_zero_le (by omega : 0 ≤ cap / T)
    have hmod := Int.emod_nonneg cap hpos.ne'
    rw [hj] at hsplit hone
    refine ⟨j, by omega, by linarith, ?_⟩
    push_cast
    linarith

end Multiples

namespace PriceRun

/-- After tick `k` the mint is next asked `j` ticks later. -/
def NextAsk (secs : Nat) (ticks : Nat → Tick) (mint : Pubkey) (k j : Nat) : Prop :=
  Asked secs ticks mint (k + j) ∧ ∀ l, 1 ≤ l → l < j → ¬ Asked secs ticks mint (k + l)

/-- The mint stays a candidate for `j` ticks after tick `k`. -/
def Stays (ticks : Nat → Tick) (mint : Pubkey) (k j : Nat) : Prop :=
  ∀ l, 1 ≤ l → l ≤ j → Listed ticks mint (k + l)

/-- What the rule announces of a mint, at a cadence. -/
structure AsAnnounced (secs : Nat) (ticks : Nat → Tick) (mint : Pubkey) : Prop where
  doubled : ∀ k n answer, Answers secs ticks k answer → mint ∈ answer.unpriced →
    Streak secs ticks mint (k + 1) n → 2 ^ n * seconds secs ≤ UNPRICED_RETRY_MAX →
    Stays ticks mint k (2 ^ n) → NextAsk secs ticks mint k (2 ^ n)
  bounded : ∀ k, Asked secs ticks mint k → ∃ j : Nat, 1 ≤ j ∧
    j * seconds secs ≤ (UnpricedMints.new (secs * 10 ^ 9)).asksAgainAtMostEvery ∧
    (Stays ticks mint k j → NextAsk secs ticks mint k j)
  priced : ∀ k answer, Answers secs ticks k answer → answer.Prices mint →
    Listed ticks mint (k + 1) → Asked secs ticks mint (k + 1)
  left : ∀ k, ¬ Listed ticks mint k → Listed ticks mint (k + 1) → Asked secs ticks mint (k + 1)
  silent : ∀ k answer, Listed ticks mint k → Answers secs ticks k answer →
    mint ∉ answer.unpriced → ¬ answer.Prices mint →
    deferral secs ticks mint (k + 1) = deferral secs ticks mint k

/-- A wait that is not cut short by the cap, or an answer that leaves room for what the cap is past
a multiple of the cadence. -/
def Punctual (secs n : Nat) (delay : Span) : Prop :=
  2 ^ n * seconds secs ≤ UNPRICED_RETRY_MAX ∨ UNPRICED_RETRY_MAX < seconds secs ∨
    UNPRICED_RETRY_MAX % seconds secs + delay ≤ seconds secs

variable {secs : Nat} {ticks : Nat → Tick} {mint : Pubkey}

theorem Cadenced.askedAt (h : Cadenced secs ticks mint) (k l : Nat) :
    (ticks (k + l)).askedAt = (ticks k).askedAt + l * seconds secs := by
  induction l with
  | zero => simp
  | succ l ih =>
    rw [← Nat.add_assoc, h.apart, ih]
    push_cast
    ring

/-- A mint that is not asked keeps its deferral. -/
theorem Cadenced.waits (h : Cadenced secs ticks mint) {k : Nat} (l : Nat)
    (hstays : Stays ticks mint k l)
    (hunasked : ∀ l', 1 ≤ l' → l' ≤ l → ¬ Asked secs ticks mint (k + l')) :
    deferral secs ticks mint (k + l + 1) = deferral secs ticks mint (k + 1) := by
  induction l with
  | zero => rfl
  | succ l ih =>
    have hsilent := h.silent (k := k + (l + 1)) (fun answer hanswer =>
      h.named_asked hanswer (hunasked (l + 1) (Nat.succ_pos l) (le_refl _)))
    rw [hsilent, (h.ask_deferral _).2 (hstays (l + 1) (Nat.succ_pos l) (le_refl _))]
    exact ih (fun l' hl' hle => hstays l' hl' (Nat.le_succ_of_le hle))
      (fun l' hl' hle => hunasked l' hl' (Nat.le_succ_of_le hle))

/-- A mint due an instant is next asked at the first tick from it on. -/
theorem Cadenced.nextAsk (h : Cadenced secs ticks mint) {k j : Nat} (hj : 1 ≤ j)
    (hdue : ∀ l, 1 ≤ l → l ≤ j → ((∀ d, deferral secs ticks mint (k + 1) = some d →
      d.dueAt ≤ (ticks (k + l)).askedAt) ↔ l = j)) (hstays : Stays ticks mint k j) :
    NextAsk secs ticks mint k j := by
  have hunasked (l : Nat) (hlt : l < j) :
      ∀ l', 1 ≤ l' → l' ≤ l → ¬ Asked secs ticks mint (k + l') := by
    induction l with
    | zero =>
      intro l' hl' hle
      omega
    | succ l ih =>
      have ih := ih (Nat.lt_of_succ_lt hlt)
      intro l' hl' hle
      by_cases hlast : l' ≤ l
      · exact ih l' hl' hlast
      · have hsame : l' = l + 1 := by omega
        rw [hsame]
        intro hasked
        have hdeferral := h.waits l (fun l' hl' hle => hstays l' hl' (by omega)) ih
        have hafter := ((h.asked_iff _).mp hasked).2
        rw [← Nat.add_assoc, hdeferral, Nat.add_assoc] at hafter
        have heq := (hdue (l + 1) (Nat.succ_pos l) hlt.le).mp hafter
        omega
  refine ⟨?_, fun l hl hlt => hunasked l hlt l hl (le_refl l)⟩
  obtain ⟨j, rfl⟩ : ∃ i, j = i + 1 := ⟨j - 1, by omega⟩
  have hdeferral := h.waits j (fun l' hl' hle => hstays l' hl' (by omega))
    (hunasked j (Nat.lt_succ_self j))
  rw [h.asked_iff, ← Nat.add_assoc, hdeferral, Nat.add_assoc]
  exact ⟨hstays (j + 1) hj (le_refl _), (hdue (j + 1) hj (le_refl _)).mpr rfl⟩

theorem Streak.exists (secs : Nat) (ticks : Nat → Tick) (mint : Pubkey) (k : Nat) :
    ∃ n, Streak secs ticks mint k n := by
  induction k with
  | zero => exact ⟨0, .start⟩
  | succ k ih =>
    obtain ⟨n, hn⟩ := ih
    by_cases hlisted : Listed ticks mint k
    · by_cases hunpriced : ∃ answer, Answers secs ticks k answer ∧ mint ∈ answer.unpriced
      · obtain ⟨answer, hanswer, hunpriced⟩ := hunpriced
        exact ⟨n + 1, .missed hn hlisted hanswer hunpriced⟩
      · by_cases hpriced : ∃ answer, Answers secs ticks k answer ∧ answer.Prices mint
        · obtain ⟨answer, hanswer, hpriced⟩ := hpriced
          exact ⟨0, .priced hn hlisted hanswer hpriced⟩
        · exact ⟨n, .silent hn hlisted (fun answer hanswer =>
            ⟨fun hmem => hunpriced ⟨answer, hanswer, hmem⟩,
              fun hmem => hpriced ⟨answer, hanswer, hmem⟩⟩)⟩
    · exact ⟨0, .left hn hlisted⟩

/-- The wait after so many answers without a price in a row. -/
def waitOf (secs n : Nat) : Int := min (2 ^ n * seconds secs) UNPRICED_RETRY_MAX

theorem waitAfter_eq {unpriced : UnpricedMints} (htick : unpriced.tick = seconds secs)
    (hpos : 0 < secs) (n : Nat) : unpriced.waitAfter (min n (2 ^ 32 - 1)) = waitOf secs n := by
  unfold UnpricedMints.waitAfter waitOf
  rw [htick, mul_comm]
  by_cases hsmall : n ≤ 20
  · have hmin : min (min n (2 ^ 32 - 1)) 20 = n := by omega
    rw [hmin]
  · have hmin : min (min n (2 ^ 32 - 1)) 20 = 20 := by omega
    have hsecs : 1 ≤ (secs : Int) := by omega
    have hcap (m : Nat) (hm : 20 ≤ m) : UNPRICED_RETRY_MAX ≤ 2 ^ m * seconds secs := by
      have hpow : (2 : Int) ^ 20 ≤ 2 ^ m := pow_le_pow_right₀ (by decide) hm
      have hmul : (2 : Int) ^ 20 * (1 * 10 ^ 9) ≤ 2 ^ m * (secs * 10 ^ 9) :=
        mul_le_mul hpow (by omega) (by decide) (by positivity)
      exact le_trans (by decide) hmul
    rw [hmin, min_eq_right (hcap 20 (le_refl 20)), min_eq_right (hcap n (by omega))]

/-- After an answer without a price, the ticks that are past the wait. -/
theorem Cadenced.due_iff (hpos : 0 < secs) (hmax : seconds secs ≤ DURATION_MAX)
    (h : Cadenced secs ticks mint) {k n : Nat} {answer : PriceAnswer}
    (hanswer : Answers secs ticks k answer) (hunpriced : mint ∈ answer.unpriced)
    (hstreak : Streak secs ticks mint (k + 1) n) (l : Nat) :
    (∀ d, deferral secs ticks mint (k + 1) = some d → d.dueAt ≤ (ticks (k + l)).askedAt) ↔
      waitOf secs n + ((ticks k).now - (ticks k).askedAt) ≤ (l + 1 : Nat) * seconds secs := by
  have hmisses := hstreak.misses h
  have htick := upTo_unpriced_tick hmax h k
  rw [h.missed hanswer hunpriced] at hmisses ⊢
  change (UnpricedMints.missed _ _ _).misses = _ at hmisses
  have hat : ((upTo secs ticks k).worker.unpriced.missed (ticks k).now
      (deferral secs ticks mint k)).dueAt =
        (ticks k).now + waitOf secs n - seconds secs := by
    rw [← waitAfter_eq htick hpos n, ← hmisses, ← htick]
    rfl
  constructor
  · intro hdue
    have hdue := hdue _ rfl
    rw [hat, h.askedAt] at hdue
    push_cast
    linarith
  · intro hdue d hd
    rw [← Option.some.inj hd, hat, h.askedAt]
    push_cast at hdue
    linarith

theorem new_asksAgain (hmax : seconds secs ≤ DURATION_MAX) :
    (UnpricedMints.new (secs * 10 ^ 9)).asksAgainAtMostEvery =
      max UNPRICED_RETRY_MAX (seconds secs) := by
  have hcast : ((secs * 10 ^ 9 : Nat) : Int) = seconds secs := by
    unfold seconds
    norm_cast
  change max UNPRICED_RETRY_MAX (fromStdOr (secs * 10 ^ 9) UNPRICED_RETRY_MAX) = _
  unfold fromStdOr
  rw [hcast, if_pos hmax]

/-- A mint that is due when it is asked is asked again at the next tick, unless it is then held back. -/
theorem Cadenced.next_tick (h : Cadenced secs ticks mint) {k : Nat}
    (hdue : ∀ d, deferral secs ticks mint (k + 1) = some d → d.dueAt ≤ (ticks k).askedAt)
    (hlisted : Listed ticks mint (k + 1)) : Asked secs ticks mint (k + 1) := by
  rw [h.asked_iff]
  refine ⟨hlisted, fun d hd => (hdue d hd).trans ?_⟩
  have hdelay := h.delayed k
  rw [h.apart]
  linarith [hdelay.1, hdelay.2]

/-- A tick past the wait, within what is announced, when the answer is punctual. -/
theorem punctual_due {n : Nat} {delay : Int} (hdelay : 0 < delay)
    (hlt : delay < seconds secs) (h : Punctual secs n delay) : ∃ j : Nat, 1 ≤ j ∧
      j * seconds secs ≤ max UNPRICED_RETRY_MAX (seconds secs) ∧
      waitOf secs n + delay ≤ (j + 1 : Nat) * seconds secs := by
  have hsecs : 0 < seconds secs := hdelay.trans hlt
  unfold waitOf
  obtain h | h | h := h
  · refine ⟨2 ^ n, Nat.one_le_two_pow, ?_, ?_⟩
    · push_cast
      exact h.trans (le_max_left _ _)
    · rw [min_eq_left h]
      push_cast
      linarith
  · refine ⟨1, le_refl 1, ?_, ?_⟩
    · rw [Nat.cast_one, one_mul]
      exact le_max_right _ _
    · have hmin := min_le_right (2 ^ n * seconds secs) UNPRICED_RETRY_MAX
      push_cast
      linarith
  · by_cases hle : seconds secs ≤ UNPRICED_RETRY_MAX
    · obtain ⟨j, hj, hcap, hdue⟩ := (capped_due hle hdelay hlt).mpr h
      refine ⟨j, hj, hcap.trans (le_max_left _ _), ?_⟩
      have hmin := min_le_right (2 ^ n * seconds secs) UNPRICED_RETRY_MAX
      linarith
    · refine ⟨1, le_refl 1, ?_, ?_⟩
      · rw [Nat.cast_one, one_mul]
        exact le_max_right _ _
      · have hmin := min_le_right (2 ^ n * seconds secs) UNPRICED_RETRY_MAX
        push_cast
        linarith [not_le.mp hle]

/-- A mint that is not held back is asked at the next tick. -/
theorem Cadenced.nextAsk_one (h : Cadenced secs ticks mint) {k : Nat}
    (hdue : ∀ d, deferral secs ticks mint (k + 1) = some d → d.dueAt ≤ (ticks k).askedAt)
    (hstays : Stays ticks mint k 1) : NextAsk secs ticks mint k 1 :=
  ⟨h.next_tick hdue (hstays 1 (le_refl 1) (le_refl 1)), fun l hl hlt => by omega⟩

/-- A mint asked and not answered without a price is not held back. -/
theorem Cadenced.not_held (h : Cadenced secs ticks mint) {k : Nat} (hask : Asked secs ticks mint k)
    (hpriced : ∀ answer, Answers secs ticks k answer → mint ∉ answer.unpriced) :
    ∀ d, deferral secs ticks mint (k + 1) = some d → d.dueAt ≤ (ticks k).askedAt := by
  intro d hd
  obtain ⟨hlisted, hdue⟩ := (h.asked_iff k).mp hask
  by_cases hnamed : ∃ answer, Answers secs ticks k answer ∧ answer.Prices mint
  · obtain ⟨answer, hanswer, hprices⟩ := hnamed
    rw [h.priced hanswer hprices] at hd
    cases hd
  · rw [h.silent (fun answer hanswer => ⟨hpriced answer hanswer,
      fun hprices => hnamed ⟨answer, hanswer, hprices⟩⟩), (h.ask_deferral k).2 hlisted] at hd
    exact hdue d hd

/-- The mint is asked again as announced exactly when each of its answers without a price is
punctual, or it leaves the candidates first. -/
theorem asAnnounced_iff (hpos : 0 < secs) (hmax : seconds secs ≤ DURATION_MAX)
    (h : Cadenced secs ticks mint) : AsAnnounced secs ticks mint ↔
      ∀ k n answer, Answers secs ticks k answer → mint ∈ answer.unpriced →
        Streak secs ticks mint (k + 1) n →
        (∃ l : Nat, 1 ≤ l ∧ ¬ Listed ticks mint (k + l) ∧
          l * seconds secs ≤ (UnpricedMints.new (secs * 10 ^ 9)).asksAgainAtMostEvery) ∨
        Punctual secs n ((ticks k).now - (ticks k).askedAt) := by
  have hdelay (k : Nat) : 0 < (ticks k).now - (ticks k).askedAt ∧
      (ticks k).now - (ticks k).askedAt < seconds secs :=
    ⟨sub_pos.mpr (h.delayed k).1, sub_lt_iff_lt_add'.mpr (h.delayed k).2⟩
  have hasked {k : Nat} {answer : PriceAnswer} (hanswer : Answers secs ticks k answer)
      (hnamed : mint ∈ answer.unpriced ∨ answer.Prices mint) : Asked secs ticks mint k := by
    by_contra hunasked
    obtain ⟨hunpriced, hpriced⟩ := h.named_asked hanswer hunasked
    exact hnamed.elim hunpriced hpriced
  rw [new_asksAgain hmax]
  constructor
  · intro hall k n answer hanswer hunpriced hstreak
    by_contra hneither
    rw [not_or, not_exists] at hneither
    obtain ⟨hstays, hlate⟩ := hneither
    unfold Punctual at hlate
    rw [not_or, not_or, not_le, not_lt] at hlate
    obtain ⟨hcapped, hle, hlate⟩ := hlate
    obtain ⟨j, hj, hjmax, hnext⟩ := hall.bounded k (hasked hanswer (.inl hunpriced))
    rw [new_asksAgain hmax, max_eq_left hle] at hjmax
    have hlisted : Stays ticks mint k j := by
      intro l hl hlj
      by_contra hgone
      refine hstays l ⟨hl, hgone, ?_⟩
      rw [max_eq_left hle]
      have hmul : (l : Int) * seconds secs ≤ j * seconds secs :=
        mul_le_mul_of_nonneg_right (by omega) ((hdelay k).1.trans (hdelay k).2).le
      exact hmul.trans hjmax
    obtain ⟨hagain, hbetween⟩ := hnext hlisted
    obtain ⟨i, rfl⟩ : ∃ i, j = i + 1 := ⟨j - 1, by omega⟩
    have hdeferral := h.waits i (fun l hl hli => hlisted l hl (by omega))
      (fun l hl hli => hbetween l hl (by omega))
    have hdue := ((h.asked_iff _).mp hagain).2
    rw [← Nat.add_assoc, hdeferral, Nat.add_assoc,
      h.due_iff hpos hmax hanswer hunpriced hstreak, waitOf, min_eq_right hcapped.le] at hdue
    exact absurd ((capped_due hle (hdelay k).1 (hdelay k).2).mp ⟨i + 1, hj, hjmax, hdue⟩)
      hlate
  · intro hpunctual
    refine ⟨?_, ?_, ?_, ?_, ?_⟩
    · intro k n answer hanswer hunpriced hstreak hshort hstays
      refine h.nextAsk Nat.one_le_two_pow (fun l hl hle => ?_) hstays
      rw [h.due_iff hpos hmax hanswer hunpriced hstreak, waitOf, min_eq_left hshort]
      have hdue := doubled_due (hdelay k).1 (hdelay k).2 hle
      push_cast at hdue ⊢
      exact hdue
    · intro k hask
      rw [new_asksAgain hmax]
      by_cases hunpriced : ∃ answer, Answers secs ticks k answer ∧ mint ∈ answer.unpriced
      · obtain ⟨answer, hanswer, hunpriced⟩ := hunpriced
        obtain ⟨n, hstreak⟩ := Streak.exists secs ticks mint (k + 1)
        cases hpunctual k n answer hanswer hunpriced hstreak with
        | inl hgone =>
          obtain ⟨l, hl, hgone, hlmax⟩ := hgone
          exact ⟨l, hl, hlmax, fun hstays => absurd (hstays l hl (le_refl l)) hgone⟩
        | inr hpunctual =>
          obtain ⟨j, hj, hjmax, hdue⟩ := punctual_due (hdelay k).1 (hdelay k).2 hpunctual
          obtain ⟨i, hi, hij, hfirst⟩ := exists_first_due hj hdue
          have hmul : (i : Int) * seconds secs ≤ j * seconds secs :=
            mul_le_mul_of_nonneg_right (by omega) ((hdelay k).1.trans (hdelay k).2).le
          refine ⟨i, hi, hmul.trans hjmax, h.nextAsk hi (fun l hl hle => ?_)⟩
          rw [h.due_iff hpos hmax hanswer hunpriced hstreak]
          exact hfirst l hl hle
      · refine ⟨1, le_refl 1, ?_, h.nextAsk_one (h.not_held hask fun answer hanswer hmem =>
          hunpriced ⟨answer, hanswer, hmem⟩)⟩
        rw [Nat.cast_one, one_mul]
        exact le_max_right _ _
    · intro k answer hanswer hpriced hlisted
      refine h.next_tick (fun d hd => ?_) hlisted
      rw [h.priced hanswer hpriced] at hd
      cases hd
    · intro k hleft hlisted
      refine h.next_tick (fun d hd => ?_) hlisted
      rw [h.left hleft] at hd
      cases hd
    · intro k answer hlisted hanswer hunpriced hpriced
      rw [h.silent (fun answer' hanswer' => ?_), (h.ask_deferral k).2 hlisted]
      have hsame : answer = answer' := Except.ok.inj (hanswer.symm.trans hanswer')
      rw [← hsame]
      exact ⟨hunpriced, hpriced⟩

/-- A candidate the source never prices, asked a cadence apart and answered after a delay. -/
def unpricedTicks (secs : Nat) (delay : Int) (k : Nat) : Tick where
  candidates := .ok [⟨zeroPubkey, .regular⟩]
  askedAt := NEW_YEAR + k * seconds secs
  fetchPrices := fun mints => .ok ⟨[], mints.dedup⟩
  now := NEW_YEAR + k * seconds secs + delay
  refused := none

theorem unpricedTicks_cadenced {secs : Nat} {delay : Int} (hdelay : 0 < delay)
    (hlt : delay < seconds secs) : Cadenced secs (unpricedTicks secs delay) zeroPubkey where
  apart k := by
    change NEW_YEAR + ((k + 1 : Nat) : Int) * seconds secs = NEW_YEAR + k * seconds secs + _
    push_cast
    ring
  delayed k := by
    change NEW_YEAR + k * seconds secs < NEW_YEAR + k * seconds secs + delay ∧
      NEW_YEAR + k * seconds secs + delay < NEW_YEAR + k * seconds secs + seconds secs
    constructor
    · linarith
    · linarith
  listing k := by
    refine ⟨[⟨zeroPubkey, .regular⟩], rfl, fun c hc _ => ?_⟩
    rw [List.mem_singleton.mp hc]
  named k mints answer hanswer := by
    rw [← Except.ok.inj hanswer]
    exact ⟨List.nodup_dedup mints, fun m hm => ⟨List.mem_dedup.mp hm, nofun⟩, nofun⟩

theorem unpricedTicks_listed (secs : Nat) (delay : Int) (k : Nat) :
    Listed (unpricedTicks secs delay) zeroPubkey k := ⟨_, rfl, List.mem_cons_self⟩

/-- At 30 s and answers after a tenth of a second, the mint is asked again as announced. -/
theorem unpricedTicks_asAnnounced :
    AsAnnounced 30 (unpricedTicks 30 (10 ^ 8)) zeroPubkey := by
  refine (asAnnounced_iff (by decide) (by decide)
    (unpricedTicks_cadenced (by decide) (by decide))).mpr ?_
  intro k n answer _ _ _
  refine .inr (.inr (.inr ?_))
  change UNPRICED_RETRY_MAX % seconds (30 : Nat) +
    (NEW_YEAR + k * seconds (30 : Nat) + 10 ^ 8 - (NEW_YEAR + k * seconds (30 : Nat))) ≤ _
  rw [add_sub_cancel_left]
  decide

/-- At ten minutes and answers after 400 s, the mint is asked again after twenty minutes, where
fifteen are announced. -/
theorem unpricedTicks_late : Cadenced 600 (unpricedTicks 600 (seconds 400)) zeroPubkey ∧
    (UnpricedMints.new (600 * 10 ^ 9)).asksAgainAtMostEvery = seconds 900 ∧
    NextAsk 600 (unpricedTicks 600 (seconds 400)) zeroPubkey 0 2 ∧
    ¬ AsAnnounced 600 (unpricedTicks 600 (seconds 400)) zeroPubkey := by
  have hrun : Cadenced 600 (unpricedTicks 600 (seconds 400)) zeroPubkey :=
    unpricedTicks_cadenced (by decide) (by decide)
  have hstays (j : Nat) : Stays (unpricedTicks 600 (seconds 400)) zeroPubkey 0 j :=
    fun l _ _ => unpricedTicks_listed 600 (seconds 400) (0 + l)
  have hasked : Asked 600 (unpricedTicks 600 (seconds 400)) zeroPubkey 0 :=
    (hrun.asked_iff 0).mpr ⟨unpricedTicks_listed 600 (seconds 400) 0, nofun⟩
  obtain ⟨mints, hmints, hmem⟩ := hasked
  have hanswer : Answers 600 (unpricedTicks 600 (seconds 400)) 0 ⟨[], mints.dedup⟩ := by
    unfold Answers PriceWorker.answer
    rw [hmints]
    rfl
  have hunpriced : zeroPubkey ∈ mints.dedup := List.mem_dedup.mpr hmem
  have hstreak : Streak 600 (unpricedTicks 600 (seconds 400)) zeroPubkey 1 1 :=
    .missed .start (unpricedTicks_listed 600 (seconds 400) 0) hanswer hunpriced
  have hdue := hrun.due_iff (by decide) (by decide) hanswer hunpriced hstreak
  refine ⟨hrun, rfl, hrun.nextAsk (by decide) (fun l hl hle => ?_) (hstays 2), ?_⟩
  · rw [hdue]
    interval_cases l
    · decide
    · decide
  · intro hall
    obtain ⟨j, hj, hjmax, hnext⟩ := hall.bounded 0 ⟨mints, hmints, hmem⟩
    have hone : j = 1 := by
      change (j : Int) * 600000000000 ≤ 900000000000 at hjmax
      omega
    rw [hone] at hnext
    have hagain := ((hrun.asked_iff 1).mp (hnext (hstays 1)).1).2
    rw [hdue 1] at hagain
    exact absurd hagain (by decide)

end PriceRun

end YogSothoth.Context
