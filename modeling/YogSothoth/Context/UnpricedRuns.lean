import YogSothoth.Context.PriceTurns

namespace YogSothoth.Context

/-- The answer names a mint among the priced, among the unpriced. -/
def PriceAnswer.Prices (answer : PriceAnswer) (mint : Pubkey) : Prop :=
  mint ∈ answer.priced.map FetchedPrice.mint

namespace PriceRun

/-- The worker and its tables before tick `k` of an endless run. -/
def upTo (secs : Nat) (ticks : Nat → Tick) (k : Nat) : PriceRun :=
  exec (secs * 10 ^ 9) ((List.range k).map ticks)

theorem upTo_succ (secs : Nat) (ticks : Nat → Tick) (k : Nat) :
    upTo secs ticks (k + 1) = (upTo secs ticks k).step (ticks k) := by
  unfold upTo
  rw [List.range_succ, List.map_append, List.map_singleton, exec_concat]

/-- The mint is a candidate of tick `k`. -/
def Listed (ticks : Nat → Tick) (mint : Pubkey) (k : Nat) : Prop :=
  ∃ candidates, (ticks k).candidates = .ok candidates ∧ mint ∈ candidates.map PriceCandidate.mint

/-- Tick `k` asks the source about the mint. -/
def Asked (secs : Nat) (ticks : Nat → Tick) (mint : Pubkey) (k : Nat) : Prop :=
  ∃ mints, ((upTo secs ticks k).worker.ask (ticks k)).2 = .ok mints ∧ mint ∈ mints

/-- The answer of tick `k`. -/
def Answers (secs : Nat) (ticks : Nat → Tick) (k : Nat) (answer : PriceAnswer) : Prop :=
  (upTo secs ticks k).worker.answer (ticks k) = .ok answer

/-- When the mint is due, and its misses, before tick `k`. -/
def deferral (secs : Nat) (ticks : Nat → Tick) (mint : Pubkey) (k : Nat) : Option Deferral :=
  (upTo secs ticks k).worker.unpriced.deferred mint

/-- Ticks that start a cadence apart, each answered before the next one; the mint is a regular
candidate where it is one, and a source names what it was asked, a mint on one side and once. -/
structure Cadenced (secs : Nat) (ticks : Nat → Tick) (mint : Pubkey) : Prop where
  apart : ∀ k, (ticks (k + 1)).askedAt = (ticks k).askedAt + seconds secs
  delayed : ∀ k, (ticks k).askedAt < (ticks k).now ∧
    (ticks k).now < (ticks k).askedAt + seconds secs
  listing : ∀ k, ∃ candidates, (ticks k).candidates = .ok candidates ∧
    ∀ c ∈ candidates, c.mint = mint → c.class_ = .regular
  named : ∀ k mints answer, (ticks k).fetchPrices mints = .ok answer → answer.unpriced.Nodup ∧
    (∀ m ∈ answer.unpriced, m ∈ mints ∧ ¬ answer.Prices m) ∧ ∀ f ∈ answer.priced, f.mint ∈ mints

variable {secs : Nat} {ticks : Nat → Tick} {mint : Pubkey}

theorem upTo_unpriced_tick (hmax : seconds secs ≤ DURATION_MAX)
    (h : Cadenced secs ticks mint) (k : Nat) :
    (upTo secs ticks k).worker.unpriced.tick = seconds secs := by
  induction k with
  | zero =>
    change fromStdOr (secs * 10 ^ 9) UNPRICED_RETRY_MAX = _
    unfold fromStdOr
    have hcast : ((secs * 10 ^ 9 : Nat) : Int) = seconds secs := by
      unfold seconds
      norm_cast
    rw [hcast, if_pos hmax]
  | succ k ih =>
    obtain ⟨candidates, hcandidates, -⟩ := h.listing k
    have hasked : ((upTo secs ticks k).worker.ask (ticks k)).1.unpriced.tick = seconds secs := by
      rw [PriceWorker.ask_unpriced hcandidates]
      exact ih
    rw [upTo_succ, step_unpriced]
    cases hanswer : (upTo secs ticks k).worker.answer (ticks k) with
    | error ending => exact hasked
    | ok answer =>
      obtain ⟨mints, -, hfetch⟩ := PriceWorker.answer_asked hanswer
      have hnodup := (h.named k mints answer hfetch).1
      exact (UnpricedMints.record_deferred _ _ hnodup _ mint).1.trans hasked

/-- A mint is asked where it is a candidate and due. -/
theorem Cadenced.asked_iff (h : Cadenced secs ticks mint) (k : Nat) : Asked secs ticks mint k ↔
    Listed ticks mint k ∧ ∀ d, deferral secs ticks mint k = some d → d.dueAt ≤ (ticks k).askedAt := by
  obtain ⟨candidates, hcandidates, hclass⟩ := h.listing k
  have hdue (hmem : mint ∈ candidates.map PriceCandidate.mint) :
      (((upTo secs ticks k).worker.unpriced.retainOnly (candidates.map (·.mint))).isDue mint
        (ticks k).askedAt = true ↔
      ∀ d, deferral secs ticks mint k = some d → d.dueAt ≤ (ticks k).askedAt) := by
    rw [UnpricedMints.isDue_iff, UnpricedMints.retainOnly_deferred, if_pos hmem]
    rfl
  constructor
  · intro ⟨mints, hmints, hmem⟩
    obtain ⟨candidates', c, hsame, hc, hmint, -, hisDue⟩ := (PriceWorker.mem_asked hmints).mp hmem
    rw [hcandidates] at hsame
    rw [← Except.ok.inj hsame] at hc hisDue
    have hmem : mint ∈ candidates.map PriceCandidate.mint := List.mem_map.mpr ⟨c, hc, hmint⟩
    exact ⟨⟨candidates, hcandidates, hmem⟩, (hdue hmem).mp hisDue⟩
  · intro ⟨⟨candidates', hsame, hmem⟩, hafter⟩
    rw [hcandidates] at hsame
    rw [← Except.ok.inj hsame] at hmem
    obtain ⟨c, hc, hmint⟩ := List.mem_map.mp hmem
    have hturn : c.isTurn (upTo secs ticks k).worker.tick = true := by
      unfold PriceCandidate.isTurn
      rw [hclass c hc hmint]
      change (_ % (1 : UInt64) == _ % 1) = true
      rw [UInt64.mod_one, UInt64.mod_one]
      rfl
    have hisDue := (hdue hmem).mpr hafter
    rw [← hmint] at hisDue
    obtain ⟨mints, hmints, hasked⟩ := PriceWorker.ask_due hcandidates hc hturn hisDue
    exact ⟨mints, hmints, hmint ▸ hasked⟩

/-- Answers without a price in a row before tick `k`, since the last one with a price or the last
tick the mint was no candidate of. -/
inductive Streak (secs : Nat) (ticks : Nat → Tick) (mint : Pubkey) : Nat → Nat → Prop where
  | start : Streak secs ticks mint 0 0
  | left {k n : Nat} : Streak secs ticks mint k n → ¬ Listed ticks mint k →
      Streak secs ticks mint (k + 1) 0
  | missed {k n : Nat} {answer : PriceAnswer} : Streak secs ticks mint k n →
      Listed ticks mint k → Answers secs ticks k answer → mint ∈ answer.unpriced →
      Streak secs ticks mint (k + 1) (n + 1)
  | priced {k n : Nat} {answer : PriceAnswer} : Streak secs ticks mint k n →
      Listed ticks mint k → Answers secs ticks k answer → answer.Prices mint →
      Streak secs ticks mint (k + 1) 0
  | silent {k n : Nat} : Streak secs ticks mint k n → Listed ticks mint k →
      (∀ answer, Answers secs ticks k answer → mint ∉ answer.unpriced ∧ ¬ answer.Prices mint) →
      Streak secs ticks mint (k + 1) n

/-- A tick forgets a mint that is no candidate. -/
theorem Cadenced.ask_deferral (h : Cadenced secs ticks mint) (k : Nat) :
    (¬ Listed ticks mint k →
      ((upTo secs ticks k).worker.ask (ticks k)).1.unpriced.deferred mint = none) ∧
    (Listed ticks mint k →
      ((upTo secs ticks k).worker.ask (ticks k)).1.unpriced.deferred mint =
        deferral secs ticks mint k) := by
  obtain ⟨candidates, hcandidates, -⟩ := h.listing k
  rw [PriceWorker.ask_unpriced hcandidates, UnpricedMints.retainOnly_deferred]
  constructor
  · intro hlisted
    exact if_neg (fun hmem => hlisted ⟨candidates, hcandidates, hmem⟩)
  · intro ⟨candidates', hsame, hmem⟩
    rw [hcandidates] at hsame
    rw [← Except.ok.inj hsame] at hmem
    exact if_pos hmem

theorem answered_deferral {k : Nat} {answer : PriceAnswer}
    (hanswer : Answers secs ticks k answer) : deferral secs ticks mint (k + 1) =
      (((upTo secs ticks k).worker.ask (ticks k)).1.unpriced.record
        (answer.priced.map FetchedPrice.mint) answer.unpriced (ticks k).now).deferred mint := by
  unfold deferral
  rw [upTo_succ, step_unpriced, hanswer]
  rfl

/-- A source names no mint it was not asked. -/
theorem Cadenced.named_asked (h : Cadenced secs ticks mint) {k : Nat} {answer : PriceAnswer}
    (hanswer : Answers secs ticks k answer) (hasked : ¬ Asked secs ticks mint k) :
    mint ∉ answer.unpriced ∧ ¬ answer.Prices mint := by
  obtain ⟨mints, hmints, hfetch⟩ := PriceWorker.answer_asked hanswer
  obtain ⟨-, hunpriced, hpriced⟩ := h.named k mints answer hfetch
  constructor
  · intro hmem
    exact hasked ⟨mints, hmints, (hunpriced mint hmem).1⟩
  · intro hmem
    obtain ⟨f, hf, hmint⟩ := List.mem_map.mp hmem
    exact hasked ⟨mints, hmints, hmint ▸ hpriced f hf⟩

/-- A mint no answer names keeps the deferral the tick asked with. -/
theorem Cadenced.silent (h : Cadenced secs ticks mint) {k : Nat}
    (hsilent : ∀ answer, Answers secs ticks k answer →
      mint ∉ answer.unpriced ∧ ¬ answer.Prices mint) : deferral secs ticks mint (k + 1) =
        ((upTo secs ticks k).worker.ask (ticks k)).1.unpriced.deferred mint := by
  cases hanswer : (upTo secs ticks k).worker.answer (ticks k) with
  | error ending =>
    unfold deferral
    rw [upTo_succ, step_unpriced, hanswer]
    rfl
  | ok answer =>
    obtain ⟨mints, -, hfetch⟩ := PriceWorker.answer_asked hanswer
    obtain ⟨hunpriced, hpriced⟩ := hsilent answer hanswer
    rw [answered_deferral hanswer,
      (UnpricedMints.record_deferred _ _ (h.named k mints answer hfetch).1 _ _).2,
      if_neg hunpriced]
    exact if_neg hpriced

theorem Cadenced.left (h : Cadenced secs ticks mint) {k : Nat} (hleft : ¬ Listed ticks mint k) :
    deferral secs ticks mint (k + 1) = none := by
  rw [← (h.ask_deferral k).1 hleft]
  apply h.silent
  intro answer hanswer
  exact h.named_asked hanswer (fun hasked => hleft ((h.asked_iff k).mp hasked).1)

theorem Cadenced.priced (h : Cadenced secs ticks mint) {k : Nat} {answer : PriceAnswer}
    (hanswer : Answers secs ticks k answer) (hpriced : answer.Prices mint) :
    deferral secs ticks mint (k + 1) = none := by
  obtain ⟨mints, -, hfetch⟩ := PriceWorker.answer_asked hanswer
  obtain ⟨hnodup, hunpriced, -⟩ := h.named k mints answer hfetch
  rw [answered_deferral hanswer, (UnpricedMints.record_deferred _ _ hnodup _ _).2,
    if_neg (fun hmem => (hunpriced mint hmem).2 hpriced)]
  exact if_pos hpriced

/-- One more answer without a price: a wait of `cadence × 2^n` from the answer, capped, and a tick
early. -/
theorem Cadenced.missed (h : Cadenced secs ticks mint) {k : Nat} {answer : PriceAnswer}
    (hanswer : Answers secs ticks k answer) (hunpriced : mint ∈ answer.unpriced) :
    deferral secs ticks mint (k + 1) = some ((upTo secs ticks k).worker.unpriced.missed
      (ticks k).now (deferral secs ticks mint k)) := by
  obtain ⟨mints, hmints, hfetch⟩ := PriceWorker.answer_asked hanswer
  obtain ⟨hnodup, hnamed, -⟩ := h.named k mints answer hfetch
  obtain ⟨hasked, hpriced⟩ := hnamed mint hunpriced
  have hlisted := ((h.asked_iff k).mp ⟨mints, hmints, hasked⟩).1
  obtain ⟨candidates, hcandidates, -⟩ := h.listing k
  have hwait : ((upTo secs ticks k).worker.ask (ticks k)).1.unpriced.missed =
      (upTo secs ticks k).worker.unpriced.missed := by
    rw [PriceWorker.ask_unpriced hcandidates]
    rfl
  rw [answered_deferral hanswer, (UnpricedMints.record_deferred _ _ hnodup _ _).2,
    if_pos hunpriced, (h.ask_deferral k).2 hlisted, hwait]
  exact congrArg (fun last => some ((upTo secs ticks k).worker.unpriced.missed _ last))
    (if_neg hpriced)

/-- The misses of a deferral are the answers without a price in a row, in a `u32`. -/
theorem Streak.misses (h : Cadenced secs ticks mint) {k n : Nat}
    (hstreak : Streak secs ticks mint k n) :
    ((deferral secs ticks mint k).map (·.misses)).getD 0 = min n (2 ^ 32 - 1) := by
  induction hstreak with
  | start => rfl
  | left _ hleft _ =>
    rw [h.left hleft]
    rfl
  | missed _ _ hanswer hunpriced ih =>
    rw [h.missed hanswer hunpriced]
    change min (((deferral secs ticks mint _).map (·.misses)).getD 0 + 1) (2 ^ 32 - 1) = _
    rw [ih]
    omega
  | priced _ _ hanswer hpriced _ =>
    rw [h.priced hanswer hpriced]
    rfl
  | silent _ hlisted hsilent ih =>
    rw [h.silent hsilent, (h.ask_deferral _).2 hlisted, ih]

end PriceRun

end YogSothoth.Context
