import Mathlib.Data.List.Dedup
import YogSothoth.Context.JupiterPrice
import YogSothoth.Context.PriceRuns

namespace YogSothoth.Context

/-- The rate limits are of a sliding minute. -/
def MINUTE : Nat := 60 * SECOND

section Pace

variable {texts : Texts} {spacing : Nat} {server : Server}

/-- The requests of one chunk: spaced, the next one included, at most three and after the slot. -/
structure ChunkPaced (texts : Texts) (spacing : Nat) (server : Server) (chunk : List Pubkey)
    (slot most : Nat) (run : ChunkRun) : Prop where
  spaced : Spaced spacing run.starts
  after : ∀ t ∈ run.starts, slot ≤ t
  next : ∀ t ∈ run.starts, t + spacing ≤ run.nextStart
  done : ∀ t ∈ run.starts, t ≤ run.finish
  bounded : run.starts.length ≤ most
  answered : ∃ k, run.result = fetchChunkInner texts chunk (server k chunk).answer

/-- A chunk that asked leaves its slot behind. -/
theorem ChunkPaced.slot_le {chunk : List Pubkey} {slot most : Nat} {run : ChunkRun}
    (h : ChunkPaced texts spacing server chunk slot most run) (hne : run.starts ≠ []) :
    slot + spacing ≤ run.nextStart ∧ slot ≤ run.finish := by
  obtain ⟨u, hu⟩ := List.exists_mem_of_ne_nil _ hne
  have hafter := h.after u hu
  have hnext := h.next u hu
  have hdone := h.done u hu
  exact ⟨by omega, by omega⟩

/-- A retry waits for its slot too. -/
theorem ChunkPaced.retried {chunk : List Pubkey} {now start wait answered left : Nat}
    {rest : ChunkRun} (h : ChunkPaced texts spacing server chunk (answered + wait) (left + 1) rest)
    (hstart : now ≤ start) (hanswered : start ≤ answered) (hwait : start + spacing - answered ≤ wait)
    (hne : rest.starts ≠ []) :
    ChunkPaced texts spacing server chunk now (left + 2)
      { rest with starts := start :: rest.starts } where
  spaced := h.spaced.cons (fun t ht => by
    have hafter := h.after t ht
    omega)
  after t ht := by
    rcases List.mem_cons.mp ht with rfl | ht
    · exact hstart
    · have hafter := h.after t ht
      omega
  next t ht := by
    rcases List.mem_cons.mp ht with rfl | ht
    · have hslot := (h.slot_le hne).1
      change _ ≤ rest.nextStart
      omega
    · exact h.next t ht
  done t ht := by
    rcases List.mem_cons.mp ht with rfl | ht
    · have hslot := (h.slot_le hne).2
      change _ ≤ rest.finish
      omega
    · exact h.done t ht
  bounded := Nat.succ_le_succ h.bounded
  answered := h.answered

/-- What a batch has asked so far, and when it may ask again. -/
structure BatchPaced (spacing begun : Nat) (shutdown : Option Nat) (s : Fetching) : Prop where
  spaced : Spaced spacing s.starts
  next : ∀ t ∈ s.starts, t + spacing ≤ s.nextStart
  after : ∀ t ∈ s.starts, begun ≤ t
  slot : begun ≤ s.nextStart
  stopped : ∀ stop, shutdown = some stop → (∀ t ∈ s.starts, t < stop) ∧ s.now ≤ max begun stop
  bounded : ∀ turn ∈ s.turns, turn.length ≤ RATE_LIMIT_MAX_ATTEMPTS

theorem BatchPaced.add {begun : Nat} {shutdown : Option Nat} {s : Fetching} {chunk : List Pubkey}
    {run : ChunkRun} (h : BatchPaced spacing begun shutdown s)
    (hrun : ChunkPaced texts spacing server chunk (max s.now s.nextStart)
      RATE_LIMIT_MAX_ATTEMPTS run) (hne : run.starts ≠ [])
    (hstop : ∀ stop, shutdown = some stop → run.finish < stop) :
    BatchPaced spacing begun shutdown ⟨addChunk s.answer run.result, s.turns ++ [run.starts],
      run.nextStart, run.finish, run.serial⟩ where
  spaced := by
    rw [Fetching.starts_concat]
    exact h.spaced.append hrun.spaced (fun a ha b hb => by
      have hnext := h.next a ha
      have hafter := hrun.after b hb
      omega)
  next t ht := by
    rw [Fetching.starts_concat] at ht
    rcases List.mem_append.mp ht with ht | ht
    · have hold := h.next t ht
      have hslot := (hrun.slot_le hne).1
      change _ ≤ run.nextStart
      omega
    · exact hrun.next t ht
  after t ht := by
    rw [Fetching.starts_concat] at ht
    rcases List.mem_append.mp ht with ht | ht
    · exact h.after t ht
    · have hslot := h.slot
      have hafter := hrun.after t ht
      omega
  slot := by
    have hslot := h.slot
    have hnext := (hrun.slot_le hne).1
    change _ ≤ run.nextStart
    omega
  stopped stop hshutdown := by
    have hfinish := hstop stop hshutdown
    refine ⟨fun t ht => ?_, ?_⟩
    · rw [Fetching.starts_concat] at ht
      rcases List.mem_append.mp ht with ht | ht
      · exact (h.stopped stop hshutdown).1 t ht
      · exact Nat.lt_of_le_of_lt (hrun.done t ht) hfinish
    · change run.finish ≤ _
      omega
  bounded turn hturn := by
    rcases List.mem_append.mp hturn with hturn | hturn
    · exact h.bounded turn hturn
    · rw [List.mem_singleton.mp hturn]
      exact hrun.bounded

end Pace

section Told

variable (texts : Texts) (server : Server)

/-- What a chunk was told: nothing, or a verdict on each of its mints from a response that prices
one of them. -/
structure Told (chunk : List Pubkey) (told : PriceAnswer) : Prop where
  small : chunk.length ≤ JUPITER_BATCH_MAX
  verdict : told = ⟨[], []⟩ ∨ ∃ k status retryAfter response,
    (server k chunk).answer = .answered status retryAfter (.ok response) ∧
    status ≠ 429 ∧ ¬ (400 ≤ status ∧ status < 600) ∧
    told.priced = response.filterMap (intoFetchedPrice texts) ∧
    (∃ mint ∈ chunk, mint ∈ told.priced.map FetchedPrice.mint) ∧
    told.unpriced = chunk.filter (fun mint => mint ∉ told.priced.map FetchedPrice.mint)

end Told

section Answer

variable {texts : Texts} {spacing : Nat} {server : Server}

/-- What a request adds to the answer. -/
def told (result : Except SourceError PriceAnswer) : PriceAnswer :=
  match result with
  | .ok answer => answer
  | .error _ => ⟨[], []⟩

/-- A server that prices what it is asked, once each, as its documentation has it. -/
def Named (texts : Texts) (server : Server) : Prop :=
  ∀ k asked status retryAfter response,
    (server k asked).answer = .answered status retryAfter (.ok response) →
      ((response.filterMap (intoFetchedPrice texts)).map FetchedPrice.mint).Nodup ∧
      ∀ f ∈ response.filterMap (intoFetchedPrice texts), f.mint ∈ asked

theorem Told.named {chunk : List Pubkey} {answer : PriceAnswer} (h : Told texts server chunk answer)
    (hnamed : Named texts server) : (answer.priced.map FetchedPrice.mint).Nodup ∧
      ∀ f ∈ answer.priced, f.mint ∈ chunk := by
  rcases h.verdict with rfl | ⟨k, status, retryAfter, response, hanswer, -, -, hpriced, -, -⟩
  · exact ⟨List.nodup_nil, fun f hf => by cases hf⟩
  · rw [hpriced]
    exact hnamed k chunk status retryAfter response hanswer

theorem Told.unpriced {chunk : List Pubkey} {answer : PriceAnswer}
    (h : Told texts server chunk answer) : answer.unpriced.Sublist chunk ∧
      ∀ mint ∈ answer.unpriced, mint ∉ answer.priced.map FetchedPrice.mint := by
  rcases h.verdict with rfl | ⟨-, -, -, -, -, -, -, -, -, hunpriced⟩
  · exact ⟨List.nil_sublist chunk, fun mint hmint => by cases hmint⟩
  · rw [hunpriced]
    exact ⟨List.filter_sublist, fun mint hmint => of_decide_eq_true (List.mem_filter.mp hmint).2⟩

end Answer

/-- What a batch comes to, whatever the server and the network do and whenever the stop comes. -/
structure Fetched (texts : Texts) (server : Server) (rateLimit : NonZeroU32)
    (shutdown : Option Nat) (start : Nat) (mints : List Pubkey) (s : Fetching) : Prop where
  spaced : Spaced (spacingUnder rateLimit) s.starts
  limited : ∀ opened, (s.starts.filter (fun t => opened ≤ t ∧ t < opened + MINUTE)).length ≤
    rateLimit.1.toNat
  attempts : ∀ turn ∈ s.turns, turn.length ≤ RATE_LIMIT_MAX_ATTEMPTS
  turns : s.turns.length ≤ (mints.length + 49) / 50 ∧
    (shutdown = none → s.turns.length = (mints.length + 49) / 50)
  begun : ∀ t ∈ s.starts, start ≤ t
  stopped : ∀ stop, shutdown = some stop →
    (∀ t ∈ s.starts, t < stop) ∧ s.now ≤ max start stop
  told : ∃ outcomes : List (List Pubkey × PriceAnswer),
    (outcomes.map Prod.fst).flatten <+: mints ∧
    (shutdown = none → (outcomes.map Prod.fst).flatten = mints) ∧
    (∀ o ∈ outcomes, Told texts server o.1 o.2) ∧
    s.answer.priced = outcomes.flatMap (·.2.priced) ∧
    s.answer.unpriced = outcomes.flatMap (·.2.unpriced)
  once : mints.Nodup → Named texts server → s.answer.Once ∧ s.answer.unpriced.Nodup ∧
    (∀ f ∈ s.answer.priced, f.mint ∈ mints) ∧
    ∀ mint ∈ s.answer.unpriced, mint ∈ mints ∧ mint ∉ s.answer.priced.map FetchedPrice.mint

end YogSothoth.Context
