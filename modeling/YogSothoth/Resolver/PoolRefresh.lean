import YogSothoth.Resolver.PoolRow
import Mathlib.Data.List.Induction

namespace YogSothoth.Resolver

/-- Where the resolver's cycle stands with the pool. -/
inductive Phase where
  | idle
  | listed
  | fetched (version : Nat)
  | stored (version : Nat)
  deriving DecidableEq

/-- One pool: the account's version on chain, the last change whose event is persisted, its row,
the resolver, and the version the registry columns were last written from. -/
structure PoolState where
  current : Nat
  persisted : Nat
  row : PoolRow
  phase : Phase
  source : Option Nat
  deriving DecidableEq

inductive Action where
  | change
  | persistUpdatePoolFees (version : Nat)
  | listUnresolved
  | fetchAccounts
  | setPoolAccount
  | setRegistryProperties
  | fail
  deriving DecidableEq

section Run

variable (account : Nat → DecodedPoolAccount)

/-- The step an action takes, where it can be taken: a change of the account, the event of a change
made before, or the next step of the resolver's cycle, which may fail at any point. -/
def step (s : PoolState) : Action → Option PoolState
  | .change => some { s with current := s.current + 1 }
  | .persistUpdatePoolFees version =>
    if version ≤ s.current then
      some { s with persisted := max s.persisted version, row := s.row.markNeedsRefresh }
    else none
  | .listUnresolved =>
    if s.phase = .idle ∧ s.row.unresolved then some { s with phase := .listed } else none
  | .fetchAccounts => if s.phase = .listed then some { s with phase := .fetched s.current } else none
  | .setPoolAccount =>
    match s.phase with
    | .fetched version => some { s with
        row := s.row.setPoolAccount (account version).properties
        phase := .stored version }
    | _ => none
  | .setRegistryProperties =>
    match s.phase with
    | .stored version => some { s with
        row := s.row.setRegistryProperties (account version).registry
        phase := .idle
        source := some version }
    | _ => none
  | .fail => some { s with phase := .idle }

def run (s : PoolState) (actions : List Action) : Option PoolState := actions.foldlM (step account) s

end Run

/-- A pool just inserted. -/
def start (tokenAMint tokenBMint : Option Pubkey) : PoolState :=
  ⟨0, 0, .inserted tokenAMint tokenBMint, .idle, none⟩

variable {account : Nat → DecodedPoolAccount}

/-- A pool not queued stores the properties of a version no older than the last change persisted. -/
def Fresh (account : Nat → DecodedPoolAccount) (s : PoolState) : Prop :=
  s.row.unresolved = false → ∃ version, s.source = some version ∧ s.persisted ≤ version ∧
    version ≤ s.current ∧ s.row.StoredFrom (account version)

/-- What holds whatever the interleaving. -/
structure Inv (account : Nat → DecodedPoolAccount) (s : PoolState) : Prop where
  fetched : ∀ v, s.phase = .fetched v → v ≤ s.current
  stored : ∀ v, s.phase = .stored v →
    v ≤ s.current ∧ s.row.SatelliteFrom (account v).properties
  queued : s.phase ≠ .idle → s.row.needsRefresh ∨ s.row.feeBps = none
  written : s.row.feeBps.isSome → s.row.needsRefresh ∨
    ∃ version, s.source = some version ∧ version ≤ s.current ∧ s.row.StoredFrom (account version)
  complete : s.row.feeBps.isSome → s.row.complete

theorem Inv.start (tokenAMint tokenBMint : Option Pubkey) : Inv account (start tokenAMint tokenBMint) := by
  refine ⟨?_, ?_, ?_, ?_, ?_⟩ <;> simp [Resolver.start, PoolRow.inserted]

theorem unresolved_of_feeBps {row : PoolRow} (hrow : row.feeBps.isSome → row.complete)
    (h : row.unresolved) : row.needsRefresh ∨ row.feeBps = none := by
  by_cases hfee : row.feeBps.isSome
  · left
    simpa [PoolRow.unresolved, hrow hfee] using h
  · exact Or.inr (by simpa using hfee)

theorem Inv.step {s s' : PoolState} (hs : Inv account s) {a : Action}
    (h : step account s a = some s') : Inv account s' := by
  cases a with
  | change =>
    obtain rfl := Option.some.inj h
    refine ⟨?_, ?_, hs.queued, ?_, hs.complete⟩
    · intro v hv
      exact Nat.le_succ_of_le (hs.fetched v hv)
    · intro v hv
      exact ⟨Nat.le_succ_of_le (hs.stored v hv).1, (hs.stored v hv).2⟩
    · intro hfee
      rcases hs.written hfee with hr | ⟨v, hv, hle, hfrom⟩
      · exact Or.inl hr
      · exact Or.inr ⟨v, hv, Nat.le_succ_of_le hle, hfrom⟩
  | persistUpdatePoolFees version =>
    simp only [Resolver.step] at h
    split_ifs at h
    obtain rfl := Option.some.inj h
    exact ⟨hs.fetched, hs.stored, fun _ => Or.inl rfl, fun _ => Or.inl rfl, hs.complete⟩
  | listUnresolved =>
    simp only [Resolver.step] at h
    split_ifs at h with hl
    obtain rfl := Option.some.inj h
    refine ⟨by simp, by simp, fun _ => ?_, hs.written, hs.complete⟩
    exact unresolved_of_feeBps hs.complete hl.2
  | fetchAccounts =>
    simp only [Resolver.step] at h
    split_ifs at h with hl
    obtain rfl := Option.some.inj h
    refine ⟨?_, by simp, fun _ => hs.queued (by simp [hl]), hs.written, hs.complete⟩
    intro v hv
    obtain rfl : s.current = v := by simpa using hv
    exact Nat.le_refl _
  | setPoolAccount =>
    simp only [Resolver.step] at h
    split at h
    · next version hphase =>
      obtain rfl := Option.some.inj h
      have hqueued := hs.queued (by simp [hphase])
      refine ⟨by simp, ?_, fun _ => hqueued, fun hfee => ?_, fun hfee => ?_⟩
      · intro v hv
        obtain rfl : version = v := by simpa using hv
        exact ⟨hs.fetched version hphase, PoolRow.setPoolAccount_from _ _⟩
      · exact Or.inl (hqueued.resolve_right (Option.isSome_iff_ne_none.mp hfee))
      · exact PoolRow.complete_setPoolAccount (hs.complete hfee) _
    · simp at h
  | setRegistryProperties =>
    simp only [Resolver.step] at h
    split at h
    · next version hphase =>
      obtain rfl := Option.some.inj h
      obtain ⟨hle, hfrom⟩ := hs.stored version hphase
      have hstored := PoolRow.setRegistryProperties_from hfrom
      refine ⟨by simp, by simp, by simp, fun _ => Or.inr ⟨version, rfl, hle, hstored⟩,
        fun _ => hstored.complete⟩
    · simp at h
  | fail =>
    obtain rfl := Option.some.inj h
    exact ⟨by simp, by simp, by simp, hs.written, hs.complete⟩

/-- The registry write puts down properties no older than the last change persisted. -/
def Timely (s : PoolState) : Prop := ∀ version, s.phase = .stored version → s.persisted ≤ version

theorem unresolved_eq_false {row : PoolRow} :
    row.unresolved = false ↔ row.needsRefresh = false ∧ row.complete := by
  simp [PoolRow.unresolved]

theorem feeBps_of_complete {row : PoolRow} (h : row.complete) : row.feeBps.isSome := by
  simp only [PoolRow.complete, Bool.and_eq_true] at h
  exact h.1.2

/-- Only the registry write takes a pool out of the queue: any other step keeps what was stored. -/
theorem Fresh.step {s s' : PoolState} (hs : Inv account s) (hf : Fresh account s) {a : Action}
    (h : step account s a = some s') (ha : a = .setRegistryProperties → Timely s) :
    Fresh account s' := by
  intro hres
  have hs' := hs.step h
  cases a with
  | change =>
    obtain rfl := Option.some.inj h
    obtain ⟨v, hv, hp, hle, hfrom⟩ := hf hres
    exact ⟨v, hv, hp, Nat.le_succ_of_le hle, hfrom⟩
  | persistUpdatePoolFees version =>
    simp only [Resolver.step] at h
    split_ifs at h
    obtain rfl := Option.some.inj h
    simp [PoolRow.unresolved, PoolRow.markNeedsRefresh] at hres
  | listUnresolved =>
    simp only [Resolver.step] at h
    split_ifs at h
    obtain rfl := Option.some.inj h
    exact hf hres
  | fetchAccounts =>
    simp only [Resolver.step] at h
    split_ifs at h
    obtain rfl := Option.some.inj h
    exact hf hres
  | setPoolAccount =>
    obtain ⟨hrefresh, hcomplete⟩ := unresolved_eq_false.mp hres
    simp only [Resolver.step] at h
    split at h
    · obtain rfl := Option.some.inj h
      have hqueued := hs'.queued (by simp)
      have hfee := feeBps_of_complete hcomplete
      rcases hqueued with hq | hq
      · exact absurd (hq.symm.trans hrefresh) (by simp)
      · rw [hq] at hfee
        simp at hfee
    · simp at h
  | setRegistryProperties =>
    simp only [Resolver.step] at h
    split at h
    · next version hphase =>
      obtain rfl := Option.some.inj h
      obtain ⟨hle, hfrom⟩ := hs.stored version hphase
      exact ⟨version, rfl, ha rfl version hphase, hle, PoolRow.setRegistryProperties_from hfrom⟩
    · simp at h
  | fail =>
    obtain rfl := Option.some.inj h
    exact hf hres

theorem run_concat {s : PoolState} (actions : List Action) (a : Action) :
    run account s (actions ++ [a]) = (run account s actions).bind (fun t => step account t a) := by
  simp [run, List.foldlM_append]

theorem run_inv {tokenAMint tokenBMint : Option Pubkey} {actions : List Action} {s : PoolState}
    (h : run account (start tokenAMint tokenBMint) actions = some s) : Inv account s := by
  induction actions using List.reverseRecOn generalizing s with
  | nil =>
    obtain rfl := Option.some.inj h
    exact Inv.start _ _
  | append_singleton actions a ih =>
    rw [run_concat] at h
    obtain ⟨t, ht, hstep⟩ := Option.bind_eq_some_iff.mp h
    exact (ih ht).step hstep

/-- The registry write that is not timely leaves a pool out of the queue with what an older version
gave. -/
theorem not_fresh_of_late {s s' : PoolState} (hs : Inv account s)
    (h : step account s .setRegistryProperties = some s') (hlate : ¬ Timely s) : ¬ Fresh account s' := by
  intro hfresh
  apply hlate
  intro version hphase
  have hs' := hs.step h
  simp only [Resolver.step, hphase] at h
  obtain rfl := Option.some.inj h
  obtain ⟨-, hfrom⟩ := hs.stored version hphase
  have hcomplete := (PoolRow.setRegistryProperties_from hfrom).complete
  obtain ⟨v, hv, hp, -⟩ := hfresh (unresolved_eq_false.mpr ⟨rfl, hcomplete⟩)
  obtain rfl : version = v := by simpa using hv
  exact hp

/-- Along any interleaving, a pool out of the queue always stores properties no older than the last
change persisted exactly when no change was persisted between the fetch and the registry write that
follows it: the write lowers a flag raised for a change its properties do not have. -/
theorem run_fresh_iff (tokenAMint tokenBMint : Option Pubkey) (actions : List Action) :
    (∀ before after s, actions = before ++ after →
      run account (start tokenAMint tokenBMint) before = some s → Fresh account s) ↔
    ∀ before after s s', actions = before ++ .setRegistryProperties :: after →
      run account (start tokenAMint tokenBMint) before = some s →
      step account s .setRegistryProperties = some s' → Timely s := by
  constructor
  · intro h before after s s' hactions hrun hstep
    by_contra hlate
    refine not_fresh_of_late (run_inv hrun) hstep hlate
      (h (before ++ [.setRegistryProperties]) after s' ?_ ?_)
    · simp [hactions]
    · rw [run_concat, hrun]
      exact hstep
  · intro h before
    induction before using List.reverseRecOn with
    | nil =>
      intro after s _ hrun
      obtain rfl := Option.some.inj hrun
      intro hres
      simp [PoolRow.unresolved, PoolRow.complete, Resolver.start, PoolRow.inserted] at hres
    | append_singleton before a ih =>
      intro after s hactions hrun
      rw [run_concat] at hrun
      obtain ⟨t, ht, hstep⟩ := Option.bind_eq_some_iff.mp hrun
      have hfresh := ih (a :: after) t (by simp [hactions]) ht
      refine hfresh.step (run_inv ht) hstep ?_
      rintro rfl
      exact h before after t s (by simp [hactions]) ht hstep

def mint (n : UInt8) : Pubkey := ⟨List.replicate 32 n, by simp⟩

/-- A pool whose fee goes from 30 to 50 bps at its first change. -/
def raisedFee (version : Nat) : DecodedPoolAccount :=
  ⟨⟨mint 1, mint 2, if version = 0 then 30 else 50⟩, ⟨20, 0, some .constant, false, none⟩⟩

/-- The change and its event fall between the fetch and the writes. -/
def markInFlight : List Action :=
  [.listUnresolved, .fetchAccounts, .change, .persistUpdatePoolFees 1, .setPoolAccount,
    .setRegistryProperties]

theorem run_loses_mark : ∃ s, run raisedFee (start none none) markInFlight = some s ∧
    s.row.unresolved = false ∧ s.persisted = 1 ∧ s.row.feeBps = some 30 ∧
    ∀ version, s.persisted ≤ version → ¬ s.row.StoredFrom (raisedFee version) := by
  refine ⟨_, rfl, by decide, by decide, by decide, ?_⟩
  intro version hle hfrom
  have hfee := hfrom.feeBps
  have hne : version ≠ 0 := by
    rintro rfl
    exact absurd hle (by decide)
  simp only [raisedFee, if_neg hne] at hfee
  exact absurd hfee (by decide)

end YogSothoth.Resolver
