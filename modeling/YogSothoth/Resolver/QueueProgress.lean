import YogSothoth.Resolver.PoolAccounts

namespace YogSothoth.Resolver

open Amm (DecimalOps exactOps)

section Queue

variable (ar : DecimalOps) (chain : Pubkey → Option Account) (pools : Pools)

theorem eq_of_address {p q : Pool} (hp : p ∈ pools.waiting) (hq : q ∈ pools.waiting)
    (h : p.address = q.address) : p = q :=
  List.inj_on_of_nodup_map pools.keyed (List.mem_of_mem_filter hp) (List.mem_of_mem_filter hq) h

/-- A cycle is a round of the queue. -/
theorem runOneProtocol_round {listed : List Pool} (hlisted : listed ⊆ pools.waiting) :
    ∃ pools', runOneProtocol ar chain pools (listed.map Pool.address) = some pools' ∧
      pools'.waiting =
        BatchQueue.round (fun p => resolvable ar chain p.address) pools.waiting listed := by
  obtain ⟨pools', hrun, hwaiting⟩ :=
    runOneProtocol_waiting ar chain pools (listed.map Pool.address)
  refine ⟨pools', hrun, ?_⟩
  rw [hwaiting]
  apply List.filter_congr
  intro p hp
  have hmem : p.address ∈ listed.map Pool.address ↔ p ∈ listed := by
    constructor
    · intro h
      obtain ⟨q, hq, heq⟩ := List.mem_map.mp h
      exact eq_of_address pools (hlisted hq) hp heq ▸ hq
    · exact List.mem_map_of_mem
  rw [decide_eq_decide.mpr hmem]

/-- How many queued pools that cannot be resolved were not seen after a pool. -/
def stuckAhead (p : Pool) : Nat :=
  BatchQueue.ahead Pool.firstSeenAt (fun q => resolvable ar chain q.address) pools.waiting p

/-- Each answer of `list_unresolved` holds a pool that the cycle takes out of the queue. -/
def Progresses : Prop :=
  ∀ batch, ListUnresolved pools RESOLVE_BATCH_MAX batch →
    ∃ pools', runOneProtocol ar chain pools batch = some pools' ∧
      ∃ p ∈ pools.waiting, p.address ∈ batch ∧ ∀ q ∈ pools'.waiting, q.address ≠ p.address

theorem progresses_iff : Progresses ar chain pools ↔
    ∃ p ∈ pools.waiting, resolvable ar chain p.address = true ∧
      stuckAhead ar chain pools p < RESOLVE_BATCH_MAX := by
  unfold stuckAhead
  rw [← BatchQueue.progress_iff]
  constructor
  · intro hprogress listed hlisted
    obtain ⟨pools', hrun, hwaiting⟩ := runOneProtocol_round ar chain pools hlisted.subset
    obtain ⟨after, hafter, p, hp, hbatch, hgone⟩ := hprogress _ ⟨listed, hlisted, rfl⟩
    obtain ⟨q, hq, heq⟩ := List.mem_map.mp hbatch
    rw [hrun] at hafter
    refine ⟨q, hq, ?_⟩
    by_contra hstuck
    refine hgone q ?_ heq
    rw [← Option.some.inj hafter, hwaiting]
    exact BatchQueue.mem_round.mpr ⟨hlisted.subset hq, fun h => absurd h hstuck⟩
  · intro hserves batch hbatch
    obtain ⟨listed, hlisted, hbatch⟩ := hbatch
    obtain ⟨pools', hrun, hwaiting⟩ := runOneProtocol_round ar chain pools hlisted.subset
    obtain ⟨p, hp, hresolvable⟩ := hserves listed hlisted
    rw [hbatch]
    refine ⟨pools', hrun, p, hlisted.subset hp, List.mem_map_of_mem hp, ?_⟩
    intro q hq heq
    rw [hwaiting, BatchQueue.mem_round] at hq
    rw [eq_of_address pools hq.1 (hlisted.subset hp) heq] at hq
    exact hq.2 hresolvable hp

variable {ar chain pools}

theorem Cycle.round {pools' : Pools} (h : Cycle ar chain pools pools') :
    ∃ listed, BatchQueue.IsBatch Pool.firstSeenAt RESOLVE_BATCH_MAX pools.waiting listed ∧
      pools'.waiting =
        BatchQueue.round (fun p => resolvable ar chain p.address) pools.waiting listed := by
  obtain ⟨batch, hbatch, hrun⟩ := h
  obtain ⟨listed, hlisted, hbatch⟩ := hbatch
  obtain ⟨after, hafter, hwaiting⟩ := runOneProtocol_round ar chain pools hlisted.subset
  rw [hbatch, hafter] at hrun
  exact ⟨listed, hlisted, Option.some.inj hrun ▸ hwaiting⟩

theorem Cycle.waiting_subset {pools' : Pools} (h : Cycle ar chain pools pools') :
    pools'.waiting ⊆ pools.waiting := by
  obtain ⟨listed, _, hwaiting⟩ := h.round
  intro p hp
  rw [hwaiting] at hp
  exact (BatchQueue.mem_round.mp hp).1

/-- With a batch of them ahead, a cycle can go by that leaves a pool where it was. -/
theorem exists_starving_cycle {p : Pool} (hp : p ∈ pools.waiting)
    (hresolvable : resolvable ar chain p.address = true)
    (hstuck : RESOLVE_BATCH_MAX ≤ stuckAhead ar chain pools p) :
    ∃ pools', Cycle ar chain pools pools' ∧ p ∈ pools'.waiting ∧
      RESOLVE_BATCH_MAX ≤ stuckAhead ar chain pools' p := by
  obtain ⟨listed, hlisted, hstarving⟩ := BatchQueue.IsBatch.exists_starving Pool.firstSeenAt
    (fun q => resolvable ar chain q.address) pools.waiting RESOLVE_BATCH_MAX
  obtain ⟨pools', hrun, hwaiting⟩ := runOneProtocol_round ar chain pools hlisted.subset
  refine ⟨pools', ⟨_, ⟨listed, hlisted, rfl⟩, hrun⟩, ?_, ?_⟩
  · rw [hwaiting, BatchQueue.mem_round]
    refine ⟨hp, fun _ hmem => ?_⟩
    exact absurd (hstarving p hmem hresolvable) (not_lt.mpr hstuck)
  · unfold stuckAhead at hstuck ⊢
    rw [hwaiting, BatchQueue.ahead_round]
    exact hstuck

/-- Over cycles a resolvable pool is resolved, whatever the answers, if and only if fewer than a
batch of pools that cannot be are ahead of it. -/
theorem resolved_iff {p : Pool} (hp : p ∈ pools.waiting)
    (hresolvable : resolvable ar chain p.address = true) :
    (∀ run : Nat → Pools, run 0 = pools → (∀ n, Cycle ar chain (run n) (run (n + 1))) →
      ∃ n, ∀ q ∈ (run n).waiting, q.address ≠ p.address) ↔
    stuckAhead ar chain pools p < RESOLVE_BATCH_MAX := by
  constructor
  · intro hall
    by_contra hstuck
    obtain ⟨run, hstart, hrun⟩ := BatchQueue.exists_run (Cycle ar chain)
      (fun s => p ∈ s.waiting ∧ RESOLVE_BATCH_MAX ≤ stuckAhead ar chain s p)
      (fun s hs => exists_starving_cycle hs.1 hresolvable hs.2) ⟨hp, not_lt.mp hstuck⟩
    obtain ⟨n, hgone⟩ := hall run hstart fun n => (hrun n).1
    exact hgone p (hrun n).2.1 rfl
  · intro hfew run hstart hrun
    have hrounds : BatchQueue.Rounds Pool.firstSeenAt (fun q => resolvable ar chain q.address)
        RESOLVE_BATCH_MAX (fun n => (run n).waiting) := fun n => (hrun n).round
    have hsubset : ∀ n, (run n).waiting ⊆ pools.waiting := by
      intro n
      induction n with
      | zero =>
        rw [hstart]
        exact List.Subset.refl _
      | succ n ih => exact List.Subset.trans (hrun n).waiting_subset ih
    have hahead : BatchQueue.ahead Pool.firstSeenAt (fun q => resolvable ar chain q.address)
        (run 0).waiting p < RESOLVE_BATCH_MAX := hstart ▸ hfew
    obtain ⟨n, hn⟩ := hrounds.served hresolvable hahead
    refine ⟨n, fun q hq heq => hn ?_⟩
    rw [← eq_of_address pools (hsubset n hq) hp heq]
    exact hq

end Queue

/-- The queue progresses, and no resolvable pool waits for ever, exactly where fewer pools than a
batch that cannot be resolved are ahead. -/
theorem queue_progress_iff (ar : DecimalOps) (chain : Pubkey → Option Account) (pools : Pools) :
    (Progresses ar chain pools ↔ ∃ p ∈ pools.waiting, resolvable ar chain p.address = true ∧
      stuckAhead ar chain pools p < RESOLVE_BATCH_MAX) ∧
    ∀ p ∈ pools.waiting, resolvable ar chain p.address = true →
      ((∀ run : Nat → Pools, run 0 = pools → (∀ n, Cycle ar chain (run n) (run (n + 1))) →
        ∃ n, ∀ q ∈ (run n).waiting, q.address ≠ p.address) ↔
      stuckAhead ar chain pools p < RESOLVE_BATCH_MAX) :=
  ⟨progresses_iff ar chain pools, fun _ hp hresolvable => resolved_iff hp hresolvable⟩

section Blocked

theorem addressBytes (i : Nat) : (UInt8.ofNat i :: List.replicate 31 0).length = 32 := rfl

def blockedAddress (i : Nat) : Pubkey := ⟨_, addressBytes i⟩

/-- A pool never resolved, the `i`-th to be seen. -/
def blockedPool (i : Nat) : Pool :=
  ⟨blockedAddress i, .meteoraDammV2, i, .inserted none none⟩

theorem blockedPools_keyed :
    (((List.range 101).map blockedPool).map Pool.address).Nodup := by decide +kernel

def blockedPools : Pools := ⟨(List.range 101).map blockedPool, blockedPools_keyed⟩

/-- Only the newest pool has an account, which decodes. -/
def blockedChain (address : Pubkey) : Option Account :=
  if address = blockedAddress 100 then
    some ⟨Decoder.METEORA_DAMM_V2_PROGRAM_ID,
      Decoder.DammV2.POOL_DISCRIMINATOR ++ List.replicate 224 0⟩
  else none

theorem blockedPools_waiting : blockedPools.waiting = (List.range 101).map blockedPool := by
  refine List.filter_eq_self.mpr ?_
  intro p hp
  obtain ⟨i, _, heq⟩ := List.mem_map.mp hp
  rw [← heq]
  rfl

theorem blocked_unresolvable {i : Nat} (hi : i < 100) :
    resolvable exactOps blockedChain (blockedPool i).address = false := by
  have hne : ∀ i < 100, blockedAddress i ≠ blockedAddress 100 := by decide +kernel
  have hmissing : blockedChain (blockedPool i).address = none := if_neg (hne i hi)
  unfold resolvable
  rw [hmissing]
  rfl

theorem blockedPools_ahead :
    100 ≤ stuckAhead exactOps blockedChain blockedPools (blockedPool 100) := by
  have hall : ∀ i ∈ List.range 100, ((fun q => !resolvable exactOps blockedChain q.address &&
      decide (q.firstSeenAt ≤ (blockedPool 100).firstSeenAt)) ∘ blockedPool) i = true := by
    intro i hi
    have hlt := List.mem_range.mp hi
    have hseen : (blockedPool i).firstSeenAt ≤ (blockedPool 100).firstSeenAt :=
      Int.ofNat_le.mpr (Nat.le_of_lt hlt)
    rw [Function.comp_apply, blocked_unresolvable hlt, decide_eq_true hseen]
    rfl
  have hrange : List.range 101 = List.range 100 ++ [100] := List.range_succ
  unfold stuckAhead BatchQueue.ahead
  rw [blockedPools_waiting, List.countP_map, hrange, List.countP_append,
    List.countP_eq_length.mpr hall, List.length_range]
  exact Nat.le_add_right 100 _

/-- A hundred pools whose accounts are missing, and a newer one whose account decodes: the batch is
the hundred, for ever. -/
theorem hundred_missing_block :
    (∃ p ∈ blockedPools.waiting, resolvable exactOps blockedChain p.address = true) ∧
    ¬ Progresses exactOps blockedChain blockedPools := by
  have hnewest : blockedPool 100 ∈ blockedPools.waiting := by
    rw [blockedPools_waiting]
    exact List.mem_map_of_mem (List.mem_range.mpr (Nat.lt_succ_self 100))
  refine ⟨⟨blockedPool 100, hnewest, ?_⟩, ?_⟩
  · have hlength : Decoder.DammV2.MIN_LEN ≤
        (Decoder.DammV2.POOL_DISCRIMINATOR ++ List.replicate 224 (0 : UInt8)).length := by
      rw [List.length_append, List.length_replicate]
      exact le_refl 232
    rw [resolvable_iff]
    exact ⟨_, if_pos rfl, rfl, hlength, rfl⟩
  · rw [progresses_iff]
    intro hsome
    obtain ⟨p, hp, hresolvable, hahead⟩ := hsome
    rw [blockedPools_waiting] at hp
    obtain ⟨i, hi, heq⟩ := List.mem_map.mp hp
    have hi' := List.mem_range.mp hi
    by_cases hlt : i < 100
    · rw [← heq, blocked_unresolvable hlt] at hresolvable
      cases hresolvable
    · have heq' : i = 100 := by omega
      rw [← heq, heq'] at hahead
      exact absurd hahead (not_lt.mpr blockedPools_ahead)

end Blocked

end YogSothoth.Resolver
