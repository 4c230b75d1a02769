import YogSothoth.Framework.BatchQueue
import YogSothoth.Resolver.Decoder

namespace YogSothoth.Resolver

open Amm (DecimalOps)
open Decoder (decodePoolAccount PoolAccountRejection)

/-- `RESOLVE_BATCH_MAX`. -/
def RESOLVE_BATCH_MAX : Nat := 100

/-- A row of `pools`. -/
structure Pool where
  address : Pubkey
  protocol : Protocol
  firstSeenAt : Instant
  row : PoolRow
  deriving DecidableEq

def Pool.edit (address : Pubkey) (f : PoolRow → PoolRow) (p : Pool) : Pool :=
  if p.address = address then { p with row := f p.row } else p

theorem Pool.edit_address (address : Pubkey) (f : PoolRow → PoolRow) (p : Pool) :
    (p.edit address f).address = p.address := by
  unfold Pool.edit
  split_ifs <;> rfl

theorem edited_keyed {rows : List Pool} (address : Pubkey) (f : PoolRow → PoolRow)
    (h : (rows.map Pool.address).Nodup) : ((rows.map (Pool.edit address f)).map Pool.address).Nodup := by
  have hsame : Pool.address ∘ Pool.edit address f = Pool.address :=
    funext (Pool.edit_address address f)
  rw [List.map_map, hsame]
  exact h

/-- The table, one row an address. -/
structure Pools where
  rows : List Pool
  keyed : (rows.map Pool.address).Nodup

namespace Pools

def edit (pools : Pools) (address : Pubkey) (f : PoolRow → PoolRow) : Pools :=
  ⟨pools.rows.map (Pool.edit address f), edited_keyed address f pools.keyed⟩

/-- `set_pool_account` of the cp-amm satellite. -/
def setPoolAccount (pools : Pools) (address : Pubkey) :
    Decoder.PoolAccountProperties → Except RepositoryError Pools
  | .meteoraDammV2 properties => .ok (pools.edit address (fun row => row.setPoolAccount properties))
  | .meteoraDlmm _ => .error (.integrity "expected cp-amm pool properties, got MeteoraDlmm")

def setRegistryProperties (pools : Pools) (address : Pubkey) (core : PoolRegistryProperties) : Pools :=
  pools.edit address (fun row => row.setRegistryProperties core)

end Pools

/-- The `WHERE` of `list_unresolved`. -/
def Pool.queued (p : Pool) : Bool := decide (p.protocol = .meteoraDammV2) && p.row.unresolved

def Pools.waiting (pools : Pools) : List Pool := pools.rows.filter Pool.queued

/-- An answer of `list_unresolved`: the order of pools first seen at one instant is free. -/
def ListUnresolved (pools : Pools) (limit : Nat) (batch : List Pubkey) : Prop :=
  ∃ listed, BatchQueue.IsBatch Pool.firstSeenAt limit pools.waiting listed ∧
    batch = listed.map Pool.address

/-- An account on chain. -/
structure Account where
  programId : Pubkey
  data : List UInt8

structure RawAccount where
  poolAddress : Pubkey
  programId : Pubkey
  data : List UInt8

section Cycle

variable (ar : DecimalOps) (chain : Pubkey → Option Account)

/-- What `fetch_accounts` answers: the accounts that exist. -/
def fetchAccounts (batch : List Pubkey) : List RawAccount :=
  batch.filterMap fun address =>
    (chain address).map fun account => ⟨address, account.programId, account.data⟩

/-- The satellite first, the registry last, of an account decoded as one of the queue's protocol. -/
def storeDecoded (pools : Pools) (address : Pubkey) :
    Except PoolAccountRejection Decoder.DecodedPoolAccount → Pools
  | .error _ => pools
  | .ok decoded =>
    if decoded.protocol = .meteoraDammV2 then
      match pools.setPoolAccount address decoded.properties with
      | .error _ => pools
      | .ok stored => stored.setRegistryProperties address decoded.registry
    else pools

/-- One turn of the loop of `run_one_protocol`. -/
def settleAccount (pools : Pools) (account : RawAccount) : Option Pools :=
  (decodePoolAccount ar account.programId account.data).map
    (storeDecoded pools account.poolAddress)

/-- `run_one_protocol` for cp-amm on a batch listed, where every call succeeds; `none` is a panic. -/
def runOneProtocol (pools : Pools) (batch : List Pubkey) : Option Pools :=
  (fetchAccounts chain batch).foldlM (settleAccount ar) pools

/-- A cycle in which every call succeeds. -/
def Cycle (pools pools' : Pools) : Prop :=
  ∃ batch, ListUnresolved pools RESOLVE_BATCH_MAX batch ∧
    runOneProtocol ar chain pools batch = some pools'

/-- The account exists and decodes as a cp-amm pool. -/
def resolvable (address : Pubkey) : Bool :=
  (chain address).any fun account =>
    (decodePoolAccount ar account.programId account.data).any fun result =>
      result.toOption.any fun decoded => decoded.protocol = .meteoraDammV2

end Cycle

section Store

variable {ar : DecimalOps} {chain : Pubkey → Option Account} {pools pools' : Pools}

/-- A pool stored from its account leaves the queue, and no other pool changes. -/
theorem stored_edit (properties : PoolAccountProperties) (core : PoolRegistryProperties)
    (address : Pubkey) (p : Pool) :
    ((p.edit address (fun row => row.setPoolAccount properties)).edit address
      (fun row => row.setRegistryProperties core)).queued =
        (p.queued && !decide (p.address = address)) ∧
    (p.address ≠ address → (p.edit address (fun row => row.setPoolAccount properties)).edit
      address (fun row => row.setRegistryProperties core) = p) := by
  unfold Pool.edit
  by_cases haddress : p.address = address
  · have hsatellite := p.row.setPoolAccount_from properties
    have hstored : ((p.row.setPoolAccount properties).setRegistryProperties core).StoredFrom
        ⟨core, properties⟩ := ⟨rfl, rfl, rfl, hsatellite⟩
    have hcomplete := hstored.complete
    have hunresolved : ((p.row.setPoolAccount properties).setRegistryProperties core).unresolved =
        false := by
      unfold PoolRow.unresolved
      rw [hcomplete]
      rfl
    rw [if_pos haddress, if_pos haddress]
    refine ⟨?_, fun hne => absurd haddress hne⟩
    rw [Pool.queued, hunresolved, haddress, decide_eq_true rfl, Bool.and_false, Bool.not_true,
      Bool.and_false]
  · rw [if_neg haddress, if_neg haddress, decide_eq_false haddress, Bool.not_false, Bool.and_true]
    exact ⟨rfl, fun _ => rfl⟩

theorem filter_edited {rows : List Pool} {f : Pool → Pool} {keep : Pool → Bool}
    (h : ∀ p, (f p).queued = (p.queued && keep p) ∧ (keep p = true → f p = p)) :
    (rows.map f).filter Pool.queued = (rows.filter Pool.queued).filter keep := by
  induction rows with
  | nil => rfl
  | cons p rows ih =>
    rw [List.map_cons, List.filter_cons, List.filter_cons, (h p).1, ih]
    cases hqueued : p.queued with
    | false => rfl
    | true =>
      cases hkeep : keep p with
      | false => simp [hkeep]
      | true => simp [hkeep, (h p).2 hkeep]

theorem waiting_stored (pools : Pools) (address : Pubkey) (properties : PoolAccountProperties)
    (core : PoolRegistryProperties) :
    ((pools.edit address (fun row => row.setPoolAccount properties)).setRegistryProperties address
      core).waiting = pools.waiting.filter (fun p => !decide (p.address = address)) := by
  have hrows : ((pools.edit address (fun row => row.setPoolAccount properties)).setRegistryProperties
      address core).rows = pools.rows.map fun p =>
        (p.edit address (fun row => row.setPoolAccount properties)).edit address
          (fun row => row.setRegistryProperties core) := List.map_map
  unfold Pools.waiting
  rw [hrows]
  apply filter_edited
  intro p
  obtain ⟨hqueued, hsame⟩ := stored_edit properties core address p
  refine ⟨hqueued, fun hkeep => hsame ?_⟩
  rw [Bool.not_eq_true', decide_eq_false_iff_not] at hkeep
  exact hkeep

variable (ar : DecimalOps) (chain : Pubkey → Option Account)

theorem resolvable_eq {address : Pubkey} {account : Account}
    {result : Except PoolAccountRejection Decoder.DecodedPoolAccount}
    (haccount : chain address = some account)
    (hresult : decodePoolAccount ar account.programId account.data = some result) :
    resolvable ar chain address =
      result.toOption.any (fun decoded => decoded.protocol = .meteoraDammV2) := by
  unfold resolvable
  rw [haccount, Option.any_some, hresult, Option.any_some]

/-- An account is resolvable if and only if it is one of the cp-amm program's, long enough and with
a pool's discriminator. -/
theorem resolvable_iff (address : Pubkey) :
    resolvable ar chain address = true ↔ ∃ account, chain address = some account ∧
      account.programId = Decoder.METEORA_DAMM_V2_PROGRAM_ID ∧
      Decoder.DammV2.MIN_LEN ≤ account.data.length ∧
      account.data.take 8 = Decoder.DammV2.POOL_DISCRIMINATOR := by
  cases haccount : chain address with
  | none => simp [resolvable, haccount]
  | some account =>
    obtain ⟨result, hresult, hiff⟩ :=
      Decoder.decodePoolAccount_total ar account.programId account.data
    have hdecoded : result.toOption.any (fun decoded => decoded.protocol = .meteoraDammV2) = true ↔
        ∃ decoded, result = .ok decoded ∧ decoded.protocol = .meteoraDammV2 := by
      cases result <;> simp [Except.toOption]
    rw [resolvable_eq ar chain haccount hresult, hdecoded, hiff]
    simp

/-- One turn: a resolvable pool leaves the queue, and nothing else changes. -/
theorem settleAccount_waiting (pools : Pools) {address : Pubkey} {account : Account}
    (haccount : chain address = some account) :
    ∃ pools', settleAccount ar pools ⟨address, account.programId, account.data⟩ = some pools' ∧
      pools'.waiting =
        pools.waiting.filter (fun p => !(resolvable ar chain address && decide (p.address = address))) := by
  obtain ⟨result, hresult, _⟩ := Decoder.decodePoolAccount_total ar account.programId account.data
  unfold settleAccount
  rw [hresult, resolvable_eq ar chain haccount hresult]
  refine ⟨_, rfl, ?_⟩
  have hkept : pools.waiting = pools.waiting.filter (fun _ => true) := by
    rw [List.filter_true]
  cases result with
  | error rejection => exact hkept
  | ok decoded =>
    obtain ⟨core, properties⟩ := decoded
    cases properties with
    | meteoraDlmm properties => exact hkept
    | meteoraDammV2 properties => exact waiting_stored pools address properties core

theorem runOneProtocol_waiting (pools : Pools) (batch : List Pubkey) :
    ∃ pools', runOneProtocol ar chain pools batch = some pools' ∧
      pools'.waiting = pools.waiting.filter
        (fun p => !(resolvable ar chain p.address && decide (p.address ∈ batch))) := by
  induction batch generalizing pools with
  | nil =>
    refine ⟨pools, rfl, ?_⟩
    simp
  | cons address batch ih =>
    unfold runOneProtocol fetchAccounts at ih ⊢
    cases haccount : chain address with
    | none =>
      obtain ⟨pools', hrun, hwaiting⟩ := ih pools
      rw [List.filterMap_cons_none (by rw [haccount]; rfl)]
      refine ⟨pools', hrun, ?_⟩
      rw [hwaiting]
      apply List.filter_congr
      intro p _
      by_cases heq : p.address = address
      · have hnone : resolvable ar chain p.address = false := by
          unfold resolvable
          rw [heq, haccount]
          rfl
        rw [hnone, Bool.false_and, Bool.false_and]
      · simp [heq]
    | some account =>
      obtain ⟨stored, hstored, hsettled⟩ := settleAccount_waiting ar chain pools haccount
      obtain ⟨pools', hrun, hwaiting⟩ := ih stored
      rw [List.filterMap_cons_some (by rw [haccount]; rfl), List.foldlM_cons, hstored]
      refine ⟨pools', hrun, ?_⟩
      rw [hwaiting, hsettled, List.filter_filter]
      apply List.filter_congr
      intro p _
      by_cases heq : p.address = address
      · rw [heq]
        cases resolvable ar chain address <;> simp
      · simp [heq]

end Store

end YogSothoth.Resolver
