import YogSothoth.Extraction.Translator

namespace YogSothoth.Extraction.MeteoraDammV2Event

def poolAddress : MeteoraDammV2Event → Pubkey
  | .swap e => e.poolAddress
  | .liquidity e => e.poolAddress
  | .claimPositionFee e => e.poolAddress
  | .claimReward e => e.poolAddress
  | .claimProtocolFee e => e.poolAddress
  | .initializeReward e => e.poolAddress
  | .fundReward e => e.poolAddress
  | .withdrawIneligibleReward e => e.poolAddress
  | .updateRewardDuration e => e.poolAddress
  | .updateRewardFunder e => e.poolAddress
  | .withdrawDeadLiquidityReward e => e.poolAddress
  | .splitPosition e => e.poolAddress
  | .createPosition e => e.poolAddress
  | .closePosition e => e.poolAddress
  | .lockPosition e => e.poolAddress
  | .permanentLockPosition e => e.poolAddress
  | .initializePool e => e.poolAddress
  | .setPoolStatus e => e.poolAddress
  | .updatePoolFees e => e.poolAddress

def kind : MeteoraDammV2Event → String
  | .swap _ => "swap"
  | .liquidity _ => "liquidity"
  | .claimPositionFee _ => "claim_position_fee"
  | .claimReward _ => "claim_reward"
  | .claimProtocolFee _ => "claim_protocol_fee"
  | .initializeReward _ => "initialize_reward"
  | .fundReward _ => "fund_reward"
  | .withdrawIneligibleReward _ => "withdraw_ineligible_reward"
  | .updateRewardDuration _ => "update_reward_duration"
  | .updateRewardFunder _ => "update_reward_funder"
  | .withdrawDeadLiquidityReward _ => "withdraw_dead_liquidity_reward"
  | .splitPosition _ => "split_position"
  | .createPosition _ => "create_position"
  | .closePosition _ => "close_position"
  | .lockPosition _ => "lock_position"
  | .permanentLockPosition _ => "permanent_lock_position"
  | .initializePool _ => "initialize_pool"
  | .setPoolStatus _ => "set_pool_status"
  | .updatePoolFees _ => "update_pool_fees"

/-- The values the kind's insert converts to a `BIGINT`, in its order, under their fields' names.
The slot comes last in all of them. -/
def bigints : MeteoraDammV2Event → List (UInt64 × String)
  | .swap e => [(e.amountA, "amount_a"), (e.amountB, "amount_b"),
      (e.reserveAAfter, "reserve_a_after"), (e.reserveBAfter, "reserve_b_after"),
      (e.claimingFee, "claiming_fee"), (e.protocolFee, "protocol_fee"),
      (e.compoundingFee, "compounding_fee"), (e.referralFee, "referral_fee"), (e.slot, "slot")]
  | .liquidity e => [(e.amountA, "amount_a"), (e.amountB, "amount_b"),
      (e.reserveAAfter, "reserve_a_after"), (e.reserveBAfter, "reserve_b_after"), (e.slot, "slot")]
  | .claimPositionFee e => [(e.feeAClaimed, "fee_a_claimed"), (e.feeBClaimed, "fee_b_claimed"),
      (e.slot, "slot")]
  | .claimReward e => [(e.totalReward, "total_reward"), (e.slot, "slot")]
  | .claimProtocolFee e => [(e.tokenAAmount, "token_a_amount"),
      (e.tokenBAmount, "token_b_amount"), (e.slot, "slot")]
  | .initializeReward e => [(e.rewardDuration, "reward_duration"), (e.slot, "slot")]
  | .fundReward e => [(e.amount, "amount"),
      (e.transferFeeExcludedAmountIn, "transfer_fee_excluded_amount_in"),
      (e.rewardDurationEnd, "reward_duration_end"), (e.slot, "slot")]
  | .withdrawIneligibleReward e => [(e.amount, "amount"), (e.slot, "slot")]
  | .updateRewardDuration e => [(e.oldRewardDuration, "old_reward_duration"),
      (e.newRewardDuration, "new_reward_duration"), (e.slot, "slot")]
  | .updateRewardFunder e => [(e.slot, "slot")]
  | .withdrawDeadLiquidityReward e => [(e.amount, "amount"), (e.slot, "slot")]
  | .splitPosition e => [(e.amounts.feeA, "split_fee_a"), (e.amounts.feeB, "split_fee_b"),
      (e.amounts.reward0, "split_reward_0"), (e.amounts.reward1, "split_reward_1"),
      (e.firstPositionAfter.feeA, "first_fee_a"), (e.firstPositionAfter.feeB, "first_fee_b"),
      (e.firstPositionAfter.reward0, "first_reward_0"),
      (e.firstPositionAfter.reward1, "first_reward_1"),
      (e.secondPositionAfter.feeA, "second_fee_a"), (e.secondPositionAfter.feeB, "second_fee_b"),
      (e.secondPositionAfter.reward0, "second_reward_0"),
      (e.secondPositionAfter.reward1, "second_reward_1"), (e.slot, "slot")]
  | .createPosition e => [(e.slot, "slot")]
  | .closePosition e => [(e.slot, "slot")]
  | .lockPosition e => [(e.cliffPoint, "cliff_point"), (e.periodFrequency, "period_frequency"),
      (e.slot, "slot")]
  | .permanentLockPosition e => [(e.slot, "slot")]
  | .initializePool e => [(e.activationPoint, "activation_point"),
      (e.tokenAAmount, "token_a_amount"), (e.tokenBAmount, "token_b_amount"),
      (e.totalAmountA, "total_amount_a"), (e.totalAmountB, "total_amount_b"), (e.slot, "slot")]
  | .setPoolStatus e => [(e.slot, "slot")]
  | .updatePoolFees e => [(e.slot, "slot")]

/-- What the unique index of the kind's table holds, with the table. -/
structure UniqueKey where
  kind : String
  signature : Signature
  eventIndex : UInt16
  timestamp : Instant
  deriving DecidableEq

def uniqueKey (e : MeteoraDammV2Event) : UniqueKey :=
  ⟨e.kind, e.eventPosition.signature, e.eventPosition.eventIndex, e.eventPosition.timestamp⟩

end YogSothoth.Extraction.MeteoraDammV2Event

namespace YogSothoth.Persistence

open Extraction (MeteoraDammV2Event)
open Extraction.MeteoraDammV2Event (uniqueKey)

inductive InsertOutcome where
  | inserted
  | skipped
  deriving DecidableEq

def InsertOutcome.fromRowsAffected (rows : Nat) : InsertOutcome :=
  if rows = 0 then .skipped else .inserted

def InsertOutcome.isSkipped (self : InsertOutcome) : Bool := self = .skipped

/-- A statement that fails, and whether the server had committed it before its answer was lost. -/
structure Fault where
  error : RepositoryError
  committed : Bool

/-- The nineteen event tables, in the order of their rows' ids, under their unique indexes. -/
structure EventTables where
  rows : List MeteoraDammV2Event
  unique : (rows.map uniqueKey).Nodup

namespace EventTables

def empty : EventTables := ⟨[], List.nodup_nil⟩

theorem unique_append (self : EventTables) {event : MeteoraDammV2Event}
    (h : uniqueKey event ∉ self.rows.map uniqueKey) :
    ((self.rows ++ [event]).map uniqueKey).Nodup := by
  rw [List.map_append, List.nodup_append]
  refine ⟨self.unique, List.nodup_singleton _, ?_⟩
  intro a ha b hb heq
  rw [List.mem_singleton.mp hb] at heq
  exact h (heq ▸ ha)

/-- `INSERT … ON CONFLICT (signature, event_index, timestamp) DO NOTHING`, and the rows affected. -/
def insertRow (self : EventTables) (event : MeteoraDammV2Event) : EventTables × Nat :=
  if h : uniqueKey event ∈ self.rows.map uniqueKey then (self, 0)
  else (⟨self.rows ++ [event], self.unique_append h⟩, 1)

/-- One repository's `insert`: nothing reaches the server of an event with a value too large. -/
def insert (self : EventTables) (event : MeteoraDammV2Event) (fault : Option Fault) :
    Except RepositoryError InsertOutcome × EventTables :=
  match event.bigints.mapM (fun value => convertU64ToI64 value.1 value.2) with
  | .error e => (.error e, self)
  | .ok _ =>
    match fault with
    | some ⟨error, true⟩ => (.error error, (self.insertRow event).1)
    | some ⟨error, false⟩ => (.error error, self)
    | none =>
      (.ok (.fromRowsAffected (self.insertRow event).2), (self.insertRow event).1)

/-- Every value the insert converts fits a `BIGINT`. -/
def Fits (event : MeteoraDammV2Event) : Prop := ∀ value ∈ event.bigints, value.1.toNat < 2^63

theorem convertU64ToI64_ok {v : UInt64} {field : String} {i : Int}
    (h : convertU64ToI64 v field = .ok i) : v.toNat < 2^63 := by
  unfold convertU64ToI64 at h
  split_ifs at h with hfits
  exact hfits

theorem fits_of_mapM {event : MeteoraDammV2Event} {values : List Int}
    (h : event.bigints.mapM (fun value => convertU64ToI64 value.1 value.2) = .ok values) :
    Fits event := by
  intro value hvalue
  obtain ⟨_, _, hi⟩ := exists_of_mapM_ok h hvalue
  exact convertU64ToI64_ok hi

theorem insertRow_taken {self : EventTables} {event : MeteoraDammV2Event}
    (h : uniqueKey event ∈ self.rows.map uniqueKey) : self.insertRow event = (self, 0) :=
  dif_pos h

theorem insertRow_free {self : EventTables} {event : MeteoraDammV2Event}
    (h : uniqueKey event ∉ self.rows.map uniqueKey) :
    (self.insertRow event).1.rows = self.rows ++ [event] ∧ (self.insertRow event).2 = 1 := by
  rw [insertRow, dif_neg h]
  exact ⟨rfl, rfl⟩

/-- What an insert leaves and answers: nothing new, or one row under a key that was free. -/
inductive Inserted (self : EventTables) (event : MeteoraDammV2Event) :
    Except RepositoryError InsertOutcome → EventTables → Prop where
  | failed (error : RepositoryError) : Inserted self event (.error error) self
  | unanswered (error : RepositoryError) {tables : EventTables}
      (free : uniqueKey event ∉ self.rows.map uniqueKey)
      (rows : tables.rows = self.rows ++ [event]) : Inserted self event (.error error) tables
  | skipped (fits : Fits event) (taken : uniqueKey event ∈ self.rows.map uniqueKey) :
      Inserted self event (.ok .skipped) self
  | inserted (fits : Fits event) {tables : EventTables}
      (free : uniqueKey event ∉ self.rows.map uniqueKey)
      (rows : tables.rows = self.rows ++ [event]) : Inserted self event (.ok .inserted) tables

theorem insert_inserted (self : EventTables) (event : MeteoraDammV2Event) (fault : Option Fault) :
    Inserted self event (self.insert event fault).1 (self.insert event fault).2 := by
  unfold insert
  cases hvalues : event.bigints.mapM (fun value => convertU64ToI64 value.1 value.2) with
  | error e => exact .failed e
  | ok values =>
    have hfits := fits_of_mapM hvalues
    by_cases hkey : uniqueKey event ∈ self.rows.map uniqueKey
    · rw [insertRow_taken hkey]
      cases fault with
      | none => exact .skipped hfits hkey
      | some fault =>
        obtain ⟨error, committed⟩ := fault
        cases committed with
        | true => exact .failed error
        | false => exact .failed error
    · obtain ⟨hrows, haffected⟩ := insertRow_free hkey
      cases fault with
      | none =>
        simp only [haffected]
        exact .inserted hfits hkey hrows
      | some fault =>
        obtain ⟨error, committed⟩ := fault
        cases committed with
        | true => exact .unanswered error hkey hrows
        | false => exact .failed error

/-- An insert that fails with no commit behind it leaves the tables. -/
theorem insert_uncommitted {self : EventTables} {event : MeteoraDammV2Event} {fault : Option Fault}
    (hfault : ∀ f, fault = some f → f.committed = false) {error : RepositoryError}
    (h : (self.insert event fault).1 = .error error) : (self.insert event fault).2 = self := by
  unfold insert at h ⊢
  cases hvalues : event.bigints.mapM (fun value => convertU64ToI64 value.1 value.2) with
  | error e => rfl
  | ok values =>
    rw [hvalues] at h
    cases fault with
    | none => cases h
    | some fault =>
      obtain ⟨error', committed⟩ := fault
      obtain rfl : committed = false := hfault _ rfl
      rfl

theorem Inserted.mem_rows {self tables : EventTables} {event : MeteoraDammV2Event}
    {result : Except RepositoryError InsertOutcome} (h : Inserted self event result tables)
    {row : MeteoraDammV2Event} (hrow : row ∈ tables.rows) :
    row ∈ self.rows ∨ (row = event ∧ uniqueKey event ∉ self.rows.map uniqueKey) := by
  cases h with
  | failed => exact Or.inl hrow
  | skipped => exact Or.inl hrow
  | unanswered _ free rows =>
    rw [rows] at hrow
    exact (List.mem_append.mp hrow).imp_right (fun h => ⟨List.mem_singleton.mp h, free⟩)
  | inserted _ free rows =>
    rw [rows] at hrow
    exact (List.mem_append.mp hrow).imp_right (fun h => ⟨List.mem_singleton.mp h, free⟩)

theorem Inserted.rows_sublist {self tables : EventTables} {event : MeteoraDammV2Event}
    {result : Except RepositoryError InsertOutcome} (h : Inserted self event result tables) :
    self.rows.Sublist tables.rows := by
  cases h with
  | failed => exact List.Sublist.refl _
  | skipped => exact List.Sublist.refl _
  | unanswered _ _ rows => rw [rows]; exact List.sublist_append_left _ _
  | inserted _ _ rows => rw [rows]; exact List.sublist_append_left _ _

/-- An insert that succeeded leaves a row under the event's key. -/
theorem Inserted.accepted {self tables : EventTables} {event : MeteoraDammV2Event}
    {outcome : InsertOutcome} (h : Inserted self event (.ok outcome) tables) :
    Fits event ∧ uniqueKey event ∈ tables.rows.map uniqueKey := by
  cases h with
  | skipped fits taken => exact ⟨fits, taken⟩
  | inserted fits free rows =>
    rw [rows, List.map_append]
    exact ⟨fits, List.mem_append_right _ (List.mem_singleton.mpr rfl)⟩

end EventTables

end YogSothoth.Persistence
