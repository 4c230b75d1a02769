import YogSothoth.Core.Types

namespace YogSothoth.Resolver

/-- How a cp-amm base fee behaves over time. -/
inductive BaseFeeKind where
  | constant
  | schedulerLinear
  | schedulerExponential
  | rateLimiter
  | marketCapSchedulerLinear
  | marketCapSchedulerExponential
  deriving DecidableEq

def BaseFeeKind.asStr : BaseFeeKind → String
  | .constant => "constant"
  | .schedulerLinear => "scheduler_linear"
  | .schedulerExponential => "scheduler_exponential"
  | .rateLimiter => "rate_limiter"
  | .marketCapSchedulerLinear => "market_cap_scheduler_linear"
  | .marketCapSchedulerExponential => "market_cap_scheduler_exponential"

structure FeeSchedulerParams where
  cliffFeeNumerator : UInt64
  numberOfPeriod : UInt16
  periodFrequency : UInt64
  reductionFactor : UInt64
  activationPoint : UInt64
  activationType : UInt8
  kind : BaseFeeKind
  deriving DecidableEq

/-- What goes to the `pools` registry. -/
structure PoolRegistryProperties where
  tokenAMint : Pubkey
  tokenBMint : Pubkey
  feeBps : Rat
  deriving DecidableEq

/-- What goes to the cp-amm satellite. -/
structure PoolAccountProperties where
  protocolFeePercent : UInt8
  referralFeePercent : UInt8
  baseFeeKind : Option BaseFeeKind
  hasDynamicFee : Bool
  feeScheduler : Option FeeSchedulerParams
  deriving DecidableEq

/-- One version of a pool's account, as it decodes. -/
structure DecodedPoolAccount where
  registry : PoolRegistryProperties
  properties : PoolAccountProperties
  deriving DecidableEq

structure SchedulerColumns where
  cliffFeeNumerator : Int
  numberOfPeriod : Int
  periodFrequency : Int
  reductionFactor : Int
  activationPoint : Int
  activationType : Int
  deriving DecidableEq

/-- A curve that does not fit its columns is dropped as a unit. -/
def schedulerColumns (s : FeeSchedulerParams) : Option SchedulerColumns := do
  let cliff ← (convertU64ToI64 s.cliffFeeNumerator "cliff_fee_numerator").toOption
  let frequency ← (convertU64ToI64 s.periodFrequency "period_frequency").toOption
  let reduction ← (convertU64ToI64 s.reductionFactor "reduction_factor").toOption
  let activation ← (convertU64ToI64 s.activationPoint "activation_point").toOption
  return ⟨cliff, s.numberOfPeriod.toNat, frequency, reduction, activation, s.activationType.toNat⟩

/-- A row of `meteora_damm_v2_pool_properties`. -/
structure SatelliteRow where
  protocolFeePercent : Option Int
  referralFeePercent : Option Int
  baseFeeKind : Option String
  hasDynamicFee : Option Bool
  scheduler : Option SchedulerColumns
  deriving DecidableEq

/-- A pool's row of `pools`, with its satellite row. -/
structure PoolRow where
  tokenAMint : Option Pubkey
  tokenBMint : Option Pubkey
  feeBps : Option Rat
  needsRefresh : Bool
  satellite : Option SatelliteRow
  deriving DecidableEq

namespace PoolRow

/-- A pool as the indexer first inserts it. -/
def inserted (tokenAMint tokenBMint : Option Pubkey) : PoolRow :=
  ⟨tokenAMint, tokenBMint, none, false, none⟩

/-- None of the columns `list_unresolved` tests is NULL. -/
def complete (row : PoolRow) : Bool :=
  row.tokenAMint.isSome && row.tokenBMint.isSome && row.feeBps.isSome &&
    row.satellite.any (fun props => props.protocolFeePercent.isSome &&
      props.referralFeePercent.isSome && props.hasDynamicFee.isSome)

/-- Whether `list_unresolved` proposes the pool. -/
def unresolved (row : PoolRow) : Bool := row.needsRefresh || !row.complete

def markNeedsRefresh (row : PoolRow) : PoolRow := { row with needsRefresh := true }

/-- The row the satellite upsert leaves: every column from this read, but a kind it could not map. -/
def upsertSatellite (old : Option SatelliteRow) (properties : PoolAccountProperties) : SatelliteRow where
  protocolFeePercent := some properties.protocolFeePercent.toNat
  referralFeePercent := some properties.referralFeePercent.toNat
  baseFeeKind := (properties.baseFeeKind.map BaseFeeKind.asStr).or (old.bind SatelliteRow.baseFeeKind)
  hasDynamicFee := some properties.hasDynamicFee
  scheduler := properties.feeScheduler.bind schedulerColumns

def setPoolAccount (row : PoolRow) (properties : PoolAccountProperties) : PoolRow :=
  { row with satellite := some (upsertSatellite row.satellite properties) }

/-- The registry columns, and the flag lowered, in one statement. -/
def setRegistryProperties (row : PoolRow) (core : PoolRegistryProperties) : PoolRow :=
  { row with
    tokenAMint := some core.tokenAMint
    tokenBMint := some core.tokenBMint
    feeBps := some core.feeBps
    needsRefresh := false }

/-- The satellite columns are those of an account: the kind too, when the account maps to one. -/
def SatelliteFrom (row : PoolRow) (p : PoolAccountProperties) : Prop :=
  ∃ props, row.satellite = some props ∧
    props.protocolFeePercent = some (p.protocolFeePercent.toNat : Int) ∧
    props.referralFeePercent = some (p.referralFeePercent.toNat : Int) ∧
    (∀ kind, p.baseFeeKind = some kind → props.baseFeeKind = some kind.asStr) ∧
    props.hasDynamicFee = some p.hasDynamicFee ∧
    props.scheduler = p.feeScheduler.bind schedulerColumns

/-- All the stored properties are those of an account. -/
structure StoredFrom (row : PoolRow) (account : DecodedPoolAccount) : Prop where
  tokenAMint : row.tokenAMint = some account.registry.tokenAMint
  tokenBMint : row.tokenBMint = some account.registry.tokenBMint
  feeBps : row.feeBps = some account.registry.feeBps
  satellite : row.SatelliteFrom account.properties

theorem setPoolAccount_from (row : PoolRow) (p : PoolAccountProperties) :
    (row.setPoolAccount p).SatelliteFrom p := by
  refine ⟨upsertSatellite row.satellite p, rfl, rfl, rfl, ?_, rfl, rfl⟩
  intro kind hkind
  simp [upsertSatellite, hkind]

theorem setRegistryProperties_from {row : PoolRow} {account : DecodedPoolAccount}
    (h : row.SatelliteFrom account.properties) :
    (row.setRegistryProperties account.registry).StoredFrom account := ⟨rfl, rfl, rfl, h⟩

/-- A pool whose columns are all an account's has none NULL. -/
theorem StoredFrom.complete {row : PoolRow} {account : DecodedPoolAccount}
    (h : row.StoredFrom account) : row.complete := by
  obtain ⟨props, hprops, hp, hr, -, hd, -⟩ := h.satellite
  simp [PoolRow.complete, h.tokenAMint, h.tokenBMint, h.feeBps, hprops, hp, hr, hd]

theorem complete_setPoolAccount {row : PoolRow} (h : row.complete) (p : PoolAccountProperties) :
    (row.setPoolAccount p).complete := by
  simp only [PoolRow.complete, Bool.and_eq_true] at h
  simp [PoolRow.complete, setPoolAccount, upsertSatellite, h.1.1.1, h.1.1.2, h.1.2]

end PoolRow

end YogSothoth.Resolver
