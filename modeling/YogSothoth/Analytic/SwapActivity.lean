import YogSothoth.Analytic.RunSplit
import YogSothoth.Framework.Nullable

namespace YogSothoth.Analytic

open RunSplit (timeBucket)

def FrozenPeriod.isCovered (period : FrozenPeriod) : Bool := period.coveredSince ≤ period.from_

/-- The period's last hour, the one its distinct counts were written at. -/
def FrozenPeriod.lastHour (period : FrozenPeriod) : Int := period.asOf - hour

/-- A row of `analytic_pool_hourly`, its key apart, with the protocol it is filed under. -/
structure FiledPoolHour extends PoolHour where
  protocol : Protocol

/-- The columns of `pools` a read looks at. -/
structure KnownPool where
  protocol : Protocol
  firstSeenAt : Int

/-- The tables the swap figures are read from. -/
structure SwapTables (P : Type*) [LinearOrder P] where
  pools : OrdMap P KnownPool
  hours : OrdMap Int (Option Int)
  poolHourly : OrdMap (P ×ₗ Int) FiledPoolHour
  protocolHourly : Protocol → OrdMap Int ProtocolHour
  protocolPeriods : Protocol → Window → OrdMap Int Int

/-- The protocols whose tranches the cycle values: the only ones whose hours count 0 without a
fact. -/
def MEASURED : List Protocol := [.meteoraDammV2]

section Tables

variable {P : Type*} [LinearOrder P]

/-- A protocol's pool-hours. -/
def ofProtocol (pools : OrdMap (P ×ₗ Int) FiledPoolHour) (protocol : Protocol) :
    OrdMap (P ×ₗ Int) PoolHour :=
  (pools.filter (fun e => e.2.protocol = protocol)).mapVal FiledPoolHour.toPoolHour

/-- The facts of the hours summed per measured protocol. -/
def upsertProtocolHourly (hourly : Protocol → OrdMap Int ProtocolHour)
    (pools : OrdMap (P ×ₗ Int) FiledPoolHour) (start through : Int) :
    Protocol → OrdMap Int ProtocolHour := fun protocol =>
  if protocol ∈ MEASURED
    then Hourly.upsertProtocolHourly (hourly protocol) (ofProtocol pools protocol) start through
    else hourly protocol

end Tables

/-- The swaps of a scope over a period or a bucket. -/
structure SwapActivity where
  swaps : Int
  usd : ProtocolColumn → Option ℚ
  poolHours : Int
  poolHoursValued : Int

structure ProtocolSwapActivity where
  protocol : Protocol
  activity : SwapActivity
  pools : Option Int

structure ProtocolBucket where
  protocol : Protocol
  from_ : Int
  value : SwapActivity

structure PoolSwapBucket where
  from_ : Int
  activity : SwapActivity

namespace SwapActivity

section Columns

variable (decimal : ℚ → String → Except RepositoryError ℚ)

/-- A row read, its numbers as `Decimal`s. -/
def tryFrom (row : SwapActivity) : Except RepositoryError SwapActivity := do
  let volumeUsd ← RunSplit.convertOptional decimal (row.usd .volume) "volume_usd"
  let feesUsd ← RunSplit.convertOptional decimal (row.usd .fees) "fees_usd"
  let lpFeesUsd ← RunSplit.convertOptional decimal (row.usd .lpFees) "lp_fees_usd"
  let protocolFeesUsd ←
    RunSplit.convertOptional decimal (row.usd .protocolFees) "protocol_fees_usd"
  let referralFeesUsd ←
    RunSplit.convertOptional decimal (row.usd .referralFees) "referral_fees_usd"
  return { row with usd := fun
    | .volume => volumeUsd
    | .fees => feesUsd
    | .lpFees => lpFeesUsd
    | .protocolFees => protocolFeesUsd
    | .referralFees => referralFeesUsd }

def totalTryFrom (row : ProtocolSwapActivity) : Except RepositoryError ProtocolSwapActivity :=
  (tryFrom decimal row.activity).map (fun activity => { row with activity := activity })

def bucketTryFrom (row : ProtocolBucket) : Except RepositoryError ProtocolBucket :=
  (tryFrom decimal row.value).map (fun value => { row with value := value })

def poolBucketTryFrom (row : PoolSwapBucket) : Except RepositoryError PoolSwapBucket :=
  (tryFrom decimal row.activity).map (fun activity => { row with activity := activity })

end Columns

/-- A protocol's hours summed: `SUM` of every column. -/
def sumHours (hours : List ProtocolHour) : SwapActivity where
  swaps := (hours.map ProtocolHour.swapCount).sum
  usd c := sumOption (hours.map (fun h => h.usd c))
  poolHours := (hours.map (fun h => (h.activePools : Int))).sum
  poolHoursValued := (hours.map (fun h => (h.activePoolsValued : Int))).sum

def ofHour (h : ProtocolHour) : SwapActivity :=
  ⟨h.swapCount, h.usd, h.activePools, h.activePoolsValued⟩

/-- A pool's facts of some hours summed: 0 only without any. -/
def sumFacts (facts : List PoolHour) : SwapActivity where
  swaps := (facts.map PoolHour.swapCount).sum
  usd c := if facts.length = 0 then some 0 else sumOption (facts.map (fun f => f.usd.map c.of))
  poolHours := facts.length
  poolHoursValued := facts.countP PoolHour.valued

def ofFact (fact : Option PoolHour) : SwapActivity where
  swaps := (fact.map PoolHour.swapCount).getD 0
  usd c := if fact.isNone then some 0 else fact.bind (fun f => f.usd.map c.of)
  poolHours := if fact.isNone then 0 else 1
  poolHoursValued := if fact.any PoolHour.valued then 1 else 0

/-- The protocols a filter keeps, in the order of their text. -/
def protocols (filter : Option Protocol) : List Protocol :=
  [.meteoraDammV2, .meteoraDlmm].filter (fun protocol => filter.all (· = protocol))

/-- A row a bucket and a protocol, where there is one, by bucket then protocol. -/
def bucketRows (starts : List Int) (filter : Option Protocol)
    (read : Protocol → Int → Option SwapActivity) : List ProtocolBucket :=
  (starts.dedup.insertionSort (· ≤ ·)).flatMap fun start =>
    (protocols filter).filterMap fun protocol =>
      (read protocol start).map (fun activity => ⟨protocol, start, activity⟩)

variable {P : Type*} [LinearOrder P]

/-- A protocol's rows of the period. -/
def periodHours (db : SwapTables P) (period : FrozenPeriod) (protocol : Protocol) :
    List (Int × ProtocolHour) :=
  (db.protocolHourly protocol).entries.filter (fun e => period.from_ ≤ e.1 ∧ e.1 < period.asOf)

def protocolTotals (db : SwapTables P) (period : FrozenPeriod) (window : Window)
    (filter : Option Protocol) : List ProtocolSwapActivity :=
  (protocols filter).filterMap fun protocol =>
    let hours := periodHours db period protocol
    if hours.isEmpty then none
    else some ⟨protocol, sumHours (hours.map Prod.snd),
      (db.protocolPeriods protocol window).get? period.lastHour⟩

def protocolHourlyRows (db : SwapTables P) (period : FrozenPeriod) (filter : Option Protocol) :
    List ProtocolBucket :=
  let kept := fun bucket => decide
    (max period.from_ period.coveredSince ≤ bucket ∧ bucket < period.asOf)
  bucketRows ((protocols filter).flatMap (fun p => (db.protocolHourly p).keys.filter kept)) filter
    (fun p bucket => ((db.protocolHourly p).get? bucket).map ofHour)

def protocolBuckets (db : SwapTables P) (period : FrozenPeriod) (width : Int)
    (filter : Option Protocol) : List ProtocolBucket :=
  bucketRows (((protocols filter).flatMap (fun p =>
      (periodHours db period p).map (fun e => timeBucket width e.1 period.asOf))).filter
        (period.coveredSince ≤ ·)) filter fun p start =>
    let hours := (periodHours db period p).filter
      (fun e => timeBucket width e.1 period.asOf = start)
    if hours.isEmpty then none else some (sumHours (hours.map Prod.snd))

/-- A pool's facts of the period. -/
def facts (db : SwapTables P) (period : FrozenPeriod) (pool : P) :
    OrdMap (P ×ₗ Int) FiledPoolHour :=
  db.poolHourly.filter (fun e => (ofLex e.1).1 = pool ∧ period.from_ ≤ (ofLex e.1).2 ∧
    (ofLex e.1).2 < period.asOf)

/-- Since when a measured pool is read: from its first fact when earlier than first seen. -/
def seen (db : SwapTables P) (period : FrozenPeriod) (pool : P) : Option Int :=
  ((db.pools.get? pool).filter (fun known => known.protocol ∈ MEASURED)).bind fun known =>
    least (some (hourOf known.firstSeenAt))
      ((facts db period pool).first?.map (fun e => (ofLex e.1).2))

/-- The hours of the period a pool is read over. -/
def seenHours (db : SwapTables P) (period : FrozenPeriod) (pool : P) : List Int :=
  db.hours.keys.filter (fun h => (seen db period pool).any (· ≤ h) ∧
    period.from_ ≤ h ∧ h < period.asOf)

/-- A pool's fact of an hour, where it has one in the period. -/
def factAt (db : SwapTables P) (period : FrozenPeriod) (pool : P) (h : Int) : Option PoolHour :=
  ((facts db period pool).get? (toLex (pool, h))).map FiledPoolHour.toPoolHour

def poolTotals (db : SwapTables P) (period : FrozenPeriod) (pool : P) : Option SwapActivity :=
  let hours := seenHours db period pool
  if hours.length = 0 then none else some (sumFacts (hours.filterMap (factAt db period pool)))

def poolHourlyRows (db : SwapTables P) (period : FrozenPeriod) (pool : P) : List PoolSwapBucket :=
  (db.hours.keys.filter (fun h => (seen db period pool).any (· ≤ h) ∧
    max period.from_ period.coveredSince ≤ h ∧ h < period.asOf)).map
      (fun h => ⟨h, ofFact (factAt db period pool h)⟩)

def poolBuckets (db : SwapTables P) (period : FrozenPeriod) (width : Int) (pool : P) :
    List PoolSwapBucket :=
  let hours := (seenHours db period pool).filter
    (fun h => period.coveredSince ≤ timeBucket width h period.asOf)
  ((hours.map (fun h => timeBucket width h period.asOf)).dedup.insertionSort (· ≤ ·)).map
    fun start => ⟨start, sumFacts ((hours.filter
      (fun h => timeBucket width h period.asOf = start)).filterMap (factAt db period pool))⟩

variable (decimal : ℚ → String → Except RepositoryError ℚ)

def findProtocolTotals (db : SwapTables P) (period : FrozenPeriod) (window : Window)
    (filter : Option Protocol) : Except RepositoryError (List ProtocolSwapActivity) :=
  (protocolTotals db period window filter).mapM (totalTryFrom decimal)

def listProtocolHourly (db : SwapTables P) (period : FrozenPeriod) (filter : Option Protocol) :
    Except RepositoryError (List ProtocolBucket) :=
  (protocolHourlyRows db period filter).mapM (bucketTryFrom decimal)

def listProtocolBuckets (db : SwapTables P) (period : FrozenPeriod) (width : Int)
    (filter : Option Protocol) : Except RepositoryError (List ProtocolBucket) :=
  (protocolBuckets db period width filter).mapM (bucketTryFrom decimal)

def findPoolTotals (db : SwapTables P) (period : FrozenPeriod) (pool : P) :
    Except RepositoryError (Option SwapActivity) :=
  (poolTotals db period pool).mapM (tryFrom decimal)

def listPoolHourly (db : SwapTables P) (period : FrozenPeriod) (pool : P) :
    Except RepositoryError (List PoolSwapBucket) :=
  (poolHourlyRows db period pool).mapM (poolBucketTryFrom decimal)

def listPoolBuckets (db : SwapTables P) (period : FrozenPeriod) (width : Int) (pool : P) :
    Except RepositoryError (List PoolSwapBucket) :=
  (poolBuckets db period width pool).mapM (poolBucketTryFrom decimal)

end SwapActivity

end YogSothoth.Analytic
