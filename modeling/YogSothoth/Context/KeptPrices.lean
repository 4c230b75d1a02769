import YogSothoth.Core.Text

namespace YogSothoth.Context

/-- A span of time in nanoseconds, as a `chrono::Duration`. -/
abbrev Span := Int

def seconds (n : Int) : Span := n * 10 ^ 9

/-- `num_seconds`: whole seconds, towards zero. -/
def numSeconds (d : Span) : Int := d.tdiv (10 ^ 9)

inductive PriceProvider where
  | jupiter
  | helius
  | fallback
  deriving DecidableEq

structure TokenPrice where
  mint : Pubkey
  priceUsd : Decimal
  priceProvider : PriceProvider
  fetchedAt : Instant

def PRICE_STORAGE_SCALE : Nat := 18

def PRICE_STORAGE_PRECISION : Nat := 38

/-- Half away from zero. -/
def roundHalfAway (n : Int) (d : Nat) : Int := n.sign * ((2 * n.natAbs + d) / (2 * d) : Nat)

/-- A price as `token_prices.price_usd` holds it, in units of the column's last digit. -/
def atStorageScale (price : Decimal) : Int :=
  if price.scale ≤ PRICE_STORAGE_SCALE then
    price.mantissa * 10 ^ (PRICE_STORAGE_SCALE - price.scale)
  else roundHalfAway price.mantissa (10 ^ (price.scale - PRICE_STORAGE_SCALE))

/-- What the column can hold once rounded: neither a zero nor `10^20` and more. -/
def TokenPrice.isStorable (self : TokenPrice) : Bool :=
  decide (0 < atStorageScale self.priceUsd) &&
    decide (atStorageScale self.priceUsd < 10 ^ PRICE_STORAGE_PRECISION)

/-- The widest gap between two kept observations of a mint at the cadence. -/
def PRICE_SERIES_MAX_GAP : Span := seconds 510

structure KeptPrice where
  priceUsd : Int
  priceProvider : PriceProvider
  fetchedAt : Instant

/-- The last observation kept for each mint. -/
structure KeptPrices where
  last : Pubkey → Option KeptPrice
  tick : Span
  maxGap : Span

/-- The longest `chrono::Duration`: `i64::MAX` milliseconds. -/
def DURATION_MAX : Span := (2 ^ 63 - 1) * 10 ^ 6

/-- `Duration::from_std(..).unwrap_or(..)`. -/
def fromStdOr (interval : Nat) (default : Span) : Span :=
  if (interval : Int) ≤ DURATION_MAX then interval else default

namespace KeptPrices

/-- The rule for a worker ticking every `tickInterval` nanoseconds. -/
def new (tickInterval : Nat) : KeptPrices :=
  let tick := fromStdOr tickInterval PRICE_SERIES_MAX_GAP
  { last := fun _ => none, tick, maxGap := max (PRICE_SERIES_MAX_GAP - tick) 0 }

/-- How long a motionless price waits at this cadence. -/
def rewritesAtMostEvery (self : KeptPrices) : Span :=
  let tick := max (numSeconds self.tick) 1
  seconds ((numSeconds self.maxGap / tick + 1) * tick)

/-- A new mint, a moved price, another provenance, or a last row at the floor. -/
def worthKeeping (self : KeptPrices) (candidate : TokenPrice) : Bool :=
  match self.last candidate.mint with
  | none => true
  | some last =>
    decide (last.priceUsd ≠ atStorageScale candidate.priceUsd) ||
      decide (last.priceProvider ≠ candidate.priceProvider) ||
      decide (candidate.fetchedAt - last.fetchedAt > self.maxGap)

def recordOne (self : KeptPrices) (price : TokenPrice) : KeptPrices :=
  let kept : KeptPrice := ⟨atStorageScale price.priceUsd, price.priceProvider, price.fetchedAt⟩
  { self with last := fun mint => if mint = price.mint then some kept else self.last mint }

/-- Remember observations that have been written. -/
def record (self : KeptPrices) (kept : List TokenPrice) : KeptPrices :=
  kept.foldl recordOne self

end KeptPrices

inductive PriceCandidateClass where
  | regular
  | lowValue
  | neverPriced
  deriving DecidableEq

/-- Asked one tick in this many. -/
def PriceCandidateClass.everyTicks : PriceCandidateClass → UInt64
  | .regular => 1
  | .lowValue => 3
  | .neverPriced => 105

structure PriceCandidate where
  mint : Pubkey
  class_ : PriceCandidateClass

/-- The first eight bytes of the address, little-endian. -/
def addressSlot (mint : Pubkey) : UInt64 :=
  UInt64.ofNat ((mint.bytes.take 8).foldr (fun b n => b.toNat + 256 * n) 0)

def PriceCandidate.isTurn (self : PriceCandidate) (tick : UInt64) : Bool :=
  tick % self.class_.everyTicks == addressSlot self.mint % self.class_.everyTicks

/-- The longest wait of a mint without a price. -/
def UNPRICED_RETRY_MAX : Span := seconds (15 * 60)

structure Deferral where
  misses : Nat
  dueAt : Instant

/-- The mints the source last answered without a price, and when each is due again. -/
structure UnpricedMints where
  deferred : Pubkey → Option Deferral
  tick : Span

namespace UnpricedMints

def new (tickInterval : Nat) : UnpricedMints :=
  { deferred := fun _ => none, tick := fromStdOr tickInterval UNPRICED_RETRY_MAX }

/-- The longest wait at this cadence, stated at startup. -/
def asksAgainAtMostEvery (self : UnpricedMints) : Span := max UNPRICED_RETRY_MAX self.tick

def isDue (self : UnpricedMints) (mint : Pubkey) (now : Instant) : Bool :=
  match self.deferred mint with
  | none => true
  | some deferral => decide (deferral.dueAt ≤ now)

/-- `cadence × 2^misses`, capped; a product that overflows is above the cap. -/
def waitAfter (self : UnpricedMints) (misses : Nat) : Span :=
  min (self.tick * 2 ^ min misses 20) UNPRICED_RETRY_MAX

def forget (self : UnpricedMints) (mint : Pubkey) : UnpricedMints :=
  { self with deferred := fun m => if m = mint then none else self.deferred m }

/-- One more answer without a price; the wait ends one tick early. -/
def miss (now : Instant) (self : UnpricedMints) (mint : Pubkey) : UnpricedMints :=
  let misses := min (((self.deferred mint).map (·.misses)).getD 0 + 1) (2 ^ 32 - 1)
  { self with deferred := fun m =>
      if m = mint then some ⟨misses, now + self.waitAfter misses - self.tick⟩
      else self.deferred m }

/-- What the source answered: the priced leave, the unpriced wait. -/
def record (self : UnpricedMints) (priced unpriced : List Pubkey) (now : Instant) :
    UnpricedMints :=
  unpriced.foldl (miss now) (priced.foldl forget self)

def retainOnly (self : UnpricedMints) (candidates : List Pubkey) : UnpricedMints :=
  { self with deferred := fun m => if m ∈ candidates then self.deferred m else none }

end UnpricedMints

end YogSothoth.Context
