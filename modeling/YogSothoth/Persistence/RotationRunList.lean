import YogSothoth.Analytic.RunSplit
import YogSothoth.Core.Decimals
import YogSothoth.Persistence.Pagination

namespace YogSothoth

def Window.duration (w : Window) : Int := w.hours * Analytic.hour

namespace Analytic.TranchePeriod

/-- `window` through `asOf`; covered from `measuredSince`, or never before it is measured. -/
def of (asOf : Int) (window : Window) (measuredSince : Option Int) : TranchePeriod :=
  ⟨asOf - window.duration, asOf, measuredSince.getD asOf⟩

def isCovered (p : TranchePeriod) : Bool := p.coveredSince ≤ p.from_

end Analytic.TranchePeriod

namespace RotationRunList

open Analytic (Analytics TranchePeriod tranche)

/-- A pool's tranches whose quoted reserve turned over, as a list serves them. -/
structure RotationRun where
  protocol : Protocol
  poolAddress : Pubkey
  startedAt : Instant
  endedAt : Instant
  volumeUsd : Decimal
  firstHourVolumeUsd : Decimal
  extinct : Bool
  tokenASymbol : Option String
  tokenBSymbol : Option String
  deriving DecidableEq

/-- A run, and the volume its page is ordered by. -/
structure RotationRunRow where
  protocol : Protocol
  poolAddress : Pubkey
  startedAt : Int
  endedAt : Int
  volumeUsd : ℚ
  firstHourVolumeUsd : ℚ
  extinct : Bool
  volumeKey : ℚ
  tokenASymbol : Option String
  tokenBSymbol : Option String

/-- What names a page: the mints of `pools` and the symbols of `token_metadata`, by primary key. -/
structure Names where
  tokenAMint : Pubkey → Option Pubkey
  tokenBMint : Pubkey → Option Pubkey
  symbol : Pubkey → Option String

/-- `ROUND(q, places)` in units of its last place: the half goes away from zero. -/
def roundAt (places : Nat) (q : ℚ) : Int :=
  if 0 ≤ q then (q * 10 ^ places + 1 / 2).floor else -(-q * 10 ^ places + 1 / 2).floor

/-- A volume as a list orders it, rounded as the cursor holds it. -/
def volumeKey (q : ℚ) : ℚ := (roundAt 6 q : ℚ) / 10 ^ 6

section Query

/-- A row of `analytic_rotation_runs` under its key. -/
abbrev Entry : Type := (Pubkey ×ₗ Int) × Analytic.RotationRun

namespace Entry

def poolAddress (e : Entry) : Pubkey := (ofLex e.1).1

def startedAt (e : Entry) : Int := (ofLex e.1).2

def volumeKey (e : Entry) : ℚ := RotationRunList.volumeKey e.2.volumeUsd

/-- The runs are all drawn by one protocol's writer. -/
def inScope (e : Entry) : RotationRunScope → Bool
  | .protocol p => p = .meteoraDammV2
  | .pool p => e.poolAddress = p

def inPeriod (e : Entry) (period : TranchePeriod) : Bool :=
  period.from_ ≤ e.startedAt ∧ e.startedAt < period.asOf

def toRow (names : Names) (e : Entry) : RotationRunRow where
  protocol := .meteoraDammV2
  poolAddress := e.poolAddress
  startedAt := e.startedAt
  endedAt := e.2.endedAt
  volumeUsd := e.2.volumeUsd
  firstHourVolumeUsd := e.2.firstHourVolumeUsd
  extinct := e.2.extinct
  volumeKey := e.volumeKey
  tokenASymbol := (names.tokenAMint e.poolAddress).bind names.symbol
  tokenBSymbol := (names.tokenBMint e.poolAddress).bind names.symbol

end Entry

variable [LinearOrder Pubkey]

namespace Entry

/-- The most volume first, ties by pool, then start. -/
def byVolume (e : Entry) : ℚᵒᵈ ×ₗ Pubkey ×ₗ Int :=
  toLex (OrderDual.toDual e.volumeKey, toLex (e.poolAddress, e.startedAt))

/-- The latest start first, ties by pool. -/
def byStart (e : Entry) : Intᵒᵈ ×ₗ Pubkey :=
  toLex (OrderDual.toDual e.startedAt, e.poolAddress)

def pastVolume (e : Entry) (c : RotationRunCursor) : Bool :=
  e.volumeKey < c.volumeUsd.value ∨ (e.volumeKey = c.volumeUsd.value ∧
    (c.poolAddress < e.poolAddress ∨ (e.poolAddress = c.poolAddress ∧ c.startedAt < e.startedAt)))

def pastStart (e : Entry) (c : RotationRunCursor) : Bool :=
  e.startedAt < c.startedAt ∨ (e.startedAt = c.startedAt ∧ c.poolAddress < e.poolAddress)

end Entry

/-- `SELECT … WHERE … ORDER BY … LIMIT`, the addresses in the order of their column. -/
def selectRuns (db : Analytics Pubkey) (period : TranchePeriod) (scope : RotationRunScope)
    (order : RotationRunOrder) (cursor : Option RotationRunCursor) (limit : Int) : List Entry :=
  match order with
  | .volume => (orderBy Entry.byVolume (db.runs.runs.entries.filter (fun e : Entry =>
      e.inScope scope ∧ e.inPeriod period ∧ cursor.all e.pastVolume))).take limit.toNat
  | .at_ => (orderBy Entry.byStart (db.runs.runs.entries.filter (fun e : Entry =>
      e.inScope scope ∧ e.inPeriod period ∧ cursor.all e.pastStart))).take limit.toNat

end Query

section Lookup

variable (decimal : ℚ → String → Except RepositoryError Decimal)

/-- A row read with its key, its numbers as `Decimal`s. -/
def RotationRunRow.intoKeyed (row : RotationRunRow) :
    Except RepositoryError (RotationRun × Decimal) := do
  let key ← decimal row.volumeKey "volume_key"
  let volumeUsd ← decimal row.volumeUsd "volume_usd"
  let firstHourVolumeUsd ← decimal row.firstHourVolumeUsd "first_hour_volume_usd"
  return ({ protocol := row.protocol
            poolAddress := row.poolAddress
            startedAt := row.startedAt
            endedAt := row.endedAt
            volumeUsd := volumeUsd
            firstHourVolumeUsd := firstHourVolumeUsd
            extinct := row.extinct
            tokenASymbol := row.tokenASymbol
            tokenBSymbol := row.tokenBSymbol }, key)

variable [LinearOrder Pubkey]

/-- The first tranche whose rotation was measured: only one protocol's writer measures it. -/
def findMeasuredSince (db : Analytics Pubkey) : Protocol → Option Int
  | .meteoraDammV2 => db.tables.tranches.first?.map Prod.fst
  | .meteoraDlmm => none

/-- The end of the last tranche written. -/
def findWrittenThrough (db : Analytics Pubkey) : Option Int :=
  db.tables.tranches.last?.map (fun last => last.1 + tranche)

def makeCursor (period : TranchePeriod) (window : Window) (scope : RotationRunScope)
    (order : RotationRunOrder) (r : RotationRun × Decimal) : Cursor :=
  .rotationRun
    { scope := scope
      window := window
      asOf := period.asOf
      order := order
      volumeUsd := r.2
      startedAt := r.1.startedAt
      poolAddress := r.1.poolAddress }

/-- A page of the runs, forward only. -/
def listRuns (db : Analytics Pubkey) (names : Names) (period : TranchePeriod) (window : Window)
    (scope : RotationRunScope) (order : RotationRunOrder) (cursor : Option RotationRunCursor)
    (limit : Int) : Except RepositoryError (Page RotationRun) := do
  let rows := (selectRuns db period scope order cursor (limit + 1)).map (Entry.toRow names)
  let runs ← rows.mapM (RotationRunRow.intoKeyed decimal)
  let page := (PageBuilder.mk runs limit .forward cursor.isSome).finalize
    (makeCursor period window scope order)
  return { items := page.items.map Prod.fst
           nextCursor := page.nextCursor
           prevCursor := none
           isFirst := page.isFirst
           isLast := page.isLast }

end Lookup

end RotationRunList

end YogSothoth
