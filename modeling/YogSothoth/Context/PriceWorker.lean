import YogSothoth.Context.KeptPrices
import YogSothoth.Framework.Keyset

namespace YogSothoth.Context

/-- A row of `token_prices`. -/
structure TokenPriceRow where
  mint : Pubkey
  priceUsd : Int
  priceProvider : PriceProvider
  fetchedAt : Instant
  deriving DecidableEq

/-- A row of `token_last_price`. -/
structure LastPriceRow where
  priceUsd : Int
  fetchedAt : Instant
  deriving DecidableEq

def TokenPriceRow.of (price : TokenPrice) : TokenPriceRow :=
  ⟨price.mint, atStorageScale price.priceUsd, price.priceProvider, columnInstant price.fetchedAt⟩

def TokenPriceRow.key (row : TokenPriceRow) : Pubkey × Instant := (row.mint, row.fetchedAt)

/-- `token_prices` with its primary key, and `token_last_price`. -/
structure PriceTables where
  rows : List TokenPriceRow
  lastPrice : Pubkey → Option LastPriceRow
  key : (rows.map TokenPriceRow.key).Nodup

namespace PriceTables

def empty : PriceTables := ⟨[], fun _ => none, List.nodup_nil⟩

/-- `SELECT … WHERE mint = $1 ORDER BY fetched_at DESC LIMIT 1`. -/
def findLatestByMint (self : PriceTables) (mint : Pubkey) : Option TokenPriceRow :=
  (orderBy (fun r => OrderDual.toDual r.fetchedAt)
    (self.rows.filter (fun r => r.mint = mint))).head?

/-- One row of the `VALUES`, `ON CONFLICT (mint, fetched_at) DO NOTHING`, and what the statement
has returned. -/
def insertRow (state : PriceTables × List TokenPriceRow) (price : TokenPrice) :
    PriceTables × List TokenPriceRow :=
  let row := TokenPriceRow.of price
  if h : row.key ∈ state.1.rows.map TokenPriceRow.key then state
  else
    ({ state.1 with
        rows := state.1.rows ++ [row]
        key := by
          rw [List.map_append, List.map_singleton]
          exact List.nodup_append.mpr ⟨state.1.key, List.nodup_singleton _, by
            intro a ha b hb hab
            rw [List.mem_singleton] at hb
            exact h (hb ▸ hab ▸ ha)⟩ },
      state.2 ++ [row])

/-- `SELECT DISTINCT ON (mint) … ORDER BY mint, fetched_at DESC`, for one mint. -/
def newestOf (kept : List TokenPriceRow) (mint : Pubkey) : Option TokenPriceRow :=
  (orderBy (fun r => OrderDual.toDual r.fetchedAt) (kept.filter (fun r => r.mint = mint))).head?

/-- `ON CONFLICT (mint) DO UPDATE … WHERE token_last_price.fetched_at < EXCLUDED.fetched_at`. -/
def upsertLast (lastPrice : Pubkey → Option LastPriceRow) (kept : List TokenPriceRow)
    (mint : Pubkey) : Option LastPriceRow :=
  match newestOf kept mint, lastPrice mint with
  | none, last => last
  | some row, none => some ⟨row.priceUsd, row.fetchedAt⟩
  | some row, some last =>
    if last.fetchedAt < row.fetchedAt then some ⟨row.priceUsd, row.fetchedAt⟩ else some last

/-- The statement of `insert_batch`, or the error that kept it from being applied. -/
def insertBatch (self : PriceTables) (prices : List TokenPrice)
    (refused : Option RepositoryError) : Except RepositoryError PriceTables :=
  if prices.isEmpty then .ok self
  else match refused with
    | some e => .error e
    | none =>
      let (inserted, kept) := prices.foldl insertRow (self, [])
      .ok { inserted with lastPrice := upsertLast self.lastPrice kept }

end PriceTables

structure FetchedPrice where
  mint : Pubkey
  priceProvider : PriceProvider
  priceUsd : Decimal

structure PriceAnswer where
  priced : List FetchedPrice
  unpriced : List Pubkey

inductive SourceError where
  | http (message : String)
  | rateLimited (retryAfter : Option Nat)
  | decode (message : String)

inductive TickOutcome where
  | listFailed (e : RepositoryError)
  | noCandidates
  | nothingDue
  | sourceFailed (e : SourceError)
  | noStorablePrice
  | allUnchanged (suppressed : Nat)
  | insertFailed (e : RepositoryError)
  | inserted (count : Nat)

structure PriceWorker where
  tick : UInt64
  unpriced : UnpricedMints
  kept : KeptPrices

def PriceWorker.new (interval : Nat) : PriceWorker :=
  ⟨0, UnpricedMints.new interval, KeptPrices.new interval⟩

/-- What one tick meets: the candidates, the clock when it asks and when it is answered, what the
source answers to what it is asked, and whether the database refuses the batch. -/
structure Tick where
  candidates : Except RepositoryError (List PriceCandidate)
  askedAt : Instant
  fetchPrices : List Pubkey → Except SourceError PriceAnswer
  now : Instant
  refused : Option RepositoryError

namespace PriceWorker

/-- The mints whose turn it is and worth asking, or the ending of a tick that asks nothing. -/
def ask (self : PriceWorker) (i : Tick) : PriceWorker × Except TickOutcome (List Pubkey) :=
  let tick := self.tick
  let self := { self with tick := tick + 1 }
  match i.candidates with
  | .error e => (self, .error (.listFailed e))
  | .ok candidates =>
    let self := { self with unpriced := self.unpriced.retainOnly (candidates.map (·.mint)) }
    let mints := (candidates.filter (fun c =>
      c.isTurn tick && self.unpriced.isDue c.mint i.askedAt)).map (·.mint)
    if candidates.isEmpty then (self, .error .noCandidates)
    else if mints.isEmpty then (self, .error .nothingDue)
    else (self, .ok mints)

/-- The answer of the source, or the ending of a tick it did not answer. -/
def answer (self : PriceWorker) (i : Tick) : Except TickOutcome PriceAnswer :=
  match (self.ask i).2 with
  | .error ending => .error ending
  | .ok mints => (i.fetchPrices mints).mapError .sourceFailed

/-- The storable prices of an answer, observed at `now`. -/
def storable (answer : PriceAnswer) (now : Instant) : List TokenPrice :=
  (answer.priced.map (fun f =>
    ({ mint := f.mint, priceUsd := f.priceUsd, priceProvider := f.priceProvider,
       fetchedAt := now } : TokenPrice))).filter TokenPrice.isStorable

/-- What becomes of an answer: filtered, inserted in one statement, then remembered. -/
def write (self : PriceWorker) (tables : PriceTables) (answer : PriceAnswer) (now : Instant)
    (refused : Option RepositoryError) : PriceWorker × PriceTables × TickOutcome :=
  let storable := storable answer now
  if storable.isEmpty then (self, tables, .noStorablePrice)
  else
    let toInsert := storable.filter self.kept.worthKeeping
    if toInsert.isEmpty then
      (self, tables, .allUnchanged (storable.length - toInsert.length))
    else match tables.insertBatch toInsert refused with
      | .error e => (self, tables, .insertFailed e)
      | .ok tables =>
        ({ self with kept := self.kept.record toInsert }, tables, .inserted toInsert.length)

/-- One pricing cycle. -/
def priceOnce (self : PriceWorker) (tables : PriceTables) (i : Tick) :
    PriceWorker × PriceTables × TickOutcome :=
  let asked := (self.ask i).1
  match self.answer i with
  | .error ending => (asked, tables, ending)
  | .ok answer =>
    let answered := { asked with
      unpriced := asked.unpriced.record (answer.priced.map FetchedPrice.mint) answer.unpriced i.now }
    answered.write tables answer i.now i.refused

end PriceWorker

end YogSothoth.Context
