import YogSothoth.Analytic.FrozenHours

namespace YogSothoth.Analytic

/-- The hours `from..as_of` one read covers. -/
structure FrozenPeriod where
  from_ : Int
  asOf : Int
  coveredSince : Int

/-- The tranches `from..as_of` one read covers, through the last one written. -/
structure TranchePeriod where
  from_ : Int
  asOf : Int
  coveredSince : Int

/-- A bucket's volume and its part in runs. -/
structure RunSplit where
  bucketFrom : Int
  volumeUsd : Option ℚ
  inRunsUsd : Option ℚ

namespace RunSplit

section Columns

variable (decimal : ℚ → String → Except RepositoryError ℚ)

/-- `convert_optional`. -/
def convertOptional (value : Option ℚ) (field : String) : Except RepositoryError (Option ℚ) :=
  match value with
  | some value => (decimal value field).map some
  | none => .ok none

/-- A row read, its numbers as `Decimal`s. -/
def tryFrom (row : RunSplit) : Except RepositoryError RunSplit := do
  let volumeUsd ← convertOptional decimal row.volumeUsd "volume_usd"
  let inRunsUsd ← convertOptional decimal row.inRunsUsd "in_runs_usd"
  return ⟨row.bucketFrom, volumeUsd, inRunsUsd⟩

end Columns

/-- A comparison with NULL keeps nothing. -/
def measured (runsSince : Option Int) (bucket : Int) : Bool := runsSince.any (· ≤ bucket)

/-- `time_bucket` from an origin. -/
def timeBucket (width bucket origin : Int) : Int := bucket - (bucket - origin) % width

variable {P : Type*} [LinearOrder P]

def runBucket (e : (P ×ₗ Int ×ₗ Int) × ℚ) : Int := (ofLex (ofLex e.1).2).2

/-- The runs' volume of an hour of the period, NULL without a run. -/
def runHours (db : Analytics P) (start asOf h : Int) : Option ℚ :=
  sumOption ((db.runs.hours.entries.filter
    (fun e => (start ≤ runBucket e ∧ runBucket e < asOf) ∧ runBucket e = h)).map
      (fun e => some e.2))

def hourlyRows (db : Analytics P) (period : FrozenPeriod) (runsSince : Option Int) :
    List RunSplit :=
  (db.protocolHourly.entries.filter
    (fun e => max period.from_ period.coveredSince ≤ e.1 ∧ e.1 < period.asOf)).map fun e =>
      { bucketFrom := e.1
        volumeUsd := e.2.usd .volume
        inRunsUsd := if measured runsSince e.1 ∧ (e.2.usd .volume).isSome
          then some ((runHours db period.from_ period.asOf e.1).getD 0) else none }

/-- An hour of the period, its bucket apart. -/
structure BucketHour where
  bucket : Int
  volumeUsd : Option ℚ
  inRunsUsd : Option ℚ

def bucketHours (db : Analytics P) (period : FrozenPeriod) (width start : Int) :
    List BucketHour :=
  (db.protocolHourly.entries.filter (fun e => (period.from_ ≤ e.1 ∧ e.1 < period.asOf) ∧
    timeBucket width e.1 period.asOf = start)).map
      (fun e => ⟨e.1, e.2.usd .volume, runHours db period.from_ period.asOf e.1⟩)

def bucketStarts (db : Analytics P) (period : FrozenPeriod) (width : Int) : List Int :=
  (((db.protocolHourly.entries.filter
    (fun e => period.from_ ≤ e.1 ∧ e.1 < period.asOf)).map
      (fun e => timeBucket width e.1 period.asOf)).filter (period.coveredSince ≤ ·)).dedup

def bucketRows (db : Analytics P) (period : FrozenPeriod) (width : Int) (runsSince : Option Int) :
    List RunSplit :=
  ((bucketStarts db period width).insertionSort (· ≤ ·)).map fun start =>
    let hours := bucketHours db period width start
    { bucketFrom := start
      volumeUsd := sumOption (hours.map BucketHour.volumeUsd)
      inRunsUsd := if measured runsSince start ∧ hours.all (fun h => h.volumeUsd.isSome)
        then some ((sumOption (hours.map BucketHour.inRunsUsd)).getD 0) else none }

def bucketFacts (db : Analytics P) (period : TranchePeriod) (t : Int) : List (PoolFact P) :=
  db.facts.filter (fun f => (period.from_ ≤ f.bucket ∧ f.bucket < period.asOf) ∧ f.bucket = t)

/-- The valued facts of a run in the period, at one tranche. -/
def runFacts (db : Analytics P) (period : TranchePeriod) (t : Int)
    (e : (P ×ₗ Int) × RotationRun) : List (PoolFact P) :=
  db.facts.filter (fun f => f.pool = (ofLex e.1).1 ∧ f.valued ∧
    max (ofLex e.1).2 period.from_ ≤ f.bucket ∧ f.bucket < min e.2.endedAt period.asOf ∧
    f.bucket = t)

def periodRuns (db : Analytics P) (period : TranchePeriod) : List ((P ×ₗ Int) × RotationRun) :=
  db.runs.runs.entries.filter
    (fun e => (ofLex e.1).2 < period.asOf ∧ period.from_ < e.2.endedAt)

def trancheRows (db : Analytics P) (period : TranchePeriod) (runsSince : Option Int) :
    List RunSplit :=
  (series (max period.from_ period.coveredSince) (period.asOf - tranche) tranche).map fun t =>
    let facts := bucketFacts db period t
    let volumeUsd :=
      if facts.isEmpty then some 0 else sumOption (facts.map (fun f => f.usd.map Usd.volume))
    { bucketFrom := t
      volumeUsd := volumeUsd
      inRunsUsd := if measured runsSince t ∧ (facts.isEmpty ∨ volumeUsd.isSome)
        then some ((sumOption (((periodRuns db period).flatMap (runFacts db period t)).map
          (fun f => f.usd.map Usd.volume))).getD 0) else none }

variable (decimal : ℚ → String → Except RepositoryError ℚ)

def listHourly (db : Analytics P) (period : FrozenPeriod) (runsSince : Option Int) :
    Except RepositoryError (List RunSplit) :=
  (hourlyRows db period runsSince).mapM (tryFrom decimal)

def listBuckets (db : Analytics P) (period : FrozenPeriod) (width : Int)
    (runsSince : Option Int) : Except RepositoryError (List RunSplit) :=
  (bucketRows db period width runsSince).mapM (tryFrom decimal)

def listTranches (db : Analytics P) (period : TranchePeriod) (runsSince : Option Int) :
    Except RepositoryError (List RunSplit) :=
  (trancheRows db period runsSince).mapM (tryFrom decimal)

end RunSplit

end YogSothoth.Analytic
