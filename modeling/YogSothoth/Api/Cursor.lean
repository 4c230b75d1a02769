import YogSothoth.Core.Page

namespace YogSothoth.Api

inductive ApiError where
  | badRequest (message : String)
  | unauthorized
  | notFound (message : String)
  | unavailable (reason : String)
  | internal (message : String)
  | framework (status : Nat) (message : String)
  deriving DecidableEq

/-- The values a cursor's JSON object holds. -/
inductive JsonValue where
  | string (s : String)
  | number (n : Int)
  | null
  deriving DecidableEq

abbrev JsonObject := List (String × JsonValue)

inductive BlobError where
  | notBase64
  | notJson
  deriving DecidableEq

/-- URL-safe unpadded base64 over a JSON object, as the libraries write and read it: an object
written reads back. -/
structure Blob where
  encode : JsonObject → String
  decode : String → Except BlobError JsonObject
  decode_encode : ∀ o, decode (encode o) = .ok o

/-- A number outside the field's type is refused. -/
def asI64 (n : Int) : Option Int64 := if -2 ^ 63 ≤ n ∧ n < 2 ^ 63 then some (.ofInt n) else none

def asI32 (n : Int) : Option Int32 := if -2 ^ 31 ≤ n ∧ n < 2 ^ 31 then some (.ofInt n) else none

def asU16 (n : Int) : Option UInt16 := if 0 ≤ n ∧ n < 2 ^ 16 then some (.ofNat n.toNat) else none

@[simp] theorem asI64_toInt (v : Int64) : asI64 v.toInt = some v := by
  rw [asI64, if_pos ⟨v.le_toInt, v.toInt_lt⟩, Int64.ofInt_toInt]

@[simp] theorem asI32_toInt (v : Int32) : asI32 v.toInt = some v := by
  rw [asI32, if_pos ⟨v.le_toInt, v.toInt_lt⟩, Int32.ofInt_toInt]

@[simp] theorem asU16_toNat (v : UInt16) : asU16 v.toNat = some v := by
  have hlt := v.toNat_lt
  rw [asU16, if_pos (by omega), Int.toNat_natCast, UInt16.ofNat_toNat]

namespace JsonObject

def keys (o : JsonObject) : List String := o.map Prod.fst

def string (o : JsonObject) (k : String) : Option String :=
  match o.lookup k with
  | some (.string s) => some s
  | _ => none

/-- A missing field and `null` both read as `None`. -/
def optString (o : JsonObject) (k : String) : Option (Option String) :=
  match o.lookup k with
  | none => some none
  | some .null => some none
  | some (.string s) => some (some s)
  | some (.number _) => none

def i64 (o : JsonObject) (k : String) : Option Int64 :=
  match o.lookup k with
  | some (.number n) => asI64 n
  | _ => none

def i32 (o : JsonObject) (k : String) : Option Int32 :=
  match o.lookup k with
  | some (.number n) => asI32 n
  | _ => none

def u16 (o : JsonObject) (k : String) : Option UInt16 :=
  match o.lookup k with
  | some (.number n) => asU16 n
  | _ => none

end JsonObject

/-- The ten wire formats. -/
inductive Shape where
  | signal
  | tokenActivity
  | liquidityMove
  | protocol
  | pool
  | token
  | tokenPrice
  | rotationRun
  | announcement
  | event
  deriving DecidableEq

/-- The fields a format must have. -/
def Shape.required : Shape → List String
  | .signal => ["triggered_at", "id"]
  | .tokenActivity => ["last_hour", "volume_usd", "mint"]
  | .liquidityMove =>
    ["scope", "window", "as_of", "order", "amount_usd", "at", "signature", "event_index"]
  | .protocol => ["protocol"]
  | .pool => ["scope", "first_seen_at", "pool"]
  | .token => ["fetched_at", "mint"]
  | .tokenPrice => ["mint", "from", "fetched_at"]
  | .rotationRun => ["scope", "window", "as_of", "order", "volume_usd", "started_at", "pool"]
  | .announcement => ["starts_at", "id"]
  | .event => ["collection", "scope", "from", "at", "signature", "event_index"]

/-- The fields it may have. -/
def Shape.optional : Shape → List String
  | .liquidityMove => ["kind"]
  | .announcement => ["status"]
  | _ => []

/-- What a derived deserializer with `deny_unknown_fields` asks of the names: none twice, none
unknown, none required missing. -/
def Shape.accepts (s : Shape) (keys : List String) : Bool :=
  decide keys.Nodup && keys.all (fun k => k ∈ s.required ++ s.optional) &&
    s.required.all (fun k => k ∈ keys)

structure SignalCursorWire where
  triggeredAt : String
  id : Int64

structure TokenActivityCursorWire where
  lastHour : String
  volumeUsd : String
  mint : String

structure LiquidityMoveCursorWire where
  scope : String
  kind : Option String
  window : String
  asOf : String
  order : String
  amountUsd : String
  at_ : String
  signature : String
  eventIndex : Int32

structure ProtocolCursorWire where
  protocol : String

structure PoolCursorWire where
  scope : String
  firstSeenAt : String
  pool : String

structure TokenCursorWire where
  fetchedAt : String
  mint : String

structure TokenPriceCursorWire where
  mint : String
  from_ : String
  fetchedAt : String

structure RotationRunCursorWire where
  scope : String
  window : String
  asOf : String
  order : String
  volumeUsd : String
  startedAt : String
  pool : String

structure AnnouncementCursorWire where
  status : Option String
  startsAt : String
  id : Int64

structure EventCursorWire where
  collection : String
  scope : String
  from_ : String
  at_ : String
  signature : String
  eventIndex : UInt16

def SignalCursorWire.toJson (w : SignalCursorWire) : JsonObject :=
  [("triggered_at", .string w.triggeredAt), ("id", .number w.id.toInt)]

def TokenActivityCursorWire.toJson (w : TokenActivityCursorWire) : JsonObject :=
  [("last_hour", .string w.lastHour), ("volume_usd", .string w.volumeUsd), ("mint", .string w.mint)]

/-- A kind the list does not keep is skipped. -/
def LiquidityMoveCursorWire.toJson (w : LiquidityMoveCursorWire) : JsonObject :=
  ("scope", .string w.scope) ::
    ((w.kind.map (fun k => ("kind", JsonValue.string k))).toList ++
    [("window", .string w.window), ("as_of", .string w.asOf), ("order", .string w.order),
      ("amount_usd", .string w.amountUsd), ("at", .string w.at_), ("signature", .string w.signature),
      ("event_index", .number w.eventIndex.toInt)])

def ProtocolCursorWire.toJson (w : ProtocolCursorWire) : JsonObject :=
  [("protocol", .string w.protocol)]

def PoolCursorWire.toJson (w : PoolCursorWire) : JsonObject :=
  [("scope", .string w.scope), ("first_seen_at", .string w.firstSeenAt), ("pool", .string w.pool)]

def TokenCursorWire.toJson (w : TokenCursorWire) : JsonObject :=
  [("fetched_at", .string w.fetchedAt), ("mint", .string w.mint)]

def TokenPriceCursorWire.toJson (w : TokenPriceCursorWire) : JsonObject :=
  [("mint", .string w.mint), ("from", .string w.from_), ("fetched_at", .string w.fetchedAt)]

def RotationRunCursorWire.toJson (w : RotationRunCursorWire) : JsonObject :=
  [("scope", .string w.scope), ("window", .string w.window), ("as_of", .string w.asOf),
    ("order", .string w.order), ("volume_usd", .string w.volumeUsd),
    ("started_at", .string w.startedAt), ("pool", .string w.pool)]

def AnnouncementCursorWire.toJson (w : AnnouncementCursorWire) : JsonObject :=
  [("status", match w.status with | none => .null | some s => .string s),
    ("starts_at", .string w.startsAt), ("id", .number w.id.toInt)]

def EventCursorWire.toJson (w : EventCursorWire) : JsonObject :=
  [("collection", .string w.collection), ("scope", .string w.scope), ("from", .string w.from_),
    ("at", .string w.at_), ("signature", .string w.signature),
    ("event_index", .number w.eventIndex.toNat)]

/-- A format read from an object whose names it accepts. -/
def ofShape {W : Type} (s : Shape) (read : JsonObject → Option W) (o : JsonObject) : Option W :=
  if s.accepts o.keys then read o else none

def SignalCursorWire.fromJson : JsonObject → Option SignalCursorWire :=
  ofShape .signal (fun o => do
    pure ⟨← o.string "triggered_at", ← o.i64 "id"⟩)

def TokenActivityCursorWire.fromJson : JsonObject → Option TokenActivityCursorWire :=
  ofShape .tokenActivity (fun o => do
    pure ⟨← o.string "last_hour", ← o.string "volume_usd", ← o.string "mint"⟩)

def LiquidityMoveCursorWire.fromJson : JsonObject → Option LiquidityMoveCursorWire :=
  ofShape .liquidityMove (fun o => do
    pure ⟨← o.string "scope", ← o.optString "kind", ← o.string "window", ← o.string "as_of",
      ← o.string "order", ← o.string "amount_usd", ← o.string "at", ← o.string "signature",
      ← o.i32 "event_index"⟩)

def ProtocolCursorWire.fromJson : JsonObject → Option ProtocolCursorWire :=
  ofShape .protocol (fun o => do
    pure ⟨← o.string "protocol"⟩)

def PoolCursorWire.fromJson : JsonObject → Option PoolCursorWire :=
  ofShape .pool (fun o => do
    pure ⟨← o.string "scope", ← o.string "first_seen_at", ← o.string "pool"⟩)

def TokenCursorWire.fromJson : JsonObject → Option TokenCursorWire :=
  ofShape .token (fun o => do
    pure ⟨← o.string "fetched_at", ← o.string "mint"⟩)

def TokenPriceCursorWire.fromJson : JsonObject → Option TokenPriceCursorWire :=
  ofShape .tokenPrice (fun o => do
    pure ⟨← o.string "mint", ← o.string "from", ← o.string "fetched_at"⟩)

def RotationRunCursorWire.fromJson : JsonObject → Option RotationRunCursorWire :=
  ofShape .rotationRun (fun o => do
    pure ⟨← o.string "scope", ← o.string "window", ← o.string "as_of", ← o.string "order",
      ← o.string "volume_usd", ← o.string "started_at", ← o.string "pool"⟩)

def AnnouncementCursorWire.fromJson : JsonObject → Option AnnouncementCursorWire :=
  ofShape .announcement (fun o => do
    pure ⟨← o.optString "status", ← o.string "starts_at", ← o.i64 "id"⟩)

def EventCursorWire.fromJson : JsonObject → Option EventCursorWire :=
  ofShape .event (fun o => do
    pure ⟨← o.string "collection", ← o.string "scope", ← o.string "from", ← o.string "at",
      ← o.string "signature", ← o.u16 "event_index"⟩)

end YogSothoth.Api
