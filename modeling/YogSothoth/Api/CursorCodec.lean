import YogSothoth.Api.Cursor

namespace YogSothoth.Api

/-- The on-chain collections a page of events is read from: one shape of cursor for all. -/
inductive EventCollection where
  | swaps
  | liquidityChanges
  | poolCreations
  | positionChanges
  | positionFeeClaims
  | protocolFeeClaims
  | rewardClaims
  | rewardChanges
  | poolChanges
  deriving DecidableEq

def EventCollection.tag : EventCollection → String
  | .swaps => "swaps"
  | .liquidityChanges => "liquidity-changes"
  | .poolCreations => "pool-creations"
  | .positionChanges => "position-changes"
  | .positionFeeClaims => "position-fee-claims"
  | .protocolFeeClaims => "protocol-fee-claims"
  | .rewardClaims => "reward-claims"
  | .rewardChanges => "reward-changes"
  | .poolChanges => "pool-changes"

def orderTag : LiquidityMoveOrder → String
  | .amount => "amount"
  | .at_ => "at"

def rotationRunOrderTag : RotationRunOrder → String
  | .volume => "volume"
  | .at_ => "at"

section Tags

variable (texts : Texts)

def eventScopeTag : EventScope → String
  | .all => "all"
  | .protocol p => "protocol:" ++ p.asStr
  | .pool p => "pool:" ++ texts.pubkey.print p

def scopeTag : PoolScope → String
  | .all => "all"
  | .protocol p => "protocol:" ++ p.asStr
  | .token mint => "token:" ++ texts.pubkey.print mint

def liquidityMoveScopeTag : LiquidityMoveScope → String
  | .protocol p => "protocol:" ++ p.asStr
  | .pool p => "pool:" ++ texts.pubkey.print p

def rotationRunScopeTag : RotationRunScope → String
  | .protocol p => "protocol:" ++ p.asStr
  | .pool p => "pool:" ++ texts.pubkey.print p

end Tags

section Codec

variable (texts : Texts) (blob : Blob)

def encodeEventCursor (collection : EventCollection) (c : EventCursor) : String :=
  blob.encode (EventCursorWire.toJson
    { collection := collection.tag
      scope := eventScopeTag texts c.scope
      from_ := texts.instant.print c.from_
      at_ := texts.instant.print c.at_
      signature := texts.signature.print c.signature
      eventIndex := c.eventIndex })

def encodeCursor : Cursor → String
  | .signal c => blob.encode (SignalCursorWire.toJson
    { triggeredAt := texts.instant.print c.triggeredAt
      id := c.id })
  | .tokenActivity c => blob.encode (TokenActivityCursorWire.toJson
    { lastHour := texts.instant.print c.lastHour
      volumeUsd := texts.decimal.print c.volumeUsd
      mint := texts.pubkey.print c.mint })
  | .liquidityMove c => blob.encode (LiquidityMoveCursorWire.toJson
    { scope := liquidityMoveScopeTag texts c.list.scope
      kind := c.list.kind.map LiquidityMoveKind.asStr
      window := c.window.asStr
      asOf := texts.instant.print c.asOf
      order := orderTag c.order
      amountUsd := texts.decimal.print c.amountUsd
      at_ := texts.instant.print c.at_
      signature := c.signature
      eventIndex := c.eventIndex })
  | .pool c => blob.encode (PoolCursorWire.toJson
    { scope := scopeTag texts c.scope
      firstSeenAt := texts.instant.print c.firstSeenAt
      pool := texts.pubkey.print c.poolAddress })
  | .token c => blob.encode (TokenCursorWire.toJson
    { fetchedAt := texts.instant.print c.fetchedAt
      mint := texts.pubkey.print c.mint })
  | .tokenPrice c => blob.encode (TokenPriceCursorWire.toJson
    { mint := texts.pubkey.print c.mint
      from_ := texts.instant.print c.from_
      fetchedAt := texts.instant.print c.fetchedAt })
  | .swapEvent c => encodeEventCursor texts blob .swaps c
  | .liquidityChangeEvent c => encodeEventCursor texts blob .liquidityChanges c
  | .poolCreationEvent c => encodeEventCursor texts blob .poolCreations c
  | .positionChangeEvent c => encodeEventCursor texts blob .positionChanges c
  | .positionFeeClaimEvent c => encodeEventCursor texts blob .positionFeeClaims c
  | .protocolFeeClaimEvent c => encodeEventCursor texts blob .protocolFeeClaims c
  | .rewardClaimEvent c => encodeEventCursor texts blob .rewardClaims c
  | .rewardChangeEvent c => encodeEventCursor texts blob .rewardChanges c
  | .poolChangeEvent c => encodeEventCursor texts blob .poolChanges c
  | .rotationRun c => blob.encode (RotationRunCursorWire.toJson
    { scope := rotationRunScopeTag texts c.scope
      window := c.window.asStr
      asOf := texts.instant.print c.asOf
      order := rotationRunOrderTag c.order
      volumeUsd := texts.decimal.print c.volumeUsd
      startedAt := texts.instant.print c.startedAt
      pool := texts.pubkey.print c.poolAddress })
  | .announcement c => blob.encode (AnnouncementCursorWire.toJson
    { status := c.status.map AnnouncementStatus.asStr
      startsAt := texts.instant.print c.startsAt
      id := c.id })
  | .protocol p => blob.encode (ProtocolCursorWire.toJson { protocol := p.asStr })

def decodeB64Json {W : Type} (fromJson : JsonObject → Option W) (raw : String) : Except ApiError W :=
  match blob.decode raw with
  | .error .notBase64 => .error (.badRequest "invalid cursor: not valid base64")
  | .error .notJson => .error (.badRequest "invalid cursor: malformed payload")
  | .ok o =>
    match fromJson o with
    | some w => .ok w
    | none => .error (.badRequest "invalid cursor: malformed payload")

/-- A field's text read back, or refused with what it is. -/
def parseField {α : Type} (codec : TextCodec α) (what raw : String) : Except ApiError α :=
  (codec.parse raw).mapError (fun _ => .badRequest ("invalid cursor: malformed " ++ what))

def parseRfc3339 (raw : String) : Except ApiError Instant := parseField texts.instant "timestamp" raw

def decodeSignalCursor (raw : String) : Except ApiError SignalCursor := do
  let wire ← decodeB64Json blob SignalCursorWire.fromJson raw
  pure ⟨← parseRfc3339 texts wire.triggeredAt, wire.id⟩

def decodeTokenActivityCursor (raw : String) : Except ApiError TokenActivityCursor := do
  let wire ← decodeB64Json blob TokenActivityCursorWire.fromJson raw
  pure ⟨← parseRfc3339 texts wire.lastHour, ← parseField texts.decimal "volume" wire.volumeUsd,
    ← parseField texts.pubkey "mint" wire.mint⟩

def anotherList : ApiError := .badRequest "invalid cursor: taken in another list"

def decodeLiquidityMoveCursor (raw : String) (list : LiquidityMoveList) (order : LiquidityMoveOrder) :
    Except ApiError LiquidityMoveCursor := do
  let wire ← decodeB64Json blob LiquidityMoveCursorWire.fromJson raw
  if wire.scope ≠ liquidityMoveScopeTag texts list.scope ∨
      wire.kind ≠ list.kind.map LiquidityMoveKind.asStr then
    throw anotherList
  if wire.order ≠ orderTag order then
    throw (.badRequest "invalid cursor: taken in another order")
  let window ← match ([Window.hour] ++ Window.all).find? (fun w => w.asStr = wire.window) with
    | some w => pure w
    | none => throw (.badRequest "invalid cursor: malformed window")
  pure ⟨list, window, ← parseRfc3339 texts wire.asOf, order,
    ← parseField texts.decimal "amount" wire.amountUsd, ← parseRfc3339 texts wire.at_, wire.signature,
    wire.eventIndex⟩

def decodePoolCursor (raw : String) (scope : PoolScope) : Except ApiError PoolCursor := do
  let wire ← decodeB64Json blob PoolCursorWire.fromJson raw
  if wire.scope ≠ scopeTag texts scope then
    throw anotherList
  pure ⟨scope, ← parseRfc3339 texts wire.firstSeenAt, ← parseField texts.pubkey "pool" wire.pool⟩

def decodeTokenCursor (raw : String) : Except ApiError TokenCursor := do
  let wire ← decodeB64Json blob TokenCursorWire.fromJson raw
  pure ⟨← parseRfc3339 texts wire.fetchedAt, ← parseField texts.pubkey "mint" wire.mint⟩

def decodeRotationRunCursor (raw : String) (scope : RotationRunScope) (window : Window)
    (order : RotationRunOrder) : Except ApiError RotationRunCursor := do
  let wire ← decodeB64Json blob RotationRunCursorWire.fromJson raw
  if wire.scope ≠ rotationRunScopeTag texts scope ∨ wire.window ≠ window.asStr ∨
      wire.order ≠ rotationRunOrderTag order then
    throw anotherList
  pure ⟨scope, window, ← parseRfc3339 texts wire.asOf, order,
    ← parseField texts.decimal "volume" wire.volumeUsd, ← parseRfc3339 texts wire.startedAt,
    ← parseField texts.pubkey "pool" wire.pool⟩

def decodeProtocolCursor (raw : String) : Except ApiError Protocol := do
  let wire ← decodeB64Json blob ProtocolCursorWire.fromJson raw
  match [Protocol.meteoraDammV2, .meteoraDlmm].find? (fun p => p.asStr = wire.protocol) with
  | some p => pure p
  | none => throw (.badRequest "invalid cursor: unknown protocol")

def decodeAnnouncementCursor (raw : String) (status : Option AnnouncementStatus) :
    Except ApiError AnnouncementCursor := do
  let wire ← decodeB64Json blob AnnouncementCursorWire.fromJson raw
  if wire.status ≠ status.map AnnouncementStatus.asStr then
    throw (.badRequest "invalid cursor: taken under another status")
  pure ⟨status, ← parseRfc3339 texts wire.startsAt, wire.id⟩

def decodeTokenPriceCursor (raw : String) (mint : Pubkey) : Except ApiError TokenPriceCursor := do
  let wire ← decodeB64Json blob TokenPriceCursorWire.fromJson raw
  if wire.mint ≠ texts.pubkey.print mint then
    throw anotherList
  pure ⟨mint, ← parseRfc3339 texts wire.from_, ← parseRfc3339 texts wire.fetchedAt⟩

def decodeEventCursor (raw : String) (collection : EventCollection) (scope : EventScope) :
    Except ApiError EventCursor := do
  let wire ← decodeB64Json blob EventCursorWire.fromJson raw
  if wire.collection ≠ collection.tag ∨ wire.scope ≠ eventScopeTag texts scope then
    throw anotherList
  pure ⟨scope, ← parseRfc3339 texts wire.from_, ← parseRfc3339 texts wire.at_,
    ← parseField texts.signature "signature" wire.signature, wire.eventIndex⟩

end Codec

end YogSothoth.Api
