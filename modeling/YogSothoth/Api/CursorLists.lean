import YogSothoth.Api.CursorCodec

namespace YogSothoth.Api

/-- A paginated list, with the parameters its decoder checks. -/
inductive CursorList where
  | signal
  | tokenActivity
  | liquidityMove (list : LiquidityMoveList) (order : LiquidityMoveOrder)
  | pool (scope : PoolScope)
  | token
  | tokenPrice (mint : Pubkey)
  | event (collection : EventCollection) (scope : EventScope)
  | rotationRun (scope : RotationRunScope) (window : Window) (order : RotationRunOrder)
  | announcement (status : Option AnnouncementStatus)
  | protocol
  deriving DecidableEq

/-- The list a cursor was taken in. -/
def listOf : Cursor → CursorList
  | .signal _ => .signal
  | .tokenActivity _ => .tokenActivity
  | .liquidityMove c => .liquidityMove c.list c.order
  | .pool c => .pool c.scope
  | .token _ => .token
  | .tokenPrice c => .tokenPrice c.mint
  | .swapEvent c => .event .swaps c.scope
  | .liquidityChangeEvent c => .event .liquidityChanges c.scope
  | .poolCreationEvent c => .event .poolCreations c.scope
  | .positionChangeEvent c => .event .positionChanges c.scope
  | .positionFeeClaimEvent c => .event .positionFeeClaims c.scope
  | .protocolFeeClaimEvent c => .event .protocolFeeClaims c.scope
  | .rewardClaimEvent c => .event .rewardClaims c.scope
  | .rewardChangeEvent c => .event .rewardChanges c.scope
  | .poolChangeEvent c => .event .poolChanges c.scope
  | .rotationRun c => .rotationRun c.scope c.window c.order
  | .announcement c => .announcement c.status
  | .protocol _ => .protocol

def EventCollection.cursor : EventCollection → EventCursor → Cursor
  | .swaps => .swapEvent
  | .liquidityChanges => .liquidityChangeEvent
  | .poolCreations => .poolCreationEvent
  | .positionChanges => .positionChangeEvent
  | .positionFeeClaims => .positionFeeClaimEvent
  | .protocolFeeClaims => .protocolFeeClaimEvent
  | .rewardClaims => .rewardClaimEvent
  | .rewardChanges => .rewardChangeEvent
  | .poolChanges => .poolChangeEvent

/-- The decoder of a list, under its parameters. -/
def decodeIn (texts : Texts) (blob : Blob) (raw : String) : CursorList → Except ApiError Cursor
  | .signal => (decodeSignalCursor texts blob raw).map .signal
  | .tokenActivity => (decodeTokenActivityCursor texts blob raw).map .tokenActivity
  | .liquidityMove list order =>
    (decodeLiquidityMoveCursor texts blob raw list order).map .liquidityMove
  | .pool scope => (decodePoolCursor texts blob raw scope).map .pool
  | .token => (decodeTokenCursor texts blob raw).map .token
  | .tokenPrice mint => (decodeTokenPriceCursor texts blob raw mint).map .tokenPrice
  | .event collection scope =>
    (decodeEventCursor texts blob raw collection scope).map collection.cursor
  | .rotationRun scope window order =>
    (decodeRotationRunCursor texts blob raw scope window order).map .rotationRun
  | .announcement status => (decodeAnnouncementCursor texts blob raw status).map .announcement
  | .protocol => (decodeProtocolCursor blob raw).map .protocol

section Wire

theorem ofShape_of_accepts {W : Type} {s : Shape} {read : JsonObject → Option W} {o : JsonObject}
    (h : s.accepts o.keys = true) : ofShape s read o = read o := by
  rw [ofShape, if_pos h]

theorem SignalCursorWire.fromJson_toJson (w : SignalCursorWire) :
    SignalCursorWire.fromJson w.toJson = some w := by
  have haccepts : Shape.signal.accepts w.toJson.keys = true := by
    change Shape.signal.accepts ["triggered_at", "id"] = true
    decide
  rw [fromJson, ofShape_of_accepts haccepts]
  simp [toJson, JsonObject.string, JsonObject.i64, List.lookup_cons]

theorem TokenActivityCursorWire.fromJson_toJson (w : TokenActivityCursorWire) :
    TokenActivityCursorWire.fromJson w.toJson = some w := by
  have haccepts : Shape.tokenActivity.accepts w.toJson.keys = true := by
    change Shape.tokenActivity.accepts ["last_hour", "volume_usd", "mint"] = true
    decide
  rw [fromJson, ofShape_of_accepts haccepts]
  simp [toJson, JsonObject.string, List.lookup_cons]

theorem LiquidityMoveCursorWire.fromJson_toJson (w : LiquidityMoveCursorWire) :
    LiquidityMoveCursorWire.fromJson w.toJson = some w := by
  obtain ⟨scope, kind, _⟩ := w
  cases kind with
  | none =>
    have haccepts : Shape.liquidityMove.accepts ["scope", "window", "as_of", "order", "amount_usd",
        "at", "signature", "event_index"] = true := by decide
    rw [fromJson, ofShape_of_accepts haccepts]
    simp [toJson, JsonObject.string, JsonObject.optString, JsonObject.i32, List.lookup_cons]
  | some k =>
    have haccepts : Shape.liquidityMove.accepts ["scope", "kind", "window", "as_of", "order",
        "amount_usd", "at", "signature", "event_index"] = true := by decide
    rw [fromJson, ofShape_of_accepts haccepts]
    simp [toJson, JsonObject.string, JsonObject.optString, JsonObject.i32, List.lookup_cons]

theorem ProtocolCursorWire.fromJson_toJson (w : ProtocolCursorWire) :
    ProtocolCursorWire.fromJson w.toJson = some w := by
  have haccepts : Shape.protocol.accepts w.toJson.keys = true := by
    change Shape.protocol.accepts ["protocol"] = true
    decide
  rw [fromJson, ofShape_of_accepts haccepts]
  simp [toJson, JsonObject.string]

theorem PoolCursorWire.fromJson_toJson (w : PoolCursorWire) :
    PoolCursorWire.fromJson w.toJson = some w := by
  have haccepts : Shape.pool.accepts w.toJson.keys = true := by
    change Shape.pool.accepts ["scope", "first_seen_at", "pool"] = true
    decide
  rw [fromJson, ofShape_of_accepts haccepts]
  simp [toJson, JsonObject.string, List.lookup_cons]

theorem TokenCursorWire.fromJson_toJson (w : TokenCursorWire) :
    TokenCursorWire.fromJson w.toJson = some w := by
  have haccepts : Shape.token.accepts w.toJson.keys = true := by
    change Shape.token.accepts ["fetched_at", "mint"] = true
    decide
  rw [fromJson, ofShape_of_accepts haccepts]
  simp [toJson, JsonObject.string, List.lookup_cons]

theorem TokenPriceCursorWire.fromJson_toJson (w : TokenPriceCursorWire) :
    TokenPriceCursorWire.fromJson w.toJson = some w := by
  have haccepts : Shape.tokenPrice.accepts w.toJson.keys = true := by
    change Shape.tokenPrice.accepts ["mint", "from", "fetched_at"] = true
    decide
  rw [fromJson, ofShape_of_accepts haccepts]
  simp [toJson, JsonObject.string, List.lookup_cons]

theorem RotationRunCursorWire.fromJson_toJson (w : RotationRunCursorWire) :
    RotationRunCursorWire.fromJson w.toJson = some w := by
  have haccepts : Shape.rotationRun.accepts w.toJson.keys = true := by
    change Shape.rotationRun.accepts ["scope", "window", "as_of", "order", "volume_usd",
      "started_at", "pool"] = true
    decide
  rw [fromJson, ofShape_of_accepts haccepts]
  simp [toJson, JsonObject.string, List.lookup_cons]

theorem AnnouncementCursorWire.fromJson_toJson (w : AnnouncementCursorWire) :
    AnnouncementCursorWire.fromJson w.toJson = some w := by
  have haccepts : Shape.announcement.accepts w.toJson.keys = true := by
    change Shape.announcement.accepts ["status", "starts_at", "id"] = true
    decide
  rw [fromJson, ofShape_of_accepts haccepts]
  obtain ⟨status, _⟩ := w
  cases status <;>
    simp [toJson, JsonObject.string, JsonObject.optString, JsonObject.i64, List.lookup_cons]

theorem EventCursorWire.fromJson_toJson (w : EventCursorWire) :
    EventCursorWire.fromJson w.toJson = some w := by
  have haccepts : Shape.event.accepts w.toJson.keys = true := by
    change Shape.event.accepts ["collection", "scope", "from", "at", "signature", "event_index"] = true
    decide
  rw [fromJson, ofShape_of_accepts haccepts]
  simp [toJson, JsonObject.string, JsonObject.u16, List.lookup_cons]

end Wire

end YogSothoth.Api
