import YogSothoth.Api.CursorBlob
import YogSothoth.Api.CursorLists

namespace YogSothoth.Api

def CursorList.shape : CursorList → Shape
  | .signal => .signal
  | .tokenActivity => .tokenActivity
  | .liquidityMove _ _ => .liquidityMove
  | .pool _ => .pool
  | .token => .token
  | .tokenPrice _ => .tokenPrice
  | .event _ _ => .event
  | .rotationRun _ _ _ => .rotationRun
  | .announcement _ => .announcement
  | .protocol => .protocol

/-- The names a format is written with. -/
def Shape.written : Shape → List (List String)
  | .liquidityMove =>
    [["scope", "window", "as_of", "order", "amount_usd", "at", "signature", "event_index"],
      ["scope", "kind", "window", "as_of", "order", "amount_usd", "at", "signature", "event_index"]]
  | .announcement => [["status", "starts_at", "id"]]
  | s => [s.required]

/-- No format accepts the names another is written with. -/
theorem Shape.refuses {s t : Shape} (h : s ≠ t) : ∀ keys ∈ t.written, s.accepts keys = false := by
  revert h
  cases s <;> cases t <;> decide

section Tags

variable {texts : Texts}

theorem protocol_ne_pool (x y : String) : "protocol:" ++ x ≠ "pool:" ++ y := by
  intro h
  have hlist := congrArg String.toList h
  simp at hlist

theorem protocol_ne_token (x y : String) : "protocol:" ++ x ≠ "token:" ++ y := by
  intro h
  have hlist := congrArg String.toList h
  simp at hlist

theorem all_ne_protocol (x : String) : "all" ≠ "protocol:" ++ x := by
  intro h
  have hlist := congrArg String.toList h
  simp at hlist

theorem all_ne_pool (x : String) : "all" ≠ "pool:" ++ x := by
  intro h
  have hlist := congrArg String.toList h
  simp at hlist

theorem all_ne_token (x : String) : "all" ≠ "token:" ++ x := by
  intro h
  have hlist := congrArg String.toList h
  simp at hlist

theorem protocol_tag_injective {p q : Protocol} (h : "protocol:" ++ p.asStr = "protocol:" ++ q.asStr) :
    p = q :=
  Protocol.asStr_injective (by simpa using h)

theorem eventScopeTag_injective {a b : EventScope} (h : eventScopeTag texts a = eventScopeTag texts b) :
    a = b := by
  cases a with
  | all =>
    cases b with
    | all => rfl
    | protocol q => exact absurd h (all_ne_protocol _)
    | pool q => exact absurd h (all_ne_pool _)
  | protocol p =>
    cases b with
    | all => exact absurd h.symm (all_ne_protocol _)
    | protocol q => rw [protocol_tag_injective h]
    | pool q => exact absurd h (protocol_ne_pool _ _)
  | pool p =>
    cases b with
    | all => exact absurd h.symm (all_ne_pool _)
    | protocol q => exact absurd h.symm (protocol_ne_pool _ _)
    | pool q =>
      have hp : p = q := texts.pubkey.print_injective (by simpa [eventScopeTag] using h)
      rw [hp]

theorem scopeTag_injective {a b : PoolScope} (h : scopeTag texts a = scopeTag texts b) : a = b := by
  cases a with
  | all =>
    cases b with
    | all => rfl
    | protocol q => exact absurd h (all_ne_protocol _)
    | token q => exact absurd h (all_ne_token _)
  | protocol p =>
    cases b with
    | all => exact absurd h.symm (all_ne_protocol _)
    | protocol q => rw [protocol_tag_injective h]
    | token q => exact absurd h (protocol_ne_token _ _)
  | token p =>
    cases b with
    | all => exact absurd h.symm (all_ne_token _)
    | protocol q => exact absurd h.symm (protocol_ne_token _ _)
    | token q =>
      have hp : p = q := texts.pubkey.print_injective (by simpa [scopeTag] using h)
      rw [hp]

theorem liquidityMoveScopeTag_injective {a b : LiquidityMoveScope}
    (h : liquidityMoveScopeTag texts a = liquidityMoveScopeTag texts b) : a = b := by
  cases a with
  | protocol p =>
    cases b with
    | protocol q => rw [protocol_tag_injective h]
    | pool q => exact absurd h (protocol_ne_pool _ _)
  | pool p =>
    cases b with
    | protocol q => exact absurd h.symm (protocol_ne_pool _ _)
    | pool q =>
      have hp : p = q := texts.pubkey.print_injective (by simpa [liquidityMoveScopeTag] using h)
      rw [hp]

theorem rotationRunScopeTag_injective {a b : RotationRunScope}
    (h : rotationRunScopeTag texts a = rotationRunScopeTag texts b) : a = b := by
  cases a with
  | protocol p =>
    cases b with
    | protocol q => rw [protocol_tag_injective h]
    | pool q => exact absurd h (protocol_ne_pool _ _)
  | pool p =>
    cases b with
    | protocol q => exact absurd h.symm (protocol_ne_pool _ _)
    | pool q =>
      have hp : p = q := texts.pubkey.print_injective (by simpa [rotationRunScopeTag] using h)
      rw [hp]

theorem EventCollection.tag_injective {a b : EventCollection} (h : a.tag = b.tag) : a = b := by
  revert h
  cases a <;> cases b <;> decide

theorem window_asStr_injective {a b : Window} (h : a.asStr = b.asStr) : a = b := by
  revert h
  cases a <;> cases b <;> decide

theorem orderTag_injective {a b : LiquidityMoveOrder} (h : orderTag a = orderTag b) : a = b := by
  revert h
  cases a <;> cases b <;> decide

theorem rotationRunOrderTag_injective {a b : RotationRunOrder}
    (h : rotationRunOrderTag a = rotationRunOrderTag b) : a = b := by
  revert h
  cases a <;> cases b <;> decide

theorem kind_asStr_injective {a b : Option LiquidityMoveKind}
    (h : a.map LiquidityMoveKind.asStr = b.map LiquidityMoveKind.asStr) : a = b := by
  revert h
  rcases a with _ | a <;> rcases b with _ | b
  · simp
  · simp
  · simp
  · cases a <;> cases b <;> decide

theorem status_asStr_injective {a b : Option AnnouncementStatus}
    (h : a.map AnnouncementStatus.asStr = b.map AnnouncementStatus.asStr) : a = b := by
  revert h
  rcases a with _ | a <;> rcases b with _ | b
  · simp
  · simp
  · simp
  · cases a <;> cases b <;> decide

end Tags

section Decode

variable {texts : Texts} {blob : Blob}

@[simp] theorem parseField_print {α : Type} (codec : TextCodec α) (what : String) (a : α) :
    parseField codec what (codec.print a) = .ok a := by
  rw [parseField, codec.parse_print]
  rfl

@[simp] theorem parseRfc3339_print (t : Instant) :
    parseRfc3339 texts (texts.instant.print t) = .ok t :=
  parseField_print texts.instant "timestamp" t

theorem decodeB64Json_encode {W : Type} {fromJson : JsonObject → Option W} {o : JsonObject} {w : W}
    (h : fromJson o = some w) : decodeB64Json blob fromJson (blob.encode o) = .ok w := by
  simp only [decodeB64Json, blob.decode_encode, h]

theorem decodeB64Json_refused {W : Type} {s : Shape} {read : JsonObject → Option W} {o : JsonObject}
    (h : s.accepts o.keys = false) :
    decodeB64Json blob (ofShape s read) (blob.encode o) =
      .error (.badRequest "invalid cursor: malformed payload") := by
  simp [decodeB64Json, blob.decode_encode, ofShape, h]

/-- A cursor of another shape is refused before any of its fields is read. -/
theorem decodeIn_refused {l : CursorList} {o : JsonObject} (h : l.shape.accepts o.keys = false) :
    decodeIn texts blob (blob.encode o) l =
      .error (.badRequest "invalid cursor: malformed payload") := by
  cases l with
  | signal =>
    simp only [CursorList.shape] at h
    rw [decodeIn, decodeSignalCursor, SignalCursorWire.fromJson, decodeB64Json_refused h]
    rfl
  | tokenActivity =>
    simp only [CursorList.shape] at h
    rw [decodeIn, decodeTokenActivityCursor, TokenActivityCursorWire.fromJson, decodeB64Json_refused h]
    rfl
  | liquidityMove list order =>
    simp only [CursorList.shape] at h
    rw [decodeIn, decodeLiquidityMoveCursor, LiquidityMoveCursorWire.fromJson, decodeB64Json_refused h]
    rfl
  | pool scope =>
    simp only [CursorList.shape] at h
    rw [decodeIn, decodePoolCursor, PoolCursorWire.fromJson, decodeB64Json_refused h]
    rfl
  | token =>
    simp only [CursorList.shape] at h
    rw [decodeIn, decodeTokenCursor, TokenCursorWire.fromJson, decodeB64Json_refused h]
    rfl
  | tokenPrice mint =>
    simp only [CursorList.shape] at h
    rw [decodeIn, decodeTokenPriceCursor, TokenPriceCursorWire.fromJson, decodeB64Json_refused h]
    rfl
  | event collection scope =>
    simp only [CursorList.shape] at h
    rw [decodeIn, decodeEventCursor, EventCursorWire.fromJson, decodeB64Json_refused h]
    rfl
  | rotationRun scope window order =>
    simp only [CursorList.shape] at h
    rw [decodeIn, decodeRotationRunCursor, RotationRunCursorWire.fromJson, decodeB64Json_refused h]
    rfl
  | announcement status =>
    simp only [CursorList.shape] at h
    rw [decodeIn, decodeAnnouncementCursor, AnnouncementCursorWire.fromJson, decodeB64Json_refused h]
    rfl
  | protocol =>
    simp only [CursorList.shape] at h
    rw [decodeIn, decodeProtocolCursor, ProtocolCursorWire.fromJson, decodeB64Json_refused h]
    rfl

/-- What is written of a cursor has the names of its shape. -/
theorem encodeCursor_written (texts : Texts) (blob : Blob) (c : Cursor) :
    ∃ o, encodeCursor texts blob c = blob.encode o ∧ o.keys ∈ (listOf c).shape.written := by
  cases c with
  | liquidityMove c =>
    refine ⟨_, rfl, ?_⟩
    cases c.list.kind <;>
      simp [LiquidityMoveCursorWire.toJson, JsonObject.keys, listOf, CursorList.shape, Shape.written]
  | _ => exact ⟨_, rfl, List.mem_singleton.mpr rfl⟩

theorem decodePoolCursor_encode (c : PoolCursor) (scope : PoolScope) :
    decodePoolCursor texts blob (encodeCursor texts blob (.pool c)) scope =
      if scope = c.scope then .ok c else .error anotherList := by
  rw [decodePoolCursor, encodeCursor, decodeB64Json_encode (PoolCursorWire.fromJson_toJson _)]
  by_cases h : scope = c.scope
  · simp [h, bind, Except.bind, pure, Except.pure]
  · have htag : scopeTag texts c.scope ≠ scopeTag texts scope :=
      fun he => h (scopeTag_injective he).symm
    simp [h, htag, bind, Except.bind, throw, throwThe, MonadExceptOf.throw]

theorem decodeSignalCursor_encode (c : SignalCursor) :
    decodeSignalCursor texts blob (encodeCursor texts blob (.signal c)) = .ok c := by
  rw [decodeSignalCursor, encodeCursor, decodeB64Json_encode (SignalCursorWire.fromJson_toJson _)]
  simp [bind, Except.bind, pure, Except.pure]

theorem decodeTokenActivityCursor_encode (c : TokenActivityCursor) :
    decodeTokenActivityCursor texts blob (encodeCursor texts blob (.tokenActivity c)) = .ok c := by
  rw [decodeTokenActivityCursor, encodeCursor,
    decodeB64Json_encode (TokenActivityCursorWire.fromJson_toJson _)]
  simp [bind, Except.bind, pure, Except.pure]

theorem decodeTokenCursor_encode (c : TokenCursor) :
    decodeTokenCursor texts blob (encodeCursor texts blob (.token c)) = .ok c := by
  rw [decodeTokenCursor, encodeCursor, decodeB64Json_encode (TokenCursorWire.fromJson_toJson _)]
  simp [bind, Except.bind, pure, Except.pure]

theorem decodeProtocolCursor_encode (p : Protocol) :
    decodeProtocolCursor blob (encodeCursor texts blob (.protocol p)) = .ok p := by
  rw [decodeProtocolCursor, encodeCursor, decodeB64Json_encode (ProtocolCursorWire.fromJson_toJson _)]
  cases p <;> rfl

theorem decodeTokenPriceCursor_encode (c : TokenPriceCursor) (mint : Pubkey) :
    decodeTokenPriceCursor texts blob (encodeCursor texts blob (.tokenPrice c)) mint =
      if mint = c.mint then .ok c else .error anotherList := by
  rw [decodeTokenPriceCursor, encodeCursor,
    decodeB64Json_encode (TokenPriceCursorWire.fromJson_toJson _)]
  by_cases h : mint = c.mint
  · simp [h, bind, Except.bind, pure, Except.pure]
  · have htag : texts.pubkey.print c.mint ≠ texts.pubkey.print mint :=
      fun he => h (texts.pubkey.print_injective he).symm
    simp [h, htag, bind, Except.bind, throw, throwThe, MonadExceptOf.throw]

theorem decodeAnnouncementCursor_encode (c : AnnouncementCursor) (status : Option AnnouncementStatus) :
    decodeAnnouncementCursor texts blob (encodeCursor texts blob (.announcement c)) status =
      if status = c.status then .ok c
      else .error (.badRequest "invalid cursor: taken under another status") := by
  rw [decodeAnnouncementCursor, encodeCursor,
    decodeB64Json_encode (AnnouncementCursorWire.fromJson_toJson _)]
  by_cases h : status = c.status
  · simp [h, bind, Except.bind, pure, Except.pure]
  · have htag : c.status.map AnnouncementStatus.asStr ≠ status.map AnnouncementStatus.asStr :=
      fun he => h (status_asStr_injective he).symm
    simp [h, htag, bind, Except.bind, throw, throwThe, MonadExceptOf.throw]

theorem decodeRotationRunCursor_encode (c : RotationRunCursor) (scope : RotationRunScope)
    (window : Window) (order : RotationRunOrder) :
    decodeRotationRunCursor texts blob (encodeCursor texts blob (.rotationRun c)) scope window order =
      if scope = c.scope ∧ window = c.window ∧ order = c.order then .ok c else .error anotherList := by
  rw [decodeRotationRunCursor, encodeCursor,
    decodeB64Json_encode (RotationRunCursorWire.fromJson_toJson _)]
  by_cases h : scope = c.scope ∧ window = c.window ∧ order = c.order
  · obtain ⟨rfl, rfl, rfl⟩ := h
    simp [bind, Except.bind, pure, Except.pure]
  · have htag : rotationRunScopeTag texts c.scope ≠ rotationRunScopeTag texts scope ∨
        c.window.asStr ≠ window.asStr ∨ rotationRunOrderTag c.order ≠ rotationRunOrderTag order := by
      by_contra hall
      simp only [not_or, not_not] at hall
      exact h ⟨(rotationRunScopeTag_injective hall.1).symm, (window_asStr_injective hall.2.1).symm,
        (rotationRunOrderTag_injective hall.2.2).symm⟩
    simp [h, htag, bind, Except.bind, throw, throwThe, MonadExceptOf.throw]

theorem decodeEventCursor_encode (collection' collection : EventCollection) (c : EventCursor)
    (scope : EventScope) :
    decodeEventCursor texts blob (encodeEventCursor texts blob collection c) collection' scope =
      if collection' = collection ∧ scope = c.scope then .ok c else .error anotherList := by
  rw [decodeEventCursor, encodeEventCursor, decodeB64Json_encode (EventCursorWire.fromJson_toJson _)]
  by_cases h : collection' = collection ∧ scope = c.scope
  · obtain ⟨rfl, rfl⟩ := h
    simp [bind, Except.bind, pure, Except.pure]
  · have htag : collection.tag ≠ collection'.tag ∨
        eventScopeTag texts c.scope ≠ eventScopeTag texts scope := by
      by_contra hall
      simp only [not_or, not_not] at hall
      exact h ⟨(EventCollection.tag_injective hall.1).symm, (eventScopeTag_injective hall.2).symm⟩
    simp [h, htag, bind, Except.bind, throw, throwThe, MonadExceptOf.throw]

theorem decodeLiquidityMoveCursor_encode (c : LiquidityMoveCursor) (list : LiquidityMoveList)
    (order : LiquidityMoveOrder) :
    decodeLiquidityMoveCursor texts blob (encodeCursor texts blob (.liquidityMove c)) list order =
      if list = c.list then
        if order = c.order then .ok c
        else .error (.badRequest "invalid cursor: taken in another order")
      else .error anotherList := by
  rw [decodeLiquidityMoveCursor, encodeCursor,
    decodeB64Json_encode (LiquidityMoveCursorWire.fromJson_toJson _)]
  by_cases h : list = c.list
  · subst h
    by_cases ho : order = c.order
    · subst ho
      have hwindow : ([Window.hour] ++ Window.all).find? (fun w => w.asStr = c.window.asStr) =
          some c.window := by
        cases c.window <;> decide
      simp only [bind, Except.bind, pure, Except.pure, ne_eq, not_true_eq_false, or_self,
        ↓reduceIte, hwindow, parseRfc3339_print, parseField_print]
    · have htag : orderTag c.order ≠ orderTag order := fun he => ho (orderTag_injective he).symm
      simp [ho, htag, bind, Except.bind, throw, throwThe, MonadExceptOf.throw]
  · have htag : liquidityMoveScopeTag texts c.list.scope ≠ liquidityMoveScopeTag texts list.scope ∨
        c.list.kind.map LiquidityMoveKind.asStr ≠ list.kind.map LiquidityMoveKind.asStr := by
      by_contra hall
      simp only [not_or, not_not] at hall
      have hscope := liquidityMoveScopeTag_injective hall.1
      have hkind := kind_asStr_injective hall.2
      exact h (by cases list; cases hc : c.list; simp_all)
    simp [h, htag, bind, Except.bind, throw, throwThe, MonadExceptOf.throw]

theorem map_ite {A : Type} {P : Prop} [Decidable P] (f : A → Cursor) (a : A) (e : ApiError) :
    (if P then .ok a else .error e : Except ApiError A).map f =
      if P then .ok (f a) else .error e := by
  split_ifs <;> rfl

/-- What a decoder of the cursor's shape answers: the cursor, or a bad request. -/
def AnswersIn (texts : Texts) (blob : Blob) (c : Cursor) (l : CursorList) : Prop :=
  (l = listOf c → decodeIn texts blob (encodeCursor texts blob c) l = .ok c) ∧
  (l ≠ listOf c → ∃ message,
    decodeIn texts blob (encodeCursor texts blob c) l = .error (.badRequest message))

theorem answersIn_of_ite {c : Cursor} {l : CursorList} {P : Prop} [Decidable P] {message : String}
    (h : decodeIn texts blob (encodeCursor texts blob c) l =
      if P then .ok c else .error (.badRequest message)) (hp : P ↔ l = listOf c) :
    AnswersIn texts blob c l := by
  refine ⟨fun hl => ?_, fun hl => ⟨message, ?_⟩⟩
  · rw [h, if_pos (hp.mpr hl)]
  · rw [h, if_neg (fun hP => hl (hp.mp hP))]

theorem answersIn_of_ok {c : Cursor} {l : CursorList} (hl : l = listOf c)
    (h : decodeIn texts blob (encodeCursor texts blob c) l = .ok c) : AnswersIn texts blob c l :=
  ⟨fun _ => h, fun hne => absurd hl hne⟩

theorem answersIn_event (collection : EventCollection) (e : EventCursor) (l : CursorList)
    (hshape : l.shape = .event) : AnswersIn texts blob (collection.cursor e) l := by
  have hencode : encodeCursor texts blob (collection.cursor e) =
      encodeEventCursor texts blob collection e := by
    cases collection <;> rfl
  have hlist : listOf (collection.cursor e) = .event collection e.scope := by
    cases collection <;> rfl
  cases l with
  | event collection' scope =>
    have hdecode : decodeIn texts blob (encodeCursor texts blob (collection.cursor e))
        (.event collection' scope) = if collection' = collection ∧ scope = e.scope
          then .ok (collection.cursor e) else .error anotherList := by
      rw [hencode, decodeIn, decodeEventCursor_encode, map_ite]
      split_ifs with h
      · rw [h.1]
      · rfl
    exact answersIn_of_ite hdecode (by rw [hlist, CursorList.event.injEq])
  | _ => cases hshape

theorem answersIn_same_shape (c : Cursor) (l : CursorList) (hshape : l.shape = (listOf c).shape) :
    AnswersIn texts blob c l := by
  cases c with
  | signal c =>
    cases l with
    | signal => exact answersIn_of_ok rfl (by rw [decodeIn, decodeSignalCursor_encode]; rfl)
    | _ => cases hshape
  | tokenActivity c =>
    cases l with
    | tokenActivity => exact answersIn_of_ok rfl (by rw [decodeIn, decodeTokenActivityCursor_encode]; rfl)
    | _ => cases hshape
  | token c =>
    cases l with
    | token => exact answersIn_of_ok rfl (by rw [decodeIn, decodeTokenCursor_encode]; rfl)
    | _ => cases hshape
  | protocol p =>
    cases l with
    | protocol => exact answersIn_of_ok rfl (by rw [decodeIn, decodeProtocolCursor_encode]; rfl)
    | _ => cases hshape
  | liquidityMove c =>
    cases l with
    | liquidityMove list order =>
      refine ⟨fun hl => ?_, fun hl => ?_⟩
      · obtain ⟨rfl, rfl⟩ := CursorList.liquidityMove.inj hl
        rw [decodeIn, decodeLiquidityMoveCursor_encode, if_pos rfl, if_pos rfl]
        rfl
      · rw [decodeIn, decodeLiquidityMoveCursor_encode]
        by_cases hlist : list = c.list
        · have horder : order ≠ c.order := fun he => hl (by rw [listOf, hlist, he])
          rw [if_pos hlist, if_neg horder]
          exact ⟨_, rfl⟩
        · rw [if_neg hlist]
          exact ⟨_, rfl⟩
    | _ => cases hshape
  | pool c =>
    cases l with
    | pool scope =>
      exact answersIn_of_ite (by rw [decodeIn, decodePoolCursor_encode, map_ite]; rfl)
        (by rw [listOf, CursorList.pool.injEq])
    | _ => cases hshape
  | tokenPrice c =>
    cases l with
    | tokenPrice mint =>
      exact answersIn_of_ite (by rw [decodeIn, decodeTokenPriceCursor_encode, map_ite]; rfl)
        (by rw [listOf, CursorList.tokenPrice.injEq])
    | _ => cases hshape
  | rotationRun c =>
    cases l with
    | rotationRun scope window order =>
      exact answersIn_of_ite (by rw [decodeIn, decodeRotationRunCursor_encode, map_ite]; rfl)
        (by rw [listOf, CursorList.rotationRun.injEq])
    | _ => cases hshape
  | announcement c =>
    cases l with
    | announcement status =>
      exact answersIn_of_ite (by rw [decodeIn, decodeAnnouncementCursor_encode, map_ite])
        (by rw [listOf, CursorList.announcement.injEq])
    | _ => cases hshape
  | swapEvent c => exact answersIn_event .swaps c l hshape
  | liquidityChangeEvent c => exact answersIn_event .liquidityChanges c l hshape
  | poolCreationEvent c => exact answersIn_event .poolCreations c l hshape
  | positionChangeEvent c => exact answersIn_event .positionChanges c l hshape
  | positionFeeClaimEvent c => exact answersIn_event .positionFeeClaims c l hshape
  | protocolFeeClaimEvent c => exact answersIn_event .protocolFeeClaims c l hshape
  | rewardClaimEvent c => exact answersIn_event .rewardClaims c l hshape
  | rewardChangeEvent c => exact answersIn_event .rewardChanges c l hshape
  | poolChangeEvent c => exact answersIn_event .poolChanges c l hshape

end Decode

/-- A cursor decodes to itself in the list it was taken in, and no other list takes it. -/
theorem cursor_read_by_its_list (texts : Texts) (blob : Blob) (c : Cursor) (l : CursorList) :
    (l = listOf c → decodeIn texts blob (encodeCursor texts blob c) l = .ok c) ∧
    (l ≠ listOf c → ∃ message,
      decodeIn texts blob (encodeCursor texts blob c) l = .error (.badRequest message)) := by
  by_cases hshape : l.shape = (listOf c).shape
  · exact answersIn_same_shape c l hshape
  · obtain ⟨o, hencode, hkeys⟩ := encodeCursor_written texts blob c
    have hrefused : decodeIn texts blob (blob.encode o) l =
        .error (.badRequest "invalid cursor: malformed payload") :=
      decodeIn_refused (Shape.refuses hshape _ hkeys)
    rw [hencode]
    exact ⟨fun hl => absurd (by rw [hl]) hshape, fun _ => ⟨_, hrefused⟩⟩

/-- A swap of the epoch, in the list of every protocol. -/
def swapAtEpoch : Cursor := .swapEvent ⟨.all, 0, 0, zeroSignature, 3⟩

def readSwap (l : CursorList) : Except ApiError Cursor :=
  decodeIn Texts.plain Blob.urlSafe (encodeCursor Texts.plain Blob.urlSafe swapAtEpoch) l

/-- It is read in its list, and refused by that of another collection, another scope or another
format. -/
theorem cursor_read_by_its_list_swap :
    readSwap (.event .swaps .all) = .ok swapAtEpoch ∧
      (∃ message, readSwap (.event .poolChanges .all) = .error (.badRequest message)) ∧
      (∃ message, readSwap (.event .swaps (.pool zeroPubkey)) = .error (.badRequest message)) ∧
      ∃ message, readSwap (.announcement none) = .error (.badRequest message) := by
  have hread := cursor_read_by_its_list Texts.plain Blob.urlSafe swapAtEpoch
  exact ⟨(hread _).1 rfl, (hread _).2 (by decide), (hread _).2 (by decide), (hread _).2 (by decide)⟩

end YogSothoth.Api
