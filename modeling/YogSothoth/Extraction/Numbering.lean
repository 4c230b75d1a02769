import YogSothoth.Extraction.Fates

namespace YogSothoth.Extraction

/-- The discriminators the dispatch tests before that of the deprecated split. -/
def KnownDiscriminators.beforeSplitPosition2 (known : KnownDiscriminators) : List (List UInt8) :=
  [known.swap2, known.liquidity, known.claimPosFee, known.claimReward, known.claimProtocolFee,
    known.initializeReward, known.fundReward, known.withdrawIneligibleReward,
    known.updateRewardDuration, known.updateRewardFunder, known.withdrawDeadLiquidityReward,
    known.splitPosition3]

theorem known_splitPosition2_unshared :
    known.splitPosition2Deprecated ∉ known.beforeSplitPosition2 := by
  decide +kernel

theorem recognize_arm_ignored_iff {α : Type} [Borsh.BorshDeserialize α] {eventName : String}
    {wrap : α → DammV2WireEvent} {body : List UInt8} {c : Prop} [Decidable c] {rest : Dispatch} :
    (if c then recognize eventName wrap body else rest) = .ignored ↔ ¬ c ∧ rest = .ignored := by
  by_cases hc : c
  · rw [if_pos hc, recognize]
    cases Borsh.tryFromSlice α body <;> simp [hc]
  · rw [if_neg hc]
    simp [hc]

theorem ignored_arm_iff {c : Prop} [Decidable c] {rest : Dispatch} :
    (if c then .ignored else rest) = Dispatch.ignored ↔ c ∨ rest = .ignored := by
  by_cases hc : c <;> simp [hc]

/-- The dispatch ignores the deprecated split and nothing else. -/
theorem dispatch_ignored_iff {known : KnownDiscriminators}
    (h : known.splitPosition2Deprecated ∉ known.beforeSplitPosition2) (disc body : List UInt8) :
    dispatch disc body known = .ignored ↔ disc = known.splitPosition2Deprecated := by
  simp only [KnownDiscriminators.beforeSplitPosition2, List.mem_cons, List.not_mem_nil,
    or_false, not_or] at h
  unfold dispatch
  simp only [recognize_arm_ignored_iff, ignored_arm_iff, reduceCtorEq, and_false, or_false]
  constructor
  · intro hdispatch
    simp only [hdispatch]
  · rintro rfl
    simp only [h, not_false_eq_true, and_true]

/-- What the extraction records nowhere: an ordinary instruction, and the deprecated split. -/
def deliberatelyDropped (raw : List UInt8) : Bool :=
  if EVENT_IX_TAG.isPrefixOf raw then
    decide (EVENT_IX_TAG_LEN + DISCRIMINATOR_LEN ≤ raw.length) &&
      (raw.drop EVENT_IX_TAG_LEN).take DISCRIMINATOR_LEN == known.splitPosition2Deprecated
  else decide (DISCRIMINATOR_LEN ≤ raw.length)

/-- The decoder's three outcomes, by the tag and the length. -/
theorem decodeAnchorEventCpi_cases (raw : List UInt8) :
    (decodeAnchorEventCpi raw = .error .notAnAnchorEvent ∧
      DISCRIMINATOR_LEN ≤ raw.length ∧ EVENT_IX_TAG.isPrefixOf raw = false) ∨
    (∃ body, decodeAnchorEventCpi raw =
        .ok ((raw.drop EVENT_IX_TAG_LEN).take DISCRIMINATOR_LEN, body) ∧
      EVENT_IX_TAG.isPrefixOf raw = true ∧
      EVENT_IX_TAG_LEN + DISCRIMINATOR_LEN ≤ raw.length) ∨
    (∃ min, decodeAnchorEventCpi raw = .error (.payloadTooShort min raw.length) ∧
      (raw.length < DISCRIMINATOR_LEN ∨
        EVENT_IX_TAG.isPrefixOf raw = true ∧
          raw.length < EVENT_IX_TAG_LEN + DISCRIMINATOR_LEN)) := by
  unfold decodeAnchorEventCpi
  split_ifs with hshort htag hlen
  · exact Or.inr (Or.inr ⟨_, rfl, Or.inl hshort⟩)
  · exact Or.inl ⟨rfl, Nat.not_lt.mp hshort, by simpa using htag⟩
  · exact Or.inr (Or.inr ⟨_, rfl, Or.inr ⟨by simpa using htag, hlen⟩⟩)
  · exact Or.inr (Or.inl ⟨_, rfl, by simpa using htag, Nat.not_lt.mp hlen⟩)

theorem deliberatelyDropped_short {raw : List UInt8}
    (h : raw.length < DISCRIMINATOR_LEN ∨ EVENT_IX_TAG.isPrefixOf raw = true ∧
      raw.length < EVENT_IX_TAG_LEN + DISCRIMINATOR_LEN) : deliberatelyDropped raw = false := by
  have hlen : raw.length < EVENT_IX_TAG_LEN + DISCRIMINATOR_LEN := by
    cases h with
    | inl h => omega
    | inr h => exact h.2
  unfold deliberatelyDropped
  by_cases htag : EVENT_IX_TAG.isPrefixOf raw = true
  · rw [if_pos htag, decide_eq_false (Nat.not_le.mpr hlen), Bool.false_and]
  · rw [if_neg htag]
    cases h with
    | inl h => exact decide_eq_false (Nat.not_le.mpr h)
    | inr h => exact absurd h.1 htag

theorem wireFate_overflow {raw : List UInt8} {i : Nat} (hi : 2 ^ 16 ≤ i) :
    wireFate (raw, i) = .failure (.eventIndexOverflow i) := by
  unfold wireFate u16TryFrom
  rw [if_neg (Nat.not_lt.mpr hi)]

/-- Which payloads with an index are dropped. -/
theorem wireFate_dropped_iff {i : Nat} (hi : i < 2 ^ 16) (raw : List UInt8) :
    wireFate (raw, i) = .dropped ↔ deliberatelyDropped raw = true := by
  have hindex : u16TryFrom i = some (UInt16.ofNat i) := if_pos hi
  unfold wireFate
  rw [hindex]
  obtain ⟨hdecode, hlen, htag⟩ | ⟨body, hdecode, htag, hlen⟩ | ⟨min, hdecode, hshort⟩ :=
    decodeAnchorEventCpi_cases raw
  · have hdropped : deliberatelyDropped raw = true := by
      unfold deliberatelyDropped
      rw [htag]
      exact decide_eq_true hlen
    simp only [hdecode, hdropped]
  · have hdropped : deliberatelyDropped raw = true ↔
        (raw.drop EVENT_IX_TAG_LEN).take DISCRIMINATOR_LEN = known.splitPosition2Deprecated := by
      unfold deliberatelyDropped
      rw [if_pos htag, decide_eq_true hlen, Bool.true_and, beq_iff_eq]
    rw [hdropped, ← dispatch_ignored_iff known_splitPosition2_unshared _ body]
    simp only [hdecode]
    generalize dispatch _ body known = d
    cases d <;> simp
  · have hdropped := deliberatelyDropped_short hshort
    simp [hdecode, hdropped]

theorem translationFate_ne_dropped (at_ : TransactionPosition) (indexed : IndexedWireEvent) :
    translationFate at_ indexed ≠ .dropped := by
  unfold translationFate
  cases translateWireEvent indexed.event (at_.at_ indexed.eventIndex) <;> exact nofun

namespace MeteoraDammV2

variable (self : MeteoraDammV2)

theorem fate_overflow (at_ : TransactionPosition) {i : Nat} (hi : 2 ^ 16 ≤ i)
    (raw : List UInt8) : self.fate at_ (raw, i) = .failure (.eventIndexOverflow i) := by
  unfold fate
  rw [wireFate_overflow hi]
  rfl

theorem fate_dropped_iff (at_ : TransactionPosition) {i : Nat} (hi : i < 2 ^ 16)
    (raw : List UInt8) :
    self.fate at_ (raw, i) = .dropped ↔ deliberatelyDropped raw = true := by
  rw [← wireFate_dropped_iff hi raw]
  unfold fate
  cases wireFate (raw, i) with
  | event indexed => simp [translationFate_ne_dropped]
  | _ => simp

theorem isDropped_fate (at_ : TransactionPosition) {i : Nat} (hi : i < 2 ^ 16)
    (raw : List UInt8) : (self.fate at_ (raw, i)).isDropped = deliberatelyDropped raw := by
  have hiff := self.fate_dropped_iff at_ hi raw
  cases hfate : self.fate at_ (raw, i) <;> cases hdropped : deliberatelyDropped raw <;>
    simp_all [Fate.isDropped]

/-- The payloads past the last index are none of them dropped. -/
theorem countP_isDropped (at_ : TransactionPosition) (payloads : List (List UInt8)) (k : Nat) :
    ((payloads.zipIdx k).map (self.fate at_)).countP Fate.isDropped =
      (payloads.take (2 ^ 16 - k)).countP deliberatelyDropped := by
  induction payloads generalizing k with
  | nil => simp
  | cons raw payloads ih =>
    rw [List.zipIdx_cons, List.map_cons, List.countP_cons, ih]
    by_cases hk : k < 2 ^ 16
    · have hsub : 2 ^ 16 - k = (2 ^ 16 - (k + 1)) + 1 := by omega
      rw [hsub, List.take_succ_cons, List.countP_cons, self.isDropped_fate at_ hk]
    · have hsub : 2 ^ 16 - k = 0 := by omega
      have hsub' : 2 ^ 16 - (k + 1) = 0 := by omega
      rw [hsub, hsub', self.fate_overflow at_ (Nat.not_lt.mp hk)]
      rfl

theorem mem_fates {tx : OnChainTransaction}
    {fate : Fate DomainEvent UnknownEventInfo ExtractionFailure} :
    fate ∈ self.fates tx ↔ ∃ i raw, (extractAnchorEventCpis tx self.programId)[i]? = some raw ∧
      self.fate tx.position (raw, i) = fate := by
  unfold fates
  rw [List.mem_map]
  constructor
  · rintro ⟨⟨raw, i⟩, hmem, hfate⟩
    exact ⟨i, raw, List.mem_zipIdx_iff_getElem?.mp hmem, hfate⟩
  · rintro ⟨i, raw, hget, hfate⟩
    exact ⟨(raw, i), List.mem_zipIdx_iff_getElem?.mpr hget, hfate⟩

/-- An event is the fate of the payload at its index. -/
theorem mem_events {tx : OnChainTransaction} {e : DomainEvent} :
    e ∈ (self.extractEvents tx).events ↔ ∃ raw,
      (extractAnchorEventCpis tx self.programId)[e.eventPosition.eventIndex.toNat]? = some raw ∧
      self.fate tx.position (raw, e.eventPosition.eventIndex.toNat) = .event e := by
  rw [self.extractEvents_events, List.mem_filterMap]
  constructor
  · rintro ⟨fate, hmem, hevent⟩
    obtain ⟨i, raw, hget, hfate⟩ := self.mem_fates.mp hmem
    rw [Fate.event?_eq_some hevent] at hfate
    have hindex := (fate_event hfate).2
    rw [hindex]
    exact ⟨raw, hget, hfate⟩
  · rintro ⟨raw, hget, hfate⟩
    exact ⟨.event e, self.mem_fates.mpr ⟨_, raw, hget, hfate⟩, rfl⟩

theorem zipIdx_increasing {α : Type} (l : List α) (k : Nat) :
    (l.zipIdx k).Pairwise (fun p q => p.2 < q.2) := by
  rw [← List.pairwise_map (f := Prod.snd) (R := (· < ·)), List.zipIdx_map_snd]
  exact List.pairwise_lt_range'

theorem events_increasing (tx : OnChainTransaction) :
    ((self.extractEvents tx).events.map (·.eventPosition.eventIndex)).Pairwise (· < ·) := by
  rw [self.extractEvents_events, fates, List.pairwise_map, List.pairwise_filterMap,
    List.pairwise_map]
  apply (zipIdx_increasing _ 0).imp
  intro p q hlt e he e' he'
  have hp := (fate_event (Fate.event?_eq_some he)).2
  have hq := (fate_event (Fate.event?_eq_some he')).2
  rw [UInt16.lt_iff_toNat_lt, hp, hq]
  exact hlt

theorem fate_ne_overflow (at_ : TransactionPosition) {j : Nat} (hj : j < 2 ^ 16)
    (raw : List UInt8) (i : Nat) :
    self.fate at_ (raw, j) ≠ .failure (.eventIndexOverflow i) := by
  have hindex : u16TryFrom j = some (UInt16.ofNat j) := if_pos hj
  intro hfate
  unfold fate wireFate at hfate
  rw [hindex] at hfate
  cases hdecode : decodeAnchorEventCpi raw with
  | error e => cases e <;> simp [hdecode, mapExtractorFailure] at hfate
  | ok decoded =>
    simp only [hdecode] at hfate
    generalize dispatch decoded.1 decoded.2 known = d at hfate
    cases d with
    | recognized event =>
      simp only [translationFate] at hfate
      split at hfate <;> cases hfate
    | _ => cases hfate

/-- The payloads past the last index, and only these, are reported as such. -/
theorem mem_overflow_iff (tx : OnChainTransaction) (i : Nat) :
    .eventIndexOverflow i ∈ (self.extractEvents tx).failures ↔
      2 ^ 16 ≤ i ∧ i < (extractAnchorEventCpis tx self.programId).length := by
  rw [(self.extractEvents_failures tx).mem_iff, List.mem_filterMap]
  constructor
  · rintro ⟨fate, hmem, hfailure⟩
    obtain ⟨j, raw, hget, hfate⟩ := self.mem_fates.mp hmem
    rw [Fate.failure?_eq_some hfailure] at hfate
    have hj : 2 ^ 16 ≤ j := by
      apply Nat.not_lt.mp
      intro hlt
      exact self.fate_ne_overflow tx.position hlt raw i hfate
    rw [self.fate_overflow tx.position hj] at hfate
    cases hfate
    exact ⟨hj, (List.getElem?_eq_some_iff.mp hget).1⟩
  · rintro ⟨hi, hlen⟩
    have hget := List.getElem?_eq_getElem hlen
    exact ⟨_, self.mem_fates.mpr ⟨i, _, hget, self.fate_overflow tx.position hi _⟩, rfl⟩

/-- What the numbering of one transaction owes: every payload addressed to the program has one
fate, an event carries the index of its payload, and what is recorded nowhere is what the
extraction drops on purpose. -/
structure Numbered (tx : OnChainTransaction) : Prop where
  indexed : ∀ e ∈ (self.extractEvents tx).events, ∃ raw,
    (extractAnchorEventCpis tx self.programId)[e.eventPosition.eventIndex.toNat]? = some raw ∧
      self.fate tx.position (raw, e.eventPosition.eventIndex.toNat) = .event e
  increasing :
    ((self.extractEvents tx).events.map (·.eventPosition.eventIndex)).Pairwise (· < ·)
  bounded : ∀ e ∈ (self.extractEvents tx).events, e.eventPosition.eventIndex.toNat ≤ 65535
  events : (self.extractEvents tx).events = (self.fates tx).filterMap Fate.event?
  unknown : (self.extractEvents tx).unknown = (self.fates tx).filterMap Fate.unknown?
  failures : (self.extractEvents tx).failures.Perm ((self.fates tx).filterMap Fate.failure?)
  dropped : ∀ i raw, (extractAnchorEventCpis tx self.programId)[i]? = some raw →
    (self.fate tx.position (raw, i) = .dropped ↔
      i ≤ 65535 ∧ deliberatelyDropped raw = true)
  counted : (self.extractEvents tx).events.length + (self.extractEvents tx).unknown.length +
    (self.extractEvents tx).failures.length +
    ((extractAnchorEventCpis tx self.programId).take 65536).countP deliberatelyDropped =
      (extractAnchorEventCpis tx self.programId).length
  overflown : ∀ i, .eventIndexOverflow i ∈ (self.extractEvents tx).failures ↔
    65535 < i ∧ i < (extractAnchorEventCpis tx self.programId).length

theorem fate_dropped (at_ : TransactionPosition) (i : Nat) (raw : List UInt8) :
    self.fate at_ (raw, i) = .dropped ↔ i ≤ 65535 ∧ deliberatelyDropped raw = true := by
  by_cases hi : i < 2 ^ 16
  · rw [self.fate_dropped_iff at_ hi, and_iff_right (Nat.le_of_lt_succ hi)]
  · rw [self.fate_overflow at_ (Nat.not_lt.mp hi)]
    constructor
    · exact nofun
    · rintro ⟨hle, -⟩
      omega

theorem counted (tx : OnChainTransaction) :
    (self.extractEvents tx).events.length + (self.extractEvents tx).unknown.length +
      (self.extractEvents tx).failures.length +
      ((extractAnchorEventCpis tx self.programId).take 65536).countP deliberatelyDropped =
        (extractAnchorEventCpis tx self.programId).length := by
  have hlength := Fate.length_eq (self.fates tx)
  have hdropped : (self.fates tx).countP Fate.isDropped =
      ((extractAnchorEventCpis tx self.programId).take 65536).countP deliberatelyDropped :=
    self.countP_isDropped tx.position _ 0
  rw [self.extractEvents_events, self.extractEvents_unknown,
    (self.extractEvents_failures tx).length_eq, ← hdropped, hlength]
  rw [fates, List.length_map, List.length_zipIdx]

theorem numbered (tx : OnChainTransaction) : self.Numbered tx where
  indexed _ he := self.mem_events.mp he
  increasing := self.events_increasing tx
  bounded e _ := Nat.le_of_lt_succ e.eventPosition.eventIndex.toNat_lt
  events := self.extractEvents_events tx
  unknown := self.extractEvents_unknown tx
  failures := self.extractEvents_failures tx
  dropped i raw _ := self.fate_dropped tx.position i raw
  counted := self.counted tx
  overflown := self.mem_overflow_iff tx

/-- Payloads of other programs change nothing. -/
theorem extractEvents_foreign (at_ : TransactionPosition)
    (before foreign after : List InnerInstructionPayload)
    (hforeign : ∀ ix ∈ foreign, ix.programId ≠ self.programId) :
    self.extractEvents ⟨at_, before ++ foreign ++ after⟩ =
      self.extractEvents ⟨at_, before ++ after⟩ := by
  have hnil : foreign.filter (fun ix => ix.programId == self.programId) = [] := by
    rw [List.filter_eq_nil_iff]
    intro ix hix
    simpa using hforeign ix hix
  unfold extractEvents extractWireEvents extractAnchorEventCpis
  simp only [List.filter_append, hnil, List.append_nil]

theorem extractAnchorEventCpis_middle (at_ : TransactionPosition) (program : Pubkey)
    (before after : List InnerInstructionPayload) (data : List UInt8) :
    extractAnchorEventCpis ⟨at_, before ++ ⟨program, data⟩ :: after⟩ program =
      extractAnchorEventCpis ⟨at_, before⟩ program ++
        data :: extractAnchorEventCpis ⟨at_, after⟩ program := by
  unfold extractAnchorEventCpis
  simp

/-- The events of a transaction but for those numbered `k`. -/
def eventsBut (k : Nat) (tx : OnChainTransaction) : List DomainEvent :=
  (self.extractEvents tx).events.filter (fun e => e.eventPosition.eventIndex.toNat ≠ k)

/-- Replacing the payload numbered `k` only reaches the event numbered `k`. -/
theorem eventsBut_middle (at_ : TransactionPosition)
    (before after : List InnerInstructionPayload) (data : List UInt8) :
    self.eventsBut (extractAnchorEventCpis ⟨at_, before⟩ self.programId).length
        ⟨at_, before ++ ⟨self.programId, data⟩ :: after⟩ =
      let payloads := extractAnchorEventCpis ⟨at_, before⟩ self.programId
      let others := payloads.zipIdx ++
        (extractAnchorEventCpis ⟨at_, after⟩ self.programId).zipIdx (payloads.length + 1)
      ((others.map (self.fate at_)).filterMap Fate.event?).filter
        (fun e => e.eventPosition.eventIndex.toNat ≠ payloads.length) := by
  rw [eventsBut, self.extractEvents_events, fates, extractAnchorEventCpis_middle,
    List.zipIdx_append, List.zipIdx_cons, Nat.zero_add]
  simp only [List.map_append, List.map_cons, List.filterMap_append, List.filterMap_cons,
    List.filter_append]
  congr 1
  cases hfate : self.fate at_ (data, (extractAnchorEventCpis ⟨at_, before⟩ self.programId).length)
    with
  | event e =>
    have hindex := (fate_event hfate).2
    rw [Fate.event?, List.filter_cons_of_neg (by simpa using hindex)]
  | _ => rfl

/-- The numbering of the events of a transaction: `Numbered` for every transaction, unmoved by
the payloads of other programs, and for each payload by the bytes of the others. -/
theorem extractEvents_numbered :
    (∀ tx, self.Numbered tx) ∧
    (∀ at_ before foreign after,
      (∀ ix ∈ foreign, ix.programId ≠ self.programId) →
      self.extractEvents ⟨at_, before ++ foreign ++ after⟩ =
        self.extractEvents ⟨at_, before ++ after⟩) ∧
    ∀ at_ before after data data',
      self.eventsBut (extractAnchorEventCpis ⟨at_, before⟩ self.programId).length
          ⟨at_, before ++ ⟨self.programId, data⟩ :: after⟩ =
        self.eventsBut (extractAnchorEventCpis ⟨at_, before⟩ self.programId).length
          ⟨at_, before ++ ⟨self.programId, data'⟩ :: after⟩ := by
  refine ⟨self.numbered, self.extractEvents_foreign, ?_⟩
  intro at_ before after data data'
  rw [eventsBut_middle, eventsBut_middle]

end MeteoraDammV2

end YogSothoth.Extraction
