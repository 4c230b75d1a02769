import YogSothoth.Indexer.TransactionAdapter

namespace YogSothoth.Indexer

open Extraction (InnerInstructionPayload OnChainTransaction extractAnchorEventCpis)

/-- An inner instruction as the chain has it; `parsed` is whether the RPC node has a parser for
its program, and so shows no data. -/
structure ChainInstruction where
  programIdIndex : UInt32
  data : List UInt8
  parsed : Bool

structure ChainGroup where
  index : UInt8
  instructions : List ChainInstruction

/-- A transaction, whatever source describes it. -/
structure ChainTransaction where
  signature : Signature
  slot : UInt64
  index : UInt32
  (staticKeys loadedWritable loadedReadonly : List Pubkey)
  groups : List ChainGroup
  distinct : (groups.map (·.index)).Nodup
  inRange : ∀ g ∈ groups, ∀ ix ∈ g.instructions,
    ix.programIdIndex.toNat < (staticKeys ++ loadedWritable ++ loadedReadonly).length

namespace ChainTransaction

variable (t : ChainTransaction)

def keys : List Pubkey := t.staticKeys ++ t.loadedWritable ++ t.loadedReadonly

def programId (ix : ChainInstruction) : Pubkey :=
  t.keys.getD ix.programIdIndex.toNat zeroPubkey

def payload (ix : ChainInstruction) : InnerInstructionPayload := ⟨t.programId ix, ix.data⟩

/-- The groups in the order of their outer instructions. -/
def instructions : List ChainInstruction :=
  (orderBy (fun g => g.index.toNat) t.groups).flatMap (·.instructions)

def grpcGroup (g : ChainGroup) : Grpc.InnerInstructions where
  index := UInt32.ofNat g.index.toNat
  instructions := g.instructions.map (fun ix => ⟨ix.programIdIndex, ix.data⟩)

/-- The update of the stream, with the groups as it orders them. -/
def grpcUpdate (groups : List ChainGroup) : Grpc.SubscribeUpdateTransaction where
  slot := t.slot
  transaction := some
    { signature := t.signature.bytes
      transaction := some ⟨some ⟨t.staticKeys.map (·.bytes)⟩⟩
      meta_ := some
        { innerInstructions := groups.map grpcGroup
          innerInstructionsNone := false
          loadedWritableAddresses := t.loadedWritable.map (·.bytes)
          loadedReadonlyAddresses := t.loadedReadonly.map (·.bytes) }
      index := UInt64.ofNat t.index.toNat }

/-- An instruction of the target is shown with its data; one of another program may be parsed. -/
def rpcInstruction (codecs : Codecs) (target : Pubkey) (ix : ChainInstruction) :
    Rpc.UiInstruction :=
  if ix.parsed ∧ t.programId ix ≠ target then
    .parsed (.parsed (codecs.texts.pubkey.print (t.programId ix)))
  else
    .parsed (.partiallyDecoded
      ⟨codecs.texts.pubkey.print (t.programId ix), codecs.base58.print ix.data⟩)

/-- The `getTransaction` response, with the groups as the node orders them. -/
def rpcResponse (codecs : Codecs) (target : Pubkey) (groups : List ChainGroup) (blockTime : Int)
    (cosigners : List String) (transactionIndex : Option UInt32) :
    Rpc.EncodedConfirmedTransactionWithStatusMeta where
  slot := t.slot
  transaction := .json (codecs.texts.signature.print t.signature :: cosigners)
  meta_ := some ⟨.some (groups.map (fun g =>
    ⟨g.index, g.instructions.map (t.rpcInstruction codecs target)⟩))⟩
  blockTime := some blockTime
  transactionIndex := transactionIndex

end ChainTransaction

/-- `Pubkey::try_from` of a slice. -/
theorem pubkey_of_key_iff {key : List UInt8} {e : CoreError} {p : Pubkey} :
    (if h : key.length = 32 then Except.ok (⟨key, h⟩ : Pubkey) else .error e) = .ok p ↔
      key = p.bytes := by
  by_cases h : key.length = 32
  · rw [dif_pos h, Except.ok.injEq]
    constructor
    · intro hp
      rw [← hp]
    · intro hp
      cases p
      cases hp
      rfl
  · rw [dif_neg h]
    constructor
    · exact nofun
    · intro hp
      exact absurd (hp ▸ p.size) h

section Resolve

variable (codecs : Codecs) (index : UInt32) (signature : Signature)

/-- The loop finds the key the segments hold, one after the other, at what remains. -/
theorem resolveFrom_eq_ok_iff (total remaining : Nat) (segments : List (List (List UInt8)))
    (p : Pubkey) :
    Grpc.resolveFrom codecs index total signature remaining segments = .ok p ↔
      segments.flatten[remaining]? = some p.bytes := by
  induction segments generalizing remaining with
  | nil => simp [Grpc.resolveFrom]
  | cons segment segments ih =>
    rw [Grpc.resolveFrom, List.flatten_cons]
    by_cases h : remaining < segment.length
    · rw [dif_pos h, List.getElem?_append_left h, List.getElem?_eq_getElem h, Option.some.injEq]
      exact pubkey_of_key_iff
    · rw [dif_neg h, ih, List.getElem?_append_right (Nat.not_lt.mp h)]

theorem resolveProgramId_eq_ok_iff (static writable readonly : List (List UInt8)) (p : Pubkey) :
    Grpc.resolveProgramId codecs index [static, writable, readonly] signature = .ok p ↔
      (static ++ writable ++ readonly)[index.toNat]? = some p.bytes := by
  unfold Grpc.resolveProgramId
  rw [resolveFrom_eq_ok_iff]
  simp [List.append_assoc]

/-- An index is refused when it is outside the keys, or names one that is no public key. -/
theorem resolveProgramId_error_iff (static writable readonly : List (List UInt8)) :
    (∃ e, Grpc.resolveProgramId codecs index [static, writable, readonly] signature = .error e) ↔
      (static ++ writable ++ readonly).length ≤ index.toNat ∨
        ∃ key, (static ++ writable ++ readonly)[index.toNat]? = some key ∧ key.length ≠ 32 := by
  have hok := resolveProgramId_eq_ok_iff codecs index signature static writable readonly
  cases hresolve : Grpc.resolveProgramId codecs index [static, writable, readonly] signature with
  | ok p =>
    have hget := (hok p).mp hresolve
    refine iff_of_false nofun ?_
    rintro (hlen | ⟨key, hkey, hsize⟩)
    · rw [List.getElem?_eq_none hlen] at hget
      cases hget
    · rw [hget, Option.some.injEq] at hkey
      exact hsize (hkey ▸ p.size)
  | error e =>
    refine iff_of_true ⟨e, rfl⟩ ?_
    by_cases hlen : (static ++ writable ++ readonly).length ≤ index.toNat
    · exact Or.inl hlen
    · have hget := List.getElem?_eq_getElem (Nat.not_le.mp hlen)
      refine Or.inr ⟨_, hget, ?_⟩
      intro hsize
      rw [(hok ⟨_, hsize⟩).mpr hget] at hresolve
      cases hresolve

end Resolve

namespace ChainTransaction

variable (codecs : Codecs) (t : ChainTransaction)

theorem distinct_toNat : (t.groups.map (fun g => g.index.toNat)).Nodup := by
  have hmap := t.distinct.map (f := UInt8.toNat) (fun _ _ h => UInt8.toNat_inj.mp h)
  rwa [List.map_map] at hmap

/-- Whatever order a source gives the groups in, sorting them gives one. -/
theorem orderBy_groups {groups : List ChainGroup} (h : groups.Perm t.groups) :
    orderBy (fun g => g.index.toNat) groups = orderBy (fun g => g.index.toNat) t.groups :=
  (orderBy_eq_of_perm h.symm t.distinct_toNat).symm

theorem grpcGroup_index (g : ChainGroup) : (grpcGroup g).index.toNat = g.index.toNat := by
  have := g.index.toNat_lt
  unfold grpcGroup
  rw [UInt32.toNat_ofNat']
  omega

theorem inRange_of_mem {ix : ChainInstruction} (h : ix ∈ t.instructions) :
    ix.programIdIndex.toNat < t.keys.length := by
  obtain ⟨g, hg, hix⟩ := List.mem_flatMap.mp h
  exact t.inRange g (mem_orderBy.mp hg) ix hix

theorem resolveProgramId_eq {ix : ChainInstruction} (h : ix ∈ t.instructions) :
    Grpc.resolveProgramId codecs ix.programIdIndex
      [t.staticKeys.map (·.bytes), t.loadedWritable.map (·.bytes),
        t.loadedReadonly.map (·.bytes)] t.signature = .ok (t.programId ix) := by
  have hlt := t.inRange_of_mem h
  rw [resolveProgramId_eq_ok_iff, ← List.map_append, ← List.map_append, List.getElem?_map]
  change t.keys[ix.programIdIndex.toNat]?.map (·.bytes) = _
  rw [programId, List.getD_eq_getElem?_getD, List.getElem?_eq_getElem hlt]
  rfl

theorem grpc_instructions {groups : List ChainGroup} (h : groups.Perm t.groups) :
    (orderBy (fun g => g.index.toNat) (groups.map grpcGroup)).flatMap (·.instructions) =
      t.instructions.map (fun ix => ⟨ix.programIdIndex, ix.data⟩) := by
  rw [orderBy_map, funext grpcGroup_index, t.orderBy_groups h, List.flatMap_map, instructions,
    List.map_flatMap]
  rfl

theorem grpc_toPayload {ix : ChainInstruction} (h : ix ∈ t.instructions) :
    Grpc.toPayload codecs
      [t.staticKeys.map (·.bytes), t.loadedWritable.map (·.bytes),
        t.loadedReadonly.map (·.bytes)] t.signature ⟨ix.programIdIndex, ix.data⟩ =
      .ok (t.payload ix) := by
  unfold Grpc.toPayload
  rw [t.resolveProgramId_eq codecs h]
  rfl

theorem grpc_extractSignature (groups : List ChainGroup) (info : Grpc.SubscribeUpdateTransactionInfo)
    (h : (t.grpcUpdate groups).transaction = some info) :
    Grpc.extractSignature info = .ok t.signature := by
  cases h
  exact dif_pos t.signature.size

theorem grpc_extractIndex (groups : List ChainGroup) (info : Grpc.SubscribeUpdateTransactionInfo)
    (h : (t.grpcUpdate groups).transaction = some info) :
    Grpc.extractIndex codecs info t.signature = .ok t.index := by
  cases h
  have hlt := t.index.toNat_lt
  have hindex : (UInt64.ofNat t.index.toNat).toNat = t.index.toNat := by
    rw [UInt64.toNat_ofNat']
    omega
  unfold Grpc.extractIndex
  rw [hindex, if_pos hlt, UInt32.ofNat_toNat]

theorem grpc_extractInnerInstructions {groups : List ChainGroup} (h : groups.Perm t.groups)
    (info : Grpc.SubscribeUpdateTransactionInfo)
    (hinfo : (t.grpcUpdate groups).transaction = some info) :
    Grpc.extractInnerInstructions codecs info t.signature =
      .ok (t.instructions.map t.payload) := by
  cases hinfo
  change (List.flatMap _ (orderBy _ (groups.map grpcGroup))).mapM _ = _
  rw [t.grpc_instructions h]
  have hpayload : ∀ ix ∈ t.instructions.map
      (fun ix => (⟨ix.programIdIndex, ix.data⟩ : Grpc.InnerInstruction)),
      Grpc.toPayload codecs
        [t.staticKeys.map (·.bytes), t.loadedWritable.map (·.bytes),
          t.loadedReadonly.map (·.bytes)] t.signature ix =
        .ok ⟨t.keys.getD ix.programIdIndex.toNat zeroPubkey, ix.data⟩ := by
    intro e he
    obtain ⟨ix, hix, rfl⟩ := List.mem_map.mp he
    exact t.grpc_toPayload codecs hix
  rw [mapM_ok_of_forall hpayload, List.map_map]
  rfl

/-- The stream's transaction holds every payload, in the order of the outer instructions. -/
theorem fromGrpc_eq {groups : List ChainGroup} (h : groups.Perm t.groups) (timestamp : Instant) :
    Grpc.fromGrpc codecs (t.grpcUpdate groups) timestamp =
      .ok ⟨⟨t.signature, timestamp, t.slot, some t.index⟩, t.instructions.map t.payload⟩ := by
  have hinfo : ∃ info, (t.grpcUpdate groups).transaction = some info := ⟨_, rfl⟩
  obtain ⟨info, hinfo⟩ := hinfo
  unfold Grpc.fromGrpc
  rw [hinfo]
  simp only [t.grpc_extractSignature groups info hinfo,
    t.grpc_extractIndex codecs groups info hinfo,
    t.grpc_extractInnerInstructions codecs h info hinfo, bind, Except.bind]
  rfl

/-- Whether the response shows the data of an instruction. -/
def shown (target : Pubkey) (ix : ChainInstruction) : Bool :=
  !(ix.parsed && t.programId ix != target)

theorem rpc_toPayload (target : Pubkey) (ix : ChainInstruction) :
    Rpc.toPayload codecs (t.rpcInstruction codecs target ix) =
      if t.shown target ix then some (t.payload ix) else none := by
  unfold rpcInstruction shown
  by_cases h : ix.parsed = true ∧ t.programId ix ≠ target
  · simp [h, Rpc.toPayload]
  · have hshown : (!(ix.parsed && t.programId ix != target)) = true := by
      cases hparsed : ix.parsed <;> simp_all
    rw [if_neg h, if_pos hshown, Rpc.toPayload, codecs.texts.pubkey.parse_print,
      codecs.base58.parse_print]
    rfl

theorem rpc_instructions (target : Pubkey) {groups : List ChainGroup}
    (h : groups.Perm t.groups) :
    (orderBy (fun g => g.index.toNat) (groups.map (fun g =>
      (⟨g.index, g.instructions.map (t.rpcInstruction codecs target)⟩ :
        Rpc.UiInnerInstructions)))).flatMap (·.instructions) =
      t.instructions.map (t.rpcInstruction codecs target) := by
  rw [orderBy_map, t.orderBy_groups h, List.flatMap_map, instructions, List.map_flatMap]

/-- The response's transaction holds the payloads it shows, in the same order. -/
theorem fromRpc_eq (target : Pubkey) {groups : List ChainGroup} (h : groups.Perm t.groups)
    {blockTime : Int} {timestamp : Instant}
    (htime : codecs.fromTimestamp blockTime = some timestamp) (cosigners : List String)
    (transactionIndex : Option UInt32) :
    Rpc.fromRpc codecs
        (t.rpcResponse codecs target groups blockTime cosigners transactionIndex) =
      .ok ⟨⟨t.signature, timestamp, t.slot, transactionIndex⟩,
        (t.instructions.filter (t.shown target)).map t.payload⟩ := by
  have hsignature : Rpc.extractSignature codecs
      (t.rpcResponse codecs target groups blockTime cosigners transactionIndex) =
      .ok t.signature := by
    unfold Rpc.extractSignature rpcResponse
    simp only [List.head?_cons, codecs.texts.signature.parse_print]
    rfl
  have htimestamp : Rpc.extractTimestamp codecs
      (t.rpcResponse codecs target groups blockTime cosigners transactionIndex) =
      .ok timestamp := by
    unfold Rpc.extractTimestamp rpcResponse
    simp only [htime]
  have hinstructions : Rpc.extractInnerInstructions codecs
      (t.rpcResponse codecs target groups blockTime cosigners transactionIndex) t.signature =
      .ok ((t.instructions.filter (t.shown target)).map t.payload) := by
    change Except.ok ((List.flatMap _ (orderBy _ _)).filterMap _) = _
    rw [t.rpc_instructions codecs target h, List.filterMap_map, ← List.filterMap_eq_map,
      List.filterMap_filter]
    congr 1
    apply List.filterMap_congr
    intro ix _
    exact t.rpc_toPayload codecs target ix
  unfold Rpc.fromRpc
  simp only [hsignature, htimestamp, hinstructions, bind, Except.bind]
  rfl

theorem filter_shown (target : Pubkey) :
    ((t.instructions.filter (t.shown target)).map t.payload).filter
        (fun ix => ix.programId == target) =
      (t.instructions.map t.payload).filter (fun ix => ix.programId == target) := by
  rw [List.filter_map, List.filter_map, List.filter_filter]
  congr 1
  apply List.filter_congr
  intro ix _
  by_cases h : t.programId ix = target <;> simp [shown, payload, h]

/-- One transaction through both adapters: both succeed, the payloads of the target are the same
list and take the same positions; and an index is resolved over the three segments as one list. -/
theorem adapters_agree (codecs : Codecs) (t : ChainTransaction) (target : Pubkey)
    {streamed answered : List ChainGroup} (hstreamed : streamed.Perm t.groups)
    (hanswered : answered.Perm t.groups) (timestamp : Instant) {blockTime : Int}
    (htime : (codecs.fromTimestamp blockTime).isSome) (cosigners : List String)
    (transactionIndex : Option UInt32) :
    (∃ grpc rpc : OnChainTransaction,
      Grpc.fromGrpc codecs (t.grpcUpdate streamed) timestamp = .ok grpc ∧
      Rpc.fromRpc codecs
        (t.rpcResponse codecs target answered blockTime cosigners transactionIndex) = .ok rpc ∧
      grpc.innerInstructions.filter (fun ix => ix.programId == target) =
        rpc.innerInstructions.filter (fun ix => ix.programId == target) ∧
      extractAnchorEventCpis grpc target = extractAnchorEventCpis rpc target) ∧
    ∀ (index : UInt32) (static writable readonly : List (List UInt8)) (signature : Signature),
      (∀ p, Grpc.resolveProgramId codecs index [static, writable, readonly] signature = .ok p ↔
        (static ++ writable ++ readonly)[index.toNat]? = some p.bytes) ∧
      ((∃ e, Grpc.resolveProgramId codecs index [static, writable, readonly] signature =
          .error e) ↔
        (static ++ writable ++ readonly).length ≤ index.toNat ∨
          ∃ key, (static ++ writable ++ readonly)[index.toNat]? = some key ∧
            key.length ≠ 32) := by
  obtain ⟨instant, htime⟩ := Option.isSome_iff_exists.mp htime
  have hfilter := t.filter_shown target
  refine ⟨⟨_, _, t.fromGrpc_eq codecs hstreamed timestamp,
    t.fromRpc_eq codecs target hanswered htime cosigners transactionIndex, hfilter.symm, ?_⟩, ?_⟩
  · unfold extractAnchorEventCpis
    rw [hfilter]
  · intro index static writable readonly signature
    exact ⟨resolveProgramId_eq_ok_iff codecs index signature static writable readonly,
      resolveProgramId_error_iff codecs index signature static writable readonly⟩

end ChainTransaction

/-- Codecs that agree with the real ones on zero bytes and on every instant `chrono` can name. -/
def plainCodecs : Codecs where
  texts := Texts.plain
  base58 :=
    { print := fun bytes => String.ofList (bytes.map byteChar)
      parse := fun text => .ok (text.toList.map charByte)
      parse_print := fun bytes => by rw [String.toList_ofList, map_charByte_byteChar] }
  fromTimestamp s :=
    if -8334601228800 ≤ s ∧ s ≤ 8210266876799 then some (s * 10 ^ 9) else none

/-- Two groups of one program, the second outer instruction first. -/
def twoGroups : ChainTransaction where
  signature := zeroSignature
  slot := 7
  index := 3
  staticKeys := [zeroPubkey]
  loadedWritable := []
  loadedReadonly := []
  groups := [⟨1, [⟨0, [0, 0], false⟩]⟩, ⟨0, [⟨0, [0], true⟩]⟩]
  distinct := by decide
  inRange := by decide

theorem adapters_agree_twoGroups :
    (plainCodecs.fromTimestamp 1700000000).isSome ∧
    ∃ grpc rpc : OnChainTransaction,
      Grpc.fromGrpc plainCodecs (twoGroups.grpcUpdate twoGroups.groups) 0 = .ok grpc ∧
      Rpc.fromRpc plainCodecs (twoGroups.rpcResponse plainCodecs zeroPubkey
        twoGroups.groups.reverse 1700000000 [] none) = .ok rpc ∧
      extractAnchorEventCpis grpc zeroPubkey = extractAnchorEventCpis rpc zeroPubkey := by
  have htime : (plainCodecs.fromTimestamp 1700000000).isSome := by decide
  obtain ⟨⟨grpc, rpc, hgrpc, hrpc, -, hpositions⟩, -⟩ :=
    twoGroups.adapters_agree plainCodecs zeroPubkey (List.Perm.refl _) (List.reverse_perm _) 0
      htime [] none
  exact ⟨htime, grpc, rpc, hgrpc, hrpc, hpositions⟩

end YogSothoth.Indexer
