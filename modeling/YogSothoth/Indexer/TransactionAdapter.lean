import YogSothoth.Core.Text
import YogSothoth.Extraction.Extractor
import YogSothoth.Framework.Keyset

namespace YogSothoth.Indexer

open Extraction (InnerInstructionPayload OnChainTransaction TransactionPosition)

/-- The codecs both adapters rest on: the texts of addresses and signatures, base58 of arbitrary
bytes, and the instants a number of seconds can name. -/
structure Codecs where
  texts : Texts
  base58 : TextCodec (List UInt8)
  fromTimestamp : Int → Option Instant

inductive CoreError where
  | parseError (signature reason : String)
  | missingField (signature field : String)
  deriving DecidableEq

/-- A gap both adapters can meet. -/
inductive Gap where
  | meta_
  | innerInstructions

def Gap.field : Gap → String
  | .meta_ => "meta (not captured by the source)"
  | .innerInstructions => "meta.inner_instructions (not captured by the source)"

def refuse (codecs : Codecs) (gap : Gap) (signature : Signature) : CoreError :=
  .missingField (codecs.texts.signature.print signature) gap.field

namespace Grpc

structure InnerInstruction where
  programIdIndex : UInt32
  data : List UInt8

structure InnerInstructions where
  index : UInt32
  instructions : List InnerInstruction

structure Message where
  accountKeys : List (List UInt8)

structure Transaction where
  message : Option Message

structure TransactionStatusMeta where
  innerInstructions : List InnerInstructions
  innerInstructionsNone : Bool
  loadedWritableAddresses : List (List UInt8)
  loadedReadonlyAddresses : List (List UInt8)

structure SubscribeUpdateTransactionInfo where
  signature : List UInt8
  transaction : Option Transaction
  meta_ : Option TransactionStatusMeta
  index : UInt64

structure SubscribeUpdateTransaction where
  transaction : Option SubscribeUpdateTransactionInfo
  slot : UInt64

def SIGNATURE_BYTES : Nat := 64

def extractSignature (info : SubscribeUpdateTransactionInfo) : Except CoreError Signature :=
  if h : info.signature.length = SIGNATURE_BYTES then .ok ⟨info.signature, h⟩
  else .error (.parseError "" ("signature is " ++ toString info.signature.length ++
    " bytes, expected " ++ toString SIGNATURE_BYTES))

variable (codecs : Codecs)

/-- An error, never a truncating cast. -/
def extractIndex (info : SubscribeUpdateTransactionInfo) (signature : Signature) :
    Except CoreError UInt32 :=
  if info.index.toNat < 2 ^ 32 then .ok (UInt32.ofNat info.index.toNat)
  else .error (.parseError (codecs.texts.signature.print signature)
    ("transaction index " ++ toString info.index ++ " does not fit in u32"))

/-- Static keys, loaded writable, loaded readonly. -/
def accountKeySegments (info : SubscribeUpdateTransactionInfo) (meta_ : TransactionStatusMeta)
    (signature : Signature) : Except CoreError (List (List (List UInt8))) :=
  match info.transaction.bind (·.message) with
  | some message =>
    .ok [message.accountKeys, meta_.loadedWritableAddresses, meta_.loadedReadonlyAddresses]
  | none => .error (.missingField (codecs.texts.signature.print signature) "transaction.message")

/-- The loop over the segments, with what remains of the index. -/
def resolveFrom (index : UInt32) (total : Nat) (signature : Signature) :
    Nat → List (List (List UInt8)) → Except CoreError Pubkey
  | _, [] => .error (.parseError (codecs.texts.signature.print signature)
      ("program_id_index " ++ toString index ++ " is outside the " ++ toString total ++
        " account keys"))
  | remaining, segment :: segments =>
    if h : remaining < segment.length then
      let key := segment.get ⟨remaining, h⟩
      if hkey : key.length = 32 then .ok ⟨key, hkey⟩
      else .error (.parseError (codecs.texts.signature.print signature)
        ("account key at index " ++ toString index ++ " is " ++ toString key.length ++
          " bytes, not a public key"))
    else resolveFrom index total signature (remaining - segment.length) segments

def resolveProgramId (index : UInt32) (segments : List (List (List UInt8)))
    (signature : Signature) : Except CoreError Pubkey :=
  resolveFrom codecs index (segments.map List.length).sum signature index.toNat segments

def toPayload (segments : List (List (List UInt8))) (signature : Signature)
    (ix : InnerInstruction) : Except CoreError InnerInstructionPayload := do
  return ⟨← resolveProgramId codecs ix.programIdIndex segments signature, ix.data⟩

/-- Flattens the groups in outer-instruction order; nothing is filtered. -/
def extractInnerInstructions (info : SubscribeUpdateTransactionInfo) (signature : Signature) :
    Except CoreError (List InnerInstructionPayload) :=
  match info.meta_ with
  | none => .error (refuse codecs .meta_ signature)
  | some meta_ =>
    if meta_.innerInstructionsNone then .error (refuse codecs .innerInstructions signature)
    else do
      let accountKeys ← accountKeySegments codecs info meta_ signature
      let groups := orderBy (fun g => g.index.toNat) meta_.innerInstructions
      (groups.flatMap (·.instructions)).mapM (toPayload codecs accountKeys signature)

def fromGrpc (update : SubscribeUpdateTransaction) (timestamp : Instant) :
    Except CoreError OnChainTransaction :=
  match update.transaction with
  | none => .error (.missingField "" "transaction")
  | some info => do
    let signature ← extractSignature info
    let transactionIndex ← extractIndex codecs info signature
    let innerInstructions ← extractInnerInstructions codecs info signature
    return ⟨⟨signature, timestamp, update.slot, some transactionIndex⟩, innerInstructions⟩

end Grpc

namespace Rpc

structure UiPartiallyDecodedInstruction where
  programId : String
  data : String

inductive UiParsedInstruction where
  | parsed (programId : String)
  | partiallyDecoded (p : UiPartiallyDecodedInstruction)

inductive UiInstruction where
  | compiled (programIdIndex : UInt8) (data : String)
  | parsed (p : UiParsedInstruction)

structure UiInnerInstructions where
  index : UInt8
  instructions : List UiInstruction

inductive OptionSerializer (α : Type) where
  | some (a : α)
  | none
  | skip

structure UiTransactionStatusMeta where
  innerInstructions : OptionSerializer (List UiInnerInstructions)

inductive EncodedTransaction where
  | json (signatures : List String)
  | other

structure EncodedConfirmedTransactionWithStatusMeta where
  slot : UInt64
  transaction : EncodedTransaction
  meta_ : Option UiTransactionStatusMeta
  blockTime : Option Int
  transactionIndex : Option UInt32

variable (codecs : Codecs)

/-- The first signature is the transaction's id; the others are co-signers. -/
def extractSignature (tx : EncodedConfirmedTransactionWithStatusMeta) :
    Except CoreError Signature :=
  match tx.transaction with
  | .json signatures =>
    match signatures.head? with
    | none => .error (.missingField "" "signatures")
    | some text =>
      (codecs.texts.signature.parse text).mapError
        (fun e => .parseError "" ("invalid signature " ++ text ++ ": " ++ e))
  | .other => .error (.parseError "" "unexpected transaction encoding")

def extractTimestamp (tx : EncodedConfirmedTransactionWithStatusMeta) :
    Except CoreError Instant :=
  match tx.blockTime with
  | none => .error (.missingField "" "blockTime")
  | some blockTime =>
    match codecs.fromTimestamp blockTime with
    | some timestamp => .ok timestamp
    | none => .error (.parseError "" ("invalid timestamp: " ++ toString blockTime))

/-- `None` where the adapter cannot represent the instruction. -/
def toPayload : UiInstruction → Option InnerInstructionPayload
  | .parsed (.partiallyDecoded p) => do
    return ⟨← (codecs.texts.pubkey.parse p.programId).toOption,
      ← (codecs.base58.parse p.data).toOption⟩
  | _ => none

def extractInnerInstructions (tx : EncodedConfirmedTransactionWithStatusMeta)
    (signature : Signature) : Except CoreError (List InnerInstructionPayload) :=
  match tx.meta_ with
  | none => .error (refuse codecs .meta_ signature)
  | some meta_ =>
    match meta_.innerInstructions with
    | .some innerGroups =>
      let groups := orderBy (fun g => g.index.toNat) innerGroups
      .ok ((groups.flatMap (·.instructions)).filterMap (toPayload codecs))
    | _ => .error (refuse codecs .innerInstructions signature)

def fromRpc (tx : EncodedConfirmedTransactionWithStatusMeta) :
    Except CoreError OnChainTransaction := do
  let signature ← extractSignature codecs tx
  let timestamp ← extractTimestamp codecs tx
  let innerInstructions ← extractInnerInstructions codecs tx signature
  return ⟨⟨signature, timestamp, tx.slot, tx.transactionIndex⟩, innerInstructions⟩

end Rpc

end YogSothoth.Indexer
