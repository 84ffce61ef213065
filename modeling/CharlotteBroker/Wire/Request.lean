import CharlotteBroker.Wire.RecordBatch

/-!
# Request decoding

Every request decoder of `request.rs`.

* `decodeRequest` checks the length prefix, reads the header and dispatches on the API
  (`decodeBody`); nothing may be left over.
* A counted loop of the source is `Decoder.array`, with the checks of the loop's body inside the
  element's decoder.
* The topic entries of produce, fetch and list-offsets requests are a name and a list of partition
  entries; they share one type (`Topic`) and one decoder (`topic`), which refuses an empty name.

Group and offset requests carry fields the broker ignores (timeouts, protocol names, retention,
metadata); they are read and dropped, as in the source.
-/

namespace CharlotteBroker.Wire

open Lib Lib.Parser CharlotteBroker.Core

/-- Kafka request header version 1. Source: `request.rs`, `Header`. Kind: D -/
structure Header where
  apiKey : Int16
  apiVersion : Int16
  correlationId : Int32
  clientId : Option Bytes
  deriving DecidableEq, Repr

/-- A topic name with entries for its partitions.
Source: `request.rs`, `ProduceTopic`, `FetchTopic`, `ListOffsetsTopic`. Kind: D -/
structure Topic (α : Type) where
  name : Bytes
  partitions : List α
  deriving DecidableEq, Repr

/-- A topic entry: the name and the entries. -/
def topicField {α : Type} (item : α → Bytes) (topic : Topic α) : Bytes :=
  stringField topic.name ++ arrayField item topic.partitions

/-- Source: `request.rs`, `ProducePartition`. Kind: D -/
structure ProducePartition where
  partition : Int32
  records : List RecordData
  producer : Option (Int64 × Int16)
  deriving DecidableEq, Repr

/-- Source: `request.rs`, `FetchPartition`. Kind: D -/
structure FetchPartition where
  partition : Int32
  fetchOffset : Int64
  partitionMaxBytes : Int32
  deriving DecidableEq, Repr

/-- Source: `request.rs`, `ListOffsetsPartition`. Kind: D -/
structure ListOffsetsPartition where
  partition : Int32
  timestamp : Int64
  deriving DecidableEq, Repr

/-- The body of a decoded request. Source: `request.rs`, `RequestBody`. Kind: D -/
inductive RequestBody
  | apiVersions
  | findCoordinator (key : Bytes) (keyType : Int8)
  | initProducerId (transactionalId : Option Bytes) (timeoutMs : Int32)
  | addPartitionsToTxn (transactionalId : Bytes) (producerId : Int64) (producerEpoch : Int16)
      (topics : List (Topic Int32))
  | endTxn (transactionalId : Bytes) (producerId : Int64) (producerEpoch : Int16) (commit : Bool)
  | joinGroup (groupId memberId : Bytes) (subscriptions : List Bytes)
  | syncGroup (groupId : Bytes) (generation : Int32) (memberId assignment : Bytes)
  | heartbeat (groupId : Bytes) (generation : Int32) (memberId : Bytes)
  | leaveGroup (groupId memberId : Bytes)
  | offsetCommit (groupId : Bytes) (generation : Int32) (memberId topic : Bytes)
      (partition : Int32) (offset : Int64)
  | offsetFetch (groupId topic : Bytes) (partition : Int32)
  | metadata (topics : Option (List Bytes))
  | produce (transactionalId : Option Bytes) (acks : Int16) (timeoutMs : Int32)
      (topics : List (Topic ProducePartition))
  | fetch (replicaId maxWaitMs minBytes maxBytes : Int32) (readCommitted : Bool)
      (topics : List (Topic FetchPartition))
  | listOffsets (replicaId : Int32) (topics : List (Topic ListOffsetsPartition))
  deriving DecidableEq, Repr

/-- A decoded request frame. Source: `request.rs`, `Request`. Kind: D -/
structure Request where
  header : Header
  body : RequestBody
  deriving DecidableEq, Repr

/-! ## Bodies -/

/-- A byte field that may not be null. Source: `request.rs`, `bytes()?.ok_or(Error::Invalid)?`.
Kind: D -/
def requiredBytes : Decoder Bytes := do
  match ← Decoder.bytes with
  | some value => return value
  | none => throw .invalid

/-- A string that may not be empty. Source: `request.rs`, the `is_empty` tests. Kind: D -/
def nonEmptyString : Decoder Bytes := do
  let name ← Decoder.stringBytes
  reject (name = []) .invalid
  return name

/-- A flag: zero or one. Source: `request.rs`, `commit` and `isolation`. Kind: D -/
def flag : Decoder Bool := do
  let value ← Decoder.i8
  reject (value ≠ 0 ∧ value ≠ 1) .invalid
  return value ≠ 0

/-- A topic entry of a produce, fetch or list-offsets request.
Source: `request.rs`, `decode_produce`, `decode_fetch`, `decode_list_offsets`. Kind: D -/
def topic {α : Type} (item : Decoder α) : Decoder (Topic α) := do
  let name ← nonEmptyString
  let partitions ← Decoder.array item
  return ⟨name, partitions⟩

/-- Source: `request.rs`, `decode_find_coordinator`. Kind: D -/
def decodeFindCoordinator : Decoder RequestBody := do
  let key ← nonEmptyString
  let keyType ← Decoder.i8
  reject (keyType ≠ 0 ∧ keyType ≠ 1) .invalid
  return .findCoordinator key keyType

/-- Source: `request.rs`, `decode_init_producer_id`. Kind: D -/
def decodeInitProducerId : Decoder RequestBody := do
  let transactionalId ← Decoder.nullableStringBytes
  let timeoutMs ← Decoder.i32
  return .initProducerId transactionalId timeoutMs

/-- Source: `request.rs`, `decode_add_partitions_to_txn` (the inner loop). Kind: D -/
def txnPartition : Decoder Int32 := do
  let partition ← Decoder.i32
  reject (partition < 0) .invalid
  return partition

/-- A topic entry without the check for an empty name.
Source: `request.rs`, `decode_add_partitions_to_txn` (the outer loop). Kind: D -/
def txnTopic : Decoder (Topic Int32) := do
  let name ← Decoder.stringBytes
  let partitions ← Decoder.array txnPartition
  return ⟨name, partitions⟩

/-- Source: `request.rs`, `decode_add_partitions_to_txn`. Kind: D -/
def decodeAddPartitionsToTxn : Decoder RequestBody := do
  let transactionalId ← Decoder.stringBytes
  let producerId ← Decoder.i64
  let producerEpoch ← Decoder.i16
  let topics ← Decoder.array txnTopic
  return .addPartitionsToTxn transactionalId producerId producerEpoch topics

/-- Source: `request.rs`, `decode_end_txn`. Kind: D -/
def decodeEndTxn : Decoder RequestBody := do
  let transactionalId ← Decoder.stringBytes
  let producerId ← Decoder.i64
  let producerEpoch ← Decoder.i16
  let commit ← flag
  return .endTxn transactionalId producerId producerEpoch commit

/-- The subscription inside a join request. What follows it is not looked at.
Source: `request.rs`, `decode_join_group` (`metadata_decoder`). Kind: D -/
def decodeSubscription (metadata : Bytes) : Except Error (List Bytes) := do
  let (subscriptions, _) ← (do
    let _version ← Decoder.i16
    let subscriptions ← Decoder.array Decoder.stringBytes
    let _userData ← Decoder.bytes
    return subscriptions : Decoder (List Bytes)).run metadata
  return subscriptions

/-- Source: `request.rs`, `decode_join_group` (the closing loop). Kind: D -/
def skipProtocol : Decoder Unit := do
  let _name ← Decoder.stringBytes
  let _metadata ← requiredBytes
  return ()

/-- Source: `request.rs`, `decode_join_group`. Kind: D -/
def decodeJoinGroup : Decoder RequestBody := do
  let groupId ← Decoder.stringBytes
  let sessionTimeout ← Decoder.i32
  let rebalanceTimeout ← Decoder.i32
  reject (sessionTimeout < 0 ∨ rebalanceTimeout < 0) .invalid
  let memberId ← Decoder.stringBytes
  let _protocolType ← Decoder.stringBytes
  let protocols ← Decoder.arrayLen
  reject (protocols = 0) .invalid
  let _name ← Decoder.stringBytes
  let metadata ← requiredBytes
  let subscriptions ← Parser.ofExcept (decodeSubscription metadata)
  let _ ← many skipProtocol (protocols - 1)
  return .joinGroup groupId memberId subscriptions

/-- Source: `request.rs`, `decode_sync_group` (the loop). Kind: D -/
def memberAssignment : Decoder Bytes := do
  let _member ← Decoder.stringBytes
  requiredBytes

/-- The assignment kept is the first that is not empty.
Source: `request.rs`, `decode_sync_group` (the loop). Kind: D -/
def keptAssignment (assignments : List Bytes) : Bytes :=
  assignments.foldl (fun kept bytes => if kept.isEmpty then bytes else kept) []

/-- Source: `request.rs`, `decode_sync_group`. Kind: D -/
def decodeSyncGroup : Decoder RequestBody := do
  let groupId ← Decoder.stringBytes
  let generation ← Decoder.i32
  let memberId ← Decoder.stringBytes
  let assignments ← Decoder.array memberAssignment
  return .syncGroup groupId generation memberId (keptAssignment assignments)

/-- Source: `request.rs`, `decode_heartbeat`. Kind: D -/
def decodeHeartbeat : Decoder RequestBody := do
  let groupId ← Decoder.stringBytes
  let generation ← Decoder.i32
  let memberId ← Decoder.stringBytes
  return .heartbeat groupId generation memberId

/-- Source: `request.rs`, `decode_leave_group`. Kind: D -/
def decodeLeaveGroup : Decoder RequestBody := do
  let groupId ← Decoder.stringBytes
  let memberId ← Decoder.stringBytes
  return .leaveGroup groupId memberId

/-- Source: `request.rs`, `decode_offset_commit`. Kind: D -/
def decodeOffsetCommit : Decoder RequestBody := do
  let groupId ← Decoder.stringBytes
  let generation ← Decoder.i32
  let memberId ← Decoder.stringBytes
  let _retention ← Decoder.i64
  let topics ← Decoder.arrayLen
  reject (topics ≠ 1) .invalid
  let topic ← Decoder.stringBytes
  let partitions ← Decoder.arrayLen
  reject (partitions ≠ 1) .invalid
  let partition ← Decoder.i32
  let offset ← Decoder.i64
  let _metadata ← Decoder.nullableStringBytes
  return .offsetCommit groupId generation memberId topic partition offset

/-- Source: `request.rs`, `decode_offset_fetch`. Kind: D -/
def decodeOffsetFetch : Decoder RequestBody := do
  let groupId ← Decoder.stringBytes
  let topics ← Decoder.arrayLen
  reject (topics ≠ 1) .invalid
  let topic ← Decoder.stringBytes
  let partitions ← Decoder.arrayLen
  reject (partitions ≠ 1) .invalid
  let partition ← Decoder.i32
  return .offsetFetch groupId topic partition

/-- Source: `request.rs`, `decode_metadata`. Kind: D -/
def decodeMetadata : Decoder RequestBody := do
  match ← Decoder.nullableArrayLen with
  | none => return .metadata none
  | some count => return .metadata (some (← many nonEmptyString count))

/-- Source: `request.rs`, `decode_produce` (the inner loop). Kind: D -/
def producePartition : Decoder ProducePartition := do
  let partition ← Decoder.i32
  let recordSet ← requiredBytes
  let decoded ← Parser.ofExcept (decodeRecordBatchesWithIdentity recordSet)
  reject (decoded.records = []) .invalid
  return ⟨partition, decoded.records, decoded.producer⟩

/-- Source: `request.rs`, `decode_produce`. Kind: D -/
def decodeProduce : Decoder RequestBody := do
  let transactionalId ← Decoder.nullableStringBytes
  let acks ← Decoder.i16
  let timeoutMs ← Decoder.i32
  let topics ← Decoder.array (topic producePartition)
  return .produce transactionalId acks timeoutMs topics

/-- Source: `request.rs`, `decode_fetch` (the inner loop). Kind: D -/
def fetchPartition : Decoder FetchPartition := do
  let partition ← Decoder.i32
  let fetchOffset ← Decoder.i64
  let partitionMaxBytes ← Decoder.i32
  reject (partitionMaxBytes < 0) .invalid
  return ⟨partition, fetchOffset, partitionMaxBytes⟩

/-- Source: `request.rs`, `decode_fetch`. Kind: D -/
def decodeFetch : Decoder RequestBody := do
  let replicaId ← Decoder.i32
  let maxWaitMs ← Decoder.i32
  let minBytes ← Decoder.i32
  let maxBytes ← Decoder.i32
  reject (maxWaitMs < 0 ∨ minBytes < 0 ∨ maxBytes < 0) .invalid
  let readCommitted ← flag
  let topics ← Decoder.array (topic fetchPartition)
  return .fetch replicaId maxWaitMs minBytes maxBytes readCommitted topics

/-- Source: `request.rs`, `decode_list_offsets` (the inner loop). Kind: D -/
def listOffsetsPartition : Decoder ListOffsetsPartition := do
  let partition ← Decoder.i32
  let timestamp ← Decoder.i64
  return ⟨partition, timestamp⟩

/-- Source: `request.rs`, `decode_list_offsets`. Kind: D -/
def decodeListOffsets : Decoder RequestBody := do
  let replicaId ← Decoder.i32
  let topics ← Decoder.array (topic listOffsetsPartition)
  return .listOffsets replicaId topics

/-! ## Frames -/

/-- Source: `request.rs`, `decode_request` (the arms of the `match`). Kind: D -/
def decodeBody : Api → Decoder RequestBody
  | .apiVersions => return .apiVersions
  | .findCoordinator => decodeFindCoordinator
  | .initProducerId => decodeInitProducerId
  | .addPartitionsToTxn => decodeAddPartitionsToTxn
  | .endTxn => decodeEndTxn
  | .joinGroup => decodeJoinGroup
  | .syncGroup => decodeSyncGroup
  | .heartbeat => decodeHeartbeat
  | .leaveGroup => decodeLeaveGroup
  | .offsetCommit => decodeOffsetCommit
  | .offsetFetch => decodeOffsetFetch
  | .metadata => decodeMetadata
  | .produce => decodeProduce
  | .fetch => decodeFetch
  | .listOffsets => decodeListOffsets

/-- The payload of a frame.
Source: `request.rs`, `decode_request` (after the length checks). Kind: D -/
def requestFields : Decoder Request := do
  let apiKey ← Decoder.i16
  let apiVersion ← Decoder.i16
  let correlationId ← Decoder.i32
  let clientId ← Decoder.nullableStringBytes
  reject (isSupportedApi apiKey = false) .unsupportedApi
  match Api.find? apiKey apiVersion with
  | none => throw .unsupportedVersion
  | some api =>
      let body ← decodeBody api
      return ⟨⟨apiKey, apiVersion, correlationId, clientId⟩, body⟩

/-- Decodes one length-prefixed frame. Fewer than four bytes are incomplete, as any short read.
Source: `request.rs`, `decode_request`. Kind: D -/
def decodeRequest (frame : Bytes) : Except Error Request := do
  let (declared, payload) ← Decoder.i32.run frame
  if declared < 0 then throw .invalid
  else if maxFrameLen < declared.toInt.toNat then throw .tooLarge
  else if declared.toInt.toNat + 4 ≠ frame.length then throw .incomplete
  else whole .invalid requestFields payload

/-- Reads only the fixed header fields, for the downgrade response of `ApiVersions`. The frame's
length prefix is skipped unread. Source: `request.rs`, `peek_header`. Kind: D -/
def peekHeader (frame : Bytes) : Except Error Header := do
  let (header, _) ← (do
    let _declared ← Decoder.i32
    let apiKey ← Decoder.i16
    let apiVersion ← Decoder.i16
    let correlationId ← Decoder.i32
    return ⟨apiKey, apiVersion, correlationId, none⟩ : Decoder Header).run frame
  return header

end CharlotteBroker.Wire
