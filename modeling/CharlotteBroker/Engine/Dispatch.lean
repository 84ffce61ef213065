import CharlotteBroker.Runtime.Calls
import CharlotteBroker.Wire.Response

/-!
# Request dispatch

The engine of `engine.rs`: it decodes a frame, makes the broker calls of the request, and encodes
the answer. A handler is a program over the shards (`EngineM`) that ends in the response frame or in
the encoder's error; the operation comes first and the encoding last, as in the source.

* The handlers that visit every partition of every topic share one loop (`eachPartition`).
* `Engine.handle` runs a frame alone, with no mailbox failure, and `Engine.after` a list of frames
  from a started broker.

Fixed-width fields of requests become integers where they enter the broker, and the broker's
integers become fixed-width fields where they leave it.
-/

namespace CharlotteBroker

open Std CharlotteBroker.Core Lib CharlotteBroker.Runtime Wire

/-- Source: `engine.rs`, `DEFAULT_MAX_FETCH_RECORDS`. Kind: D -/
def defaultMaxFetchRecords : ℕ := 1024

/-- Source: `engine.rs`, `DEFAULT_MAX_FETCH_BYTES`. Kind: D -/
def defaultMaxFetchBytes : ℕ := 1024 * 1024

/-- How the broker identifies itself in metadata responses.
Source: `engine.rs`, `BrokerIdentity`. Kind: D -/
structure BrokerIdentity where
  nodeId : Int32
  host : Bytes
  port : Int32
  deriving DecidableEq, Repr

/-- Source: `engine.rs`, `EngineConfig`. Kind: D -/
structure EngineConfig where
  identity : BrokerIdentity
  maxFetchRecords : ℕ
  maxFetchBytes : ℕ
  deriving DecidableEq, Repr

/-- A configuration with the default fetch bounds.
Source: `engine.rs`, `EngineConfig::new`. Kind: D -/
def EngineConfig.new (identity : BrokerIdentity) : EngineConfig :=
  ⟨identity, defaultMaxFetchRecords, defaultMaxFetchBytes⟩

/-- The engine, with what the broker behind it was started with.
Source: `engine.rs`, `Engine`. Kind: D -/
structure Engine where
  broker : ShardConfig
  identity : BrokerIdentity
  maxFetchRecords : ℕ
  maxFetchBytes : ℕ

/-- A handler over the shards of the broker. -/
abbrev EngineM (n : ℕ) : Type → Type := Prog (Fin n) PartitionCommand PartitionResult

/-! ## Error codes -/

/-- Source: `engine.rs`, `error_code`. Kind: D -/
def errorCode : BrokerError → Int16
  | .core .unknownTopic | .core .unknownPartition => unknownTopicOrPartition
  | .core .offsetOutOfRange => Wire.offsetOutOfRange
  | _ => unknownServerError

/-- Source: `engine.rs`, `coordination_error_code`, `broker_error_code`. Kind: D -/
def coordinationErrorCode : BrokerError → Int16
  | .coordination .producerFenced => invalidProducerEpoch
  | .coordination .invalidTransactionState => invalidTxnState
  | .coordination _ => invalidRequest
  | other => errorCode other

/-- Source: `engine.rs`, `.map_or_else(coordination_error_code, |_| NO_ERROR)`. Kind: D -/
def resultCode {α : Type} : Except BrokerError α → Int16
  | .ok _ => noError
  | .error error => coordinationErrorCode error

/-! ## Helpers -/

/-- The subscription metadata of one member.
Source: `engine.rs`, `encode_subscription` (the pushes). Kind: D -/
def subscriptionFields (topics : List Bytes) : Encoder Unit := do
  Encoder.i16 0
  Encoder.i32 (Int32.ofNat topics.length)
  Printer.each topics fun topic => do
    Printer.refuse (2 ^ 15 - 1 < topic.length) .tooLarge
    Encoder.i16 (Int16.ofNat topic.length)
    Printer.put topic
  Encoder.i32 (-1)

/-- Source: `engine.rs`, `encode_subscription`. Kind: D -/
def encodeSubscription (topics : List Bytes) : Except Error Bytes := do
  let ((), bytes) ← (subscriptionFields topics).run []
  return bytes

/-- The digits of a number, written from the last one back into a buffer of that many places.
Source: `engine.rs`, `generated_member_id` (the `while`). Kind: D -/
def pushDigits : ℕ → ℕ → Bytes → Bytes
  | 0, _, digits => digits
  | places + 1, value, digits =>
      if 0 < value then pushDigits places (value / 10) (UInt8.ofNat (48 + value % 10) :: digits)
      else digits

/-- Source: `engine.rs`, `generated_member_id`. Kind: D -/
def generatedMemberId (correlationId : Int32) : Bytes :=
  let value := correlationId.toInt.natAbs
  [109, 101, 109, 98, 101, 114, 45] ++ if value = 0 then [48] else pushDigits 12 value []

/-- The member id a join is made under.
Source: `engine.rs`, `join_group` (`member_id`). Kind: D -/
def joiningMemberId (correlationId : Int32) (memberId : Bytes) : Bytes :=
  if memberId.isEmpty then generatedMemberId correlationId else memberId

/-- The protocol name of an accepted join, `charlotte-fixed-v1`. -/
def fixedProtocol : Bytes :=
  [99, 104, 97, 114, 108, 111, 116, 116, 101, 45, 102, 105, 120, 101, 100, 45, 118, 49]

/-- The handler's loop over the partitions of the topics. -/
def eachPartition {n : ℕ} {α β : Type} (topics : List (Topic α)) (f : Bytes → α → EngineM n β) :
    EngineM n (List (Topic β)) :=
  topics.mapM fun topic => do
    let partitions ← topic.partitions.mapM (f topic.name)
    return ⟨topic.name, partitions⟩

namespace Engine

/-- Source: `engine.rs`, `Engine::new`. Kind: D -/
def new (broker : ShardConfig) (config : EngineConfig) : Engine :=
  ⟨broker, config.identity, config.maxFetchRecords, config.maxFetchBytes⟩

variable (engine : Engine)

/-! ## Answers without a broker call -/

/-- Source: `engine.rs`, `partitions`. Kind: D -/
def partitions (count : Int) : List PartitionMetadata :=
  (List.range count.toNat).map fun partition =>
    ⟨noError, Int32.ofNat partition, engine.identity.nodeId, [engine.identity.nodeId],
      [engine.identity.nodeId]⟩

/-- Source: `engine.rs`, `metadata` (`response_topics`). Kind: D -/
def metadataTopics : Option (List Bytes) → List Wire.TopicMetadata
  | none =>
      engine.broker.catalog.metadata.map fun topic =>
        ⟨noError, topic.name, false, engine.partitions topic.partitions⟩
  | some names =>
      names.map fun name =>
        match engine.broker.catalog.partitionCount name with
        | some partitions => ⟨noError, name, false, engine.partitions partitions⟩
        | none => ⟨unknownTopicOrPartition, name, false, []⟩

/-- Source: `engine.rs`, `metadata`. Kind: D -/
def metadata (correlationId : Int32) (topics : Option (List Bytes)) : Except Error Bytes :=
  encodeMetadata correlationId
    { brokers := [⟨engine.identity.nodeId, engine.identity.host, engine.identity.port⟩]
      controllerId := engine.identity.nodeId
      topics := engine.metadataTopics topics }

/-- Source: `engine.rs`, `find_coordinator`. Kind: D -/
def findCoordinator (correlationId : Int32) : Except Error Bytes :=
  encodeFindCoordinator correlationId
    ⟨noError, engine.identity.nodeId, engine.identity.host, engine.identity.port⟩

/-- Nothing but the assignment is looked at. Source: `engine.rs`, `sync_group`. Kind: D -/
def syncGroup (correlationId : Int32) (assignment : Bytes) : Except Error Bytes :=
  encodeSyncGroup correlationId noError assignment

/-! ## What is made of the broker's results -/

/-- Source: `engine.rs`, `init_producer` (the inner `match`). Kind: D -/
def initProducerResult : Except BrokerError ProducerIdentity → InitProducerIdResponse
  | .ok identity => ⟨noError, Int64.ofInt identity.id, Int16.ofInt identity.epoch⟩
  | .error _ => ⟨unknownServerError, -1, -1⟩

/-- Source: `engine.rs`, `join_group` (`match result`). Kind: D -/
def joinResult (correlationId : Int32) (memberId : Bytes) (subscriptions : List Bytes) :
    Except BrokerError (Int × List GroupAssignment) → Except Error Bytes
  | .ok (generation, assignments) => do
      let members ← assignments.mapM fun assignment => do
        return (assignment.memberId, ← encodeSubscription subscriptions)
      encodeJoinGroup correlationId
        ⟨noError, Int32.ofInt generation, fixedProtocol, memberId, memberId, members⟩
  | .error error =>
      encodeJoinGroup correlationId ⟨coordinationErrorCode error, -1, [], [], memberId, []⟩

/-- Source: `engine.rs`, `offset_fetch`. Kind: D -/
def offsetFetchResult (correlationId : Int32) (topic : Bytes) (partition : Int32) :
    Except BrokerError (Option Int) → Except Error Bytes
  | .ok (some offset) =>
      encodeOffsetFetch correlationId topic partition (Int64.ofInt offset) noError
  | .ok none => encodeOffsetFetch correlationId topic partition (-1) noError
  | .error error =>
      encodeOffsetFetch correlationId topic partition (-1) (coordinationErrorCode error)

/-- Source: `engine.rs`, `produce` (`match result`). Kind: D -/
def produceResult (partition : Int32) : Except BrokerError Int → ProducePartitionResult
  | .ok baseOffset => ⟨partition, noError, Int64.ofInt baseOffset, -1⟩
  | .error error => ⟨partition, errorCode error, -1, -1⟩

/-- Source: `engine.rs`, `fetch` (the inner `match`). Kind: D -/
def fetchResult (partition : Int32) :
    Except BrokerError FetchWindow → FetchPartitionResult (List Record)
  | .ok window =>
      ⟨partition, noError, Int64.ofInt window.highWatermark, Int64.ofInt window.lastStableOffset,
        none, window.records⟩
  | .error error => ⟨partition, errorCode error, -1, -1, none, []⟩

/-- Source: `engine.rs`, `list_offsets` (the inner `match`). Kind: D -/
def listOffsetsResult (partition : Int32) : Except BrokerError Int → ListOffsetsPartitionResult
  | .ok offset => ⟨partition, noError, -1, Int64.ofInt offset⟩
  | .error error => ⟨partition, errorCode error, -1, -1⟩

/-- The byte budget of one partition. Source: `engine.rs`, `fetch` (`max_bytes`). Kind: D -/
def fetchBudget (requestMaxBytes partitionMaxBytes : Int32) : ℕ :=
  min (max (min partitionMaxBytes.toInt requestMaxBytes.toInt) 0).toNat engine.maxFetchBytes

/-! ## Handlers -/

variable {n : ℕ} [NeZero n]

/-- Source: `engine.rs`, `init_producer`. Kind: D -/
def initProducer (correlationId : Int32) : Option Bytes → EngineM n (Except Error Bytes)
  | some transactionalId => do
      let result ← (Runtime.initProducer transactionalId).run
      return encodeInitProducerId correlationId (initProducerResult result)
  | none => return encodeInitProducerId correlationId ⟨invalidRequest, -1, -1⟩

/-- Source: `engine.rs`, `join_group`. Kind: D -/
def joinGroup (correlationId : Int32) (groupId memberId : Bytes) (subscriptions : List Bytes) :
    EngineM n (Except Error Bytes) := do
  let memberId := joiningMemberId correlationId memberId
  let result ← (Runtime.joinGroup engine.broker.catalog groupId memberId subscriptions).run
  return joinResult correlationId memberId subscriptions result

/-- Source: `engine.rs`, `heartbeat`. Kind: D -/
def heartbeat (correlationId : Int32) (groupId memberId : Bytes) (generation : Int32) :
    EngineM n (Except Error Bytes) := do
  let result ← (heartbeatGroup groupId memberId generation.toInt).run
  return encodeGroupError correlationId (resultCode result)

/-- Source: `engine.rs`, `leave_group`. Kind: D -/
def leaveGroup (correlationId : Int32) (groupId memberId : Bytes) :
    EngineM n (Except Error Bytes) := do
  let result ← (leaveGroupAny groupId memberId).run
  return encodeGroupError correlationId (resultCode result)

/-- The member id of the request does not reach this handler.
Source: `engine.rs`, `offset_commit`. Kind: D -/
def offsetCommit (correlationId : Int32) (groupId : Bytes) (generation : Int32) (topic : Bytes)
    (partition : Int32) (offset : Int64) : EngineM n (Except Error Bytes) := do
  let result ←
    (commitGroupOffset groupId generation.toInt topic partition.toInt offset.toInt).run
  return encodeOffsetCommit correlationId topic partition (resultCode result)

/-- Source: `engine.rs`, `offset_fetch`. Kind: D -/
def offsetFetch (correlationId : Int32) (groupId topic : Bytes) (partition : Int32) :
    EngineM n (Except Error Bytes) := do
  let result ← (groupOffset groupId topic partition.toInt).run
  return offsetFetchResult correlationId topic partition result

/-- Source: `engine.rs`, `produce` (the closure over one partition). Kind: D -/
def producePartition (transactionalId : Option Bytes) (name : Bytes)
    (partition : ProducePartition) : EngineM n ProducePartitionResult :=
  match transactionalId, partition.producer with
  | some _, none => return ⟨partition.partition, unsupportedVersion, -1, -1⟩
  | some id, some (producerId, producerEpoch) => do
      let result ← (produceTransactional engine.broker.catalog id
        ⟨producerId.toInt, producerEpoch.toInt⟩ name partition.partition.toInt
        partition.records).run
      return produceResult partition.partition result
  | none, _ => do
      let result ← (Runtime.produce engine.broker.catalog name partition.partition.toInt
        partition.records).run
      return produceResult partition.partition result

/-- Source: `engine.rs`, `produce`. Kind: D -/
def produce (correlationId : Int32) (transactionalId : Option Bytes)
    (topics : List (Topic ProducePartition)) : EngineM n (Except Error Bytes) := do
  let topics ← eachPartition topics (engine.producePartition transactionalId)
  return encodeProduce correlationId ⟨topics, 0⟩

/-- Source: `engine.rs`, `add_partitions_to_txn` (the closure over one partition). Kind: D -/
def addPartition (transactionalId : Bytes) (producer : ProducerIdentity) (topic : Bytes)
    (partition : Int32) : EngineM n (Int32 × Int16) := do
  let result ← (addTransactionPartition transactionalId producer topic partition.toInt).run
  return (partition, resultCode result)

/-- Source: `engine.rs`, `add_partitions_to_txn`. Kind: D -/
def addPartitionsToTxn (correlationId : Int32) (transactionalId : Bytes) (producerId : Int64)
    (producerEpoch : Int16) (topics : List (Topic Int32)) : EngineM n (Except Error Bytes) := do
  let topics ←
    eachPartition topics (addPartition transactionalId ⟨producerId.toInt, producerEpoch.toInt⟩)
  return encodeAddPartitionsToTxn correlationId topics

/-- Source: `engine.rs`, `end_txn`. Kind: D -/
def endTxn (correlationId : Int32) (transactionalId : Bytes) (producerId : Int64)
    (producerEpoch : Int16) (commit : Bool) : EngineM n (Except Error Bytes) := do
  let result ←
    (endTransaction transactionalId ⟨producerId.toInt, producerEpoch.toInt⟩ commit).run
  return encodeEndTxn correlationId (resultCode result)

/-- Source: `engine.rs`, `fetch` (the closure over one partition). Kind: D -/
def fetchPartition (requestMaxBytes : Int32) (readCommitted : Bool) (name : Bytes)
    (partition : FetchPartition) : EngineM n (FetchPartitionResult (List Record)) := do
  let result ← (fetchWithIsolation engine.broker.catalog name partition.partition.toInt
    partition.fetchOffset.toInt engine.maxFetchRecords
    (engine.fetchBudget requestMaxBytes partition.partitionMaxBytes) readCommitted).run
  return fetchResult partition.partition result

/-- Source: `engine.rs`, `fetch`. Kind: D -/
def fetch (correlationId requestMaxBytes : Int32) (readCommitted : Bool)
    (topics : List (Topic FetchPartition)) : EngineM n (Except Error Bytes) := do
  let topics ← eachPartition topics (engine.fetchPartition requestMaxBytes readCommitted)
  return encodeFetch correlationId ⟨0, topics⟩

/-- Source: `engine.rs`, `list_offsets` (the closure over one partition). Kind: D -/
def listOffsetsPartition (name : Bytes) (partition : ListOffsetsPartition) :
    EngineM n ListOffsetsPartitionResult :=
  if partition.timestamp = -2 ∨ partition.timestamp = -1 then do
    let result ← (listOffset engine.broker.catalog name partition.partition.toInt
      (partition.timestamp = -2)).run
    return listOffsetsResult partition.partition result
  else return ⟨partition.partition, unsupportedVersion, -1, -1⟩

/-- Source: `engine.rs`, `list_offsets`. Kind: D -/
def listOffsets (correlationId : Int32) (topics : List (Topic ListOffsetsPartition)) :
    EngineM n (Except Error Bytes) := do
  let topics ← eachPartition topics engine.listOffsetsPartition
  return encodeListOffsets correlationId topics

/-! ## Dispatch -/

/-- Source: `engine.rs`, `handle_request`. Kind: D -/
def handleRequest (request : Request) : EngineM n (Except Error Bytes) :=
  let correlationId := request.header.correlationId
  match request.body with
  | .apiVersions => return encodeApiVersionsError correlationId noError supportedVersions
  | .findCoordinator _ _ => return engine.findCoordinator correlationId
  | .initProducerId transactionalId _ => initProducer correlationId transactionalId
  | .addPartitionsToTxn transactionalId producerId producerEpoch topics =>
      addPartitionsToTxn correlationId transactionalId producerId producerEpoch topics
  | .endTxn transactionalId producerId producerEpoch commit =>
      endTxn correlationId transactionalId producerId producerEpoch commit
  | .joinGroup groupId memberId subscriptions =>
      engine.joinGroup correlationId groupId memberId subscriptions
  | .syncGroup _ _ _ assignment => return syncGroup correlationId assignment
  | .heartbeat groupId generation memberId => heartbeat correlationId groupId memberId generation
  | .leaveGroup groupId memberId => leaveGroup correlationId groupId memberId
  | .offsetCommit groupId generation _ topic partition offset =>
      offsetCommit correlationId groupId generation topic partition offset
  | .offsetFetch groupId topic partition => offsetFetch correlationId groupId topic partition
  | .metadata topics => return engine.metadata correlationId topics
  | .produce transactionalId _ _ topics => engine.produce correlationId transactionalId topics
  | .fetch _ _ _ maxBytes readCommitted topics =>
      engine.fetch correlationId maxBytes readCommitted topics
  | .listOffsets _ topics => engine.listOffsets correlationId topics

/-- The answer to a frame of an unsupported version: the versions, for `ApiVersions` alone.
Source: `engine.rs`, `handle_frame` (the downgrade). Kind: D -/
def downgrade (frame : Bytes) : Except Error Bytes :=
  match peekHeader frame with
  | .ok header =>
      if header.apiKey = Api.key .apiVersions then
        encodeApiVersionsError header.correlationId unsupportedVersion supportedVersions
      else .error .unsupportedVersion
  | .error _ => .error .unsupportedVersion

/-- Source: `engine.rs`, `handle_frame`. Kind: D -/
def handleFrame (frame : Bytes) : EngineM n (Except Error Bytes) :=
  match decodeRequest frame with
  | .ok request => engine.handleRequest request
  | .error .unsupportedVersion => return downgrade frame
  | .error error => return .error error

/-! ## Alone: frames one after another -/

/-- A frame handled while no other is and no mailbox fails. -/
def handle (shards : Fin n → Shard) (frame : Bytes) : (Fin n → Shard) × Except Error Bytes :=
  Prog.exec (serve engine.broker) shards (engine.handleFrame frame)

/-- The shards of a started broker after a list of frames. -/
def after (n : ℕ) [NeZero n] (frames : List Bytes) : Fin n → Shard :=
  frames.foldl (fun shards frame => (engine.handle shards frame).1) (startShards n)

end Engine

/-- An engine with the default bounds over a broker with one topic of two partitions. -/
def oneTopicEngine : Engine := .new oneTopic (.new ⟨0, [104], 9092⟩)

end CharlotteBroker
