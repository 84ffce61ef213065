import CharlotteBroker.Wire.Request

/-!
# Response encoding

Every response encoder of `response.rs`.

* Each encoder has a layout (`metadataBody`, `fetchBody`, ...) and a lemma `prints_...` that says
  when it succeeds and that it then writes the layout. The conditions are the bounds on strings,
  arrays and byte fields; fixed-width fields always fit.
* Topic entries reuse `Topic`. A fetch result is generic in its record field: the broker's response
  holds records, the bytes on the wire hold a record set.

The unused `encode_api_versions` wrapper is the case `noError` of `encodeApiVersionsError`.
-/

namespace CharlotteBroker.Wire

open Lib Lib.Parser Lib.Printer CharlotteBroker.Core

/-! ## Responses -/

/-- Source: `response.rs`, `BrokerMetadata`. Kind: D -/
structure BrokerMetadata where
  nodeId : Int32
  host : Bytes
  port : Int32
  deriving DecidableEq, Repr

/-- Source: `response.rs`, `PartitionMetadata`. Kind: D -/
structure PartitionMetadata where
  error : Int16
  partition : Int32
  leader : Int32
  replicas : List Int32
  isr : List Int32
  deriving DecidableEq, Repr

/-- Source: `response.rs`, `TopicMetadata`. Kind: D -/
structure TopicMetadata where
  error : Int16
  name : Bytes
  isInternal : Bool
  partitions : List PartitionMetadata
  deriving DecidableEq, Repr

/-- Source: `response.rs`, `MetadataResponse`. Kind: D -/
structure MetadataResponse where
  brokers : List BrokerMetadata
  controllerId : Int32
  topics : List TopicMetadata
  deriving DecidableEq, Repr

/-- Source: `response.rs`, `FindCoordinatorResponse`. Kind: D -/
structure FindCoordinatorResponse where
  error : Int16
  nodeId : Int32
  host : Bytes
  port : Int32
  deriving DecidableEq, Repr

/-- Source: `response.rs`, `InitProducerIdResponse`. Kind: D -/
structure InitProducerIdResponse where
  error : Int16
  producerId : Int64
  producerEpoch : Int16
  deriving DecidableEq, Repr

/-- Source: `response.rs`, `JoinGroupResponse`. Kind: D -/
structure JoinGroupResponse where
  error : Int16
  generation : Int32
  protocol : Bytes
  leader : Bytes
  memberId : Bytes
  members : List (Bytes × Bytes)
  deriving DecidableEq, Repr

/-- Source: `response.rs`, `ProducePartitionResult`. Kind: D -/
structure ProducePartitionResult where
  partition : Int32
  error : Int16
  baseOffset : Int64
  logAppendTimeMs : Int64
  deriving DecidableEq, Repr

/-- Source: `response.rs`, `ProduceResponse`. Kind: D -/
structure ProduceResponse where
  topics : List (Topic ProducePartitionResult)
  throttleTimeMs : Int32
  deriving DecidableEq, Repr

/-- Source: `response.rs`, `FetchPartitionResult`, with a record field of any type. Kind: D -/
structure FetchPartitionResult (ρ : Type) where
  partition : Int32
  error : Int16
  highWatermark : Int64
  lastStableOffset : Int64
  abortedTransactions : Option (List (Int64 × Int64))
  records : ρ
  deriving DecidableEq, Repr

/-- Source: `response.rs`, `FetchResponse`. Kind: D -/
structure FetchResponse (ρ : Type) where
  throttleTimeMs : Int32
  topics : List (Topic (FetchPartitionResult ρ))
  deriving DecidableEq, Repr

/-- Source: `response.rs`, `ListOffsetsPartitionResult`. Kind: D -/
structure ListOffsetsPartitionResult where
  partition : Int32
  error : Int16
  timestampMs : Int64
  offset : Int64
  deriving DecidableEq, Repr

/-! ## Encoders -/

/-- A topic entry: the name and the partition entries. -/
def encodeTopic {α : Type} (item : α → Encoder Unit) (topic : Topic α) : Encoder Unit := do
  Encoder.string topic.name
  Encoder.array topic.partitions item

/-- Source: `response.rs`, `encode_api_versions_error` (the loop). Kind: D -/
def encodeVersion (entry : Int16 × Int16 × Int16) : Encoder Unit := do
  Encoder.i16 entry.1
  Encoder.i16 entry.2.1
  Encoder.i16 entry.2.2

/-- Source: `response.rs`, `encode_api_versions_error`. Kind: D -/
def encodeApiVersionsError (correlationId : Int32) (error : Int16)
    (versions : List (Int16 × Int16 × Int16)) : Except Error Bytes :=
  Encoder.response correlationId do
    Encoder.i16 error
    Encoder.array versions encodeVersion

/-- Source: `response.rs`, `encode_metadata` (the loop over the brokers). Kind: D -/
def encodeBroker (broker : BrokerMetadata) : Encoder Unit := do
  Encoder.i32 broker.nodeId
  Encoder.string broker.host
  Encoder.i32 broker.port
  Encoder.nullableString none

/-- Source: `response.rs`, `encode_metadata` (the loop over the partitions). Kind: D -/
def encodePartitionMetadata (partition : PartitionMetadata) : Encoder Unit := do
  Encoder.i16 partition.error
  Encoder.i32 partition.partition
  Encoder.i32 partition.leader
  Encoder.array partition.replicas Encoder.i32
  Encoder.array partition.isr Encoder.i32

/-- Source: `response.rs`, `encode_metadata` (the loop over the topics). Kind: D -/
def encodeTopicMetadata (topic : TopicMetadata) : Encoder Unit := do
  Encoder.i16 topic.error
  Encoder.string topic.name
  Encoder.bool topic.isInternal
  Encoder.array topic.partitions encodePartitionMetadata

/-- Source: `response.rs`, `encode_metadata`. Kind: D -/
def encodeMetadata (correlationId : Int32) (response : MetadataResponse) : Except Error Bytes :=
  Encoder.response correlationId do
    Encoder.array response.brokers encodeBroker
    Encoder.i32 response.controllerId
    Encoder.array response.topics encodeTopicMetadata

/-- Source: `response.rs`, `encode_find_coordinator`. Kind: D -/
def encodeFindCoordinator (correlationId : Int32) (response : FindCoordinatorResponse) :
    Except Error Bytes :=
  Encoder.response correlationId do
    Encoder.i32 0
    Encoder.i16 response.error
    Encoder.nullableString none
    Encoder.i32 response.nodeId
    Encoder.string response.host
    Encoder.i32 response.port

/-- Source: `response.rs`, `encode_init_producer_id`. Kind: D -/
def encodeInitProducerId (correlationId : Int32) (response : InitProducerIdResponse) :
    Except Error Bytes :=
  Encoder.response correlationId do
    Encoder.i32 0
    Encoder.i16 response.error
    Encoder.i64 response.producerId
    Encoder.i16 response.producerEpoch

/-- Source: `response.rs`, `encode_add_partitions_to_txn` (the inner loop). Kind: D -/
def encodeTxnPartition (entry : Int32 × Int16) : Encoder Unit := do
  Encoder.i32 entry.1
  Encoder.i16 entry.2

/-- Source: `response.rs`, `encode_add_partitions_to_txn`. Kind: D -/
def encodeAddPartitionsToTxn (correlationId : Int32) (topics : List (Topic (Int32 × Int16))) :
    Except Error Bytes :=
  Encoder.response correlationId do
    Encoder.i32 0
    Encoder.array topics (encodeTopic encodeTxnPartition)

/-- Source: `response.rs`, `encode_end_txn`. Kind: D -/
def encodeEndTxn (correlationId : Int32) (error : Int16) : Except Error Bytes :=
  Encoder.response correlationId do
    Encoder.i32 0
    Encoder.i16 error

/-- Source: `response.rs`, `encode_join_group` (the loop). Kind: D -/
def encodeMember (member : Bytes × Bytes) : Encoder Unit := do
  Encoder.string member.1
  Encoder.bytes member.2

/-- Source: `response.rs`, `encode_join_group`. Kind: D -/
def encodeJoinGroup (correlationId : Int32) (response : JoinGroupResponse) : Except Error Bytes :=
  Encoder.response correlationId do
    Encoder.i16 response.error
    Encoder.i32 response.generation
    Encoder.string response.protocol
    Encoder.string response.leader
    Encoder.string response.memberId
    Encoder.array response.members encodeMember

/-- Source: `response.rs`, `encode_sync_group`. Kind: D -/
def encodeSyncGroup (correlationId : Int32) (error : Int16) (assignment : Bytes) :
    Except Error Bytes :=
  Encoder.response correlationId do
    Encoder.i16 error
    Encoder.bytes assignment

/-- Source: `response.rs`, `encode_group_error`. Kind: D -/
def encodeGroupError (correlationId : Int32) (error : Int16) : Except Error Bytes :=
  Encoder.response correlationId (Encoder.i16 error)

/-- Source: `response.rs`, `encode_offset_fetch`. Kind: D -/
def encodeOffsetFetch (correlationId : Int32) (topic : Bytes) (partition : Int32) (offset : Int64)
    (error : Int16) : Except Error Bytes :=
  Encoder.response correlationId do
    Encoder.arrayLen 1
    Encoder.string topic
    Encoder.arrayLen 1
    Encoder.i32 partition
    Encoder.i64 offset
    Encoder.nullableString none
    Encoder.i16 error

/-- Source: `response.rs`, `encode_offset_commit`. Kind: D -/
def encodeOffsetCommit (correlationId : Int32) (topic : Bytes) (partition : Int32)
    (error : Int16) : Except Error Bytes :=
  Encoder.response correlationId do
    Encoder.arrayLen 1
    Encoder.string topic
    Encoder.arrayLen 1
    Encoder.i32 partition
    Encoder.i16 error

/-- Source: `response.rs`, `encode_produce` (the inner loop). Kind: D -/
def encodeProducePartition (partition : ProducePartitionResult) : Encoder Unit := do
  Encoder.i32 partition.partition
  Encoder.i16 partition.error
  Encoder.i64 partition.baseOffset
  Encoder.i64 partition.logAppendTimeMs

/-- Source: `response.rs`, `encode_produce`. Kind: D -/
def encodeProduce (correlationId : Int32) (response : ProduceResponse) : Except Error Bytes :=
  Encoder.response correlationId do
    Encoder.array response.topics (encodeTopic encodeProducePartition)
    Encoder.i32 response.throttleTimeMs

/-- Source: `response.rs`, `encode_fetch` (the aborted transactions). Kind: D -/
def encodeAborted : Option (List (Int64 × Int64)) → Encoder Unit
  | some aborted => Encoder.array aborted fun entry => do
      Encoder.i64 entry.1
      Encoder.i64 entry.2
  | none => Encoder.nullableArrayLen none

/-- Source: `response.rs`, `encode_fetch` (the record set). Kind: D -/
def encodeRecordSet : List Record → Encoder Unit
  | [] => Encoder.bytes []
  | first :: others => within (encodeRecordBatch first.offset (first :: others)) Encoder.bytes

/-- Source: `response.rs`, `encode_fetch` (the inner loop). Kind: D -/
def encodeFetchPartition (partition : FetchPartitionResult (List Record)) : Encoder Unit := do
  Encoder.i32 partition.partition
  Encoder.i16 partition.error
  Encoder.i64 partition.highWatermark
  Encoder.i64 partition.lastStableOffset
  encodeAborted partition.abortedTransactions
  encodeRecordSet partition.records

/-- Source: `response.rs`, `encode_fetch`. Kind: D -/
def encodeFetch (correlationId : Int32) (response : FetchResponse (List Record)) :
    Except Error Bytes :=
  Encoder.response correlationId do
    Encoder.i32 response.throttleTimeMs
    Encoder.array response.topics (encodeTopic encodeFetchPartition)

/-- Source: `response.rs`, `encode_list_offsets` (the inner loop). Kind: D -/
def encodeListOffsetsPartition (partition : ListOffsetsPartitionResult) : Encoder Unit := do
  Encoder.i32 partition.partition
  Encoder.i16 partition.error
  Encoder.i64 partition.timestampMs
  Encoder.i64 partition.offset

/-- Source: `response.rs`, `encode_list_offsets`. Kind: D -/
def encodeListOffsets (correlationId : Int32) (topics : List (Topic ListOffsetsPartitionResult)) :
    Except Error Bytes :=
  Encoder.response correlationId (Encoder.array topics (encodeTopic encodeListOffsetsPartition))

/-! ## Layouts -/

/-- The bounds of a topic entry. -/
def TopicFits {α : Type} (item : α → Prop) (topic : Topic α) : Prop :=
  topic.name.length ≤ maxStringLen ∧ topic.partitions.length ≤ maxArrayLen ∧
    ∀ partition ∈ topic.partitions, item partition

def versionField (entry : Int16 × Int16 × Int16) : Bytes :=
  i16Bytes entry.1 ++ (i16Bytes entry.2.1 ++ i16Bytes entry.2.2)

def apiVersionsBody (error : Int16) (versions : List (Int16 × Int16 × Int16)) : Bytes :=
  i16Bytes error ++ arrayField versionField versions

def brokerField (broker : BrokerMetadata) : Bytes :=
  i32Bytes broker.nodeId ++ (stringField broker.host ++ (i32Bytes broker.port ++
    nullableStringField none))

def partitionMetadataField (partition : PartitionMetadata) : Bytes :=
  i16Bytes partition.error ++ (i32Bytes partition.partition ++ (i32Bytes partition.leader ++
    (arrayField i32Bytes partition.replicas ++ arrayField i32Bytes partition.isr)))

def PartitionMetadata.Fits (partition : PartitionMetadata) : Prop :=
  partition.replicas.length ≤ maxArrayLen ∧ partition.isr.length ≤ maxArrayLen

def topicMetadataField (topic : TopicMetadata) : Bytes :=
  i16Bytes topic.error ++ (stringField topic.name ++ (boolField topic.isInternal ++
    arrayField partitionMetadataField topic.partitions))

def TopicMetadata.Fits (topic : TopicMetadata) : Prop :=
  topic.name.length ≤ maxStringLen ∧ topic.partitions.length ≤ maxArrayLen ∧
    ∀ partition ∈ topic.partitions, partition.Fits

def metadataBody (response : MetadataResponse) : Bytes :=
  arrayField brokerField response.brokers ++ (i32Bytes response.controllerId ++
    arrayField topicMetadataField response.topics)

def MetadataResponse.Fits (response : MetadataResponse) : Prop :=
  (response.brokers.length ≤ maxArrayLen ∧
    ∀ broker ∈ response.brokers, broker.host.length ≤ maxStringLen) ∧
  response.topics.length ≤ maxArrayLen ∧ ∀ topic ∈ response.topics, topic.Fits

def findCoordinatorBody (response : FindCoordinatorResponse) : Bytes :=
  i32Bytes 0 ++ (i16Bytes response.error ++ (nullableStringField none ++
    (i32Bytes response.nodeId ++ (stringField response.host ++ i32Bytes response.port))))

def initProducerIdBody (response : InitProducerIdResponse) : Bytes :=
  i32Bytes 0 ++ (i16Bytes response.error ++ (i64Bytes response.producerId ++
    i16Bytes response.producerEpoch))

def txnPartitionField (entry : Int32 × Int16) : Bytes := i32Bytes entry.1 ++ i16Bytes entry.2

def addPartitionsToTxnBody (topics : List (Topic (Int32 × Int16))) : Bytes :=
  i32Bytes 0 ++ arrayField (topicField txnPartitionField) topics

def endTxnBody (error : Int16) : Bytes := i32Bytes 0 ++ i16Bytes error

def memberField (member : Bytes × Bytes) : Bytes := stringField member.1 ++ bytesField member.2

def joinGroupBody (response : JoinGroupResponse) : Bytes :=
  i16Bytes response.error ++ (i32Bytes response.generation ++ (stringField response.protocol ++
    (stringField response.leader ++ (stringField response.memberId ++
      arrayField memberField response.members))))

def JoinGroupResponse.Fits (response : JoinGroupResponse) : Prop :=
  response.protocol.length ≤ maxStringLen ∧ response.leader.length ≤ maxStringLen ∧
    response.memberId.length ≤ maxStringLen ∧ response.members.length ≤ maxArrayLen ∧
    ∀ member ∈ response.members, member.1.length ≤ maxStringLen ∧ member.2.length ≤ maxFrameLen

def syncGroupBody (error : Int16) (assignment : Bytes) : Bytes :=
  i16Bytes error ++ bytesField assignment

def offsetFetchBody (topic : Bytes) (partition : Int32) (offset : Int64) (error : Int16) : Bytes :=
  arrayLenField 1 ++ (stringField topic ++ (arrayLenField 1 ++ (i32Bytes partition ++
    (i64Bytes offset ++ (nullableStringField none ++ i16Bytes error)))))

def offsetCommitBody (topic : Bytes) (partition : Int32) (error : Int16) : Bytes :=
  arrayLenField 1 ++ (stringField topic ++ (arrayLenField 1 ++ (i32Bytes partition ++
    i16Bytes error)))

def producePartitionField (partition : ProducePartitionResult) : Bytes :=
  i32Bytes partition.partition ++ (i16Bytes partition.error ++ (i64Bytes partition.baseOffset ++
    i64Bytes partition.logAppendTimeMs))

def produceBody (response : ProduceResponse) : Bytes :=
  arrayField (topicField producePartitionField) response.topics ++ i32Bytes response.throttleTimeMs

def abortedEntryField (entry : Int64 × Int64) : Bytes := i64Bytes entry.1 ++ i64Bytes entry.2

def abortedField : Option (List (Int64 × Int64)) → Bytes
  | some aborted => arrayField abortedEntryField aborted
  | none => i32Bytes (-1)

def fetchPartitionResultField (partition : FetchPartitionResult Bytes) : Bytes :=
  i32Bytes partition.partition ++ (i16Bytes partition.error ++ (i64Bytes partition.highWatermark ++
    (i64Bytes partition.lastStableOffset ++ (abortedField partition.abortedTransactions ++
      bytesField partition.records))))

def fetchBody (response : FetchResponse Bytes) : Bytes :=
  i32Bytes response.throttleTimeMs ++
    arrayField (topicField fetchPartitionResultField) response.topics

def listOffsetsPartitionResultField (partition : ListOffsetsPartitionResult) : Bytes :=
  i32Bytes partition.partition ++ (i16Bytes partition.error ++ (i64Bytes partition.timestampMs ++
    i64Bytes partition.offset))

def listOffsetsBody (topics : List (Topic ListOffsetsPartitionResult)) : Bytes :=
  arrayField (topicField listOffsetsPartitionResultField) topics

/-! ## Record sets on the wire -/

/-- The record set of a partition: nothing, or one batch based at the first record. -/
def recordSet : List Record → Bytes
  | [] => []
  | first :: others => batchBytes first.offset (first :: others)

/-- The same result with another record field. -/
def FetchPartitionResult.mapRecords {ρ ρ' : Type} (f : ρ → ρ')
    (partition : FetchPartitionResult ρ) : FetchPartitionResult ρ' :=
  ⟨partition.partition, partition.error, partition.highWatermark, partition.lastStableOffset,
    partition.abortedTransactions, f partition.records⟩

/-- A fetch response as it stands on the wire. -/
def FetchResponse.onWire (response : FetchResponse (List Record)) : FetchResponse Bytes :=
  ⟨response.throttleTimeMs, response.topics.map fun topic =>
    ⟨topic.name, topic.partitions.map (FetchPartitionResult.mapRecords recordSet)⟩⟩

def AbortedFits (aborted : Option (List (Int64 × Int64))) : Prop :=
  ∀ entries, aborted = some entries → entries.length ≤ maxArrayLen

def FetchPartitionResult.Fits (partition : FetchPartitionResult (List Record)) : Prop :=
  AbortedFits partition.abortedTransactions ∧ partition.records.length ≤ maxRecords ∧
    (recordSet partition.records).length ≤ maxFrameLen

/-! ## What is written -/

variable {correlationId : Int32} {frame : Bytes}

/-- Elements of a fixed size only have to be few enough. -/
theorem prints_fixedArray {α : Type} {item : α → Encoder Unit} {s : α → Bytes}
    (h : ∀ a, Prints (item a) True (s a)) (items : List α) :
    Prints (Encoder.array items item) (items.length ≤ maxArrayLen) (arrayField s items) :=
  (prints_array h items).congr (by simp) rfl

/-- A topic is its name and the array of its entries. -/
theorem prints_topic {α : Type} {item : α → Encoder Unit} {s : α → Bytes} {V : α → Prop}
    (h : ∀ a, Prints (item a) (V a) (s a)) (topic : Topic α) :
    Prints (encodeTopic item topic) (TopicFits V topic) (topicField s topic) :=
  (prints_string _).seq (prints_array h _)

/-- A version list is encoded exactly if it is short enough. -/
theorem encodeApiVersionsError_eq_ok {error : Int16} {versions : List (Int16 × Int16 × Int16)} :
    encodeApiVersionsError correlationId error versions = .ok frame ↔
      versions.length ≤ maxArrayLen ∧
        frame = responseFrame correlationId (apiVersionsBody error versions) := by
  refine response_eq_ok ((prints_i16 _).andThen (prints_fixedArray (fun entry => ?_) versions))
  exact (prints_i16 _).andThen ((prints_i16 _).andThen (prints_i16 _))

/-- A broker is encoded with a null rack. -/
theorem prints_broker (broker : BrokerMetadata) :
    Prints (encodeBroker broker) (broker.host.length ≤ maxStringLen) (brokerField broker) :=
  (prints_i32 _).andThen ((prints_string _).thenFixed
    ((prints_i32 _).andThen prints_nullableString_none))

/-- A partition of the metadata, with its two replica lists. -/
theorem prints_partitionMetadata (partition : PartitionMetadata) :
    Prints (encodePartitionMetadata partition) partition.Fits
      (partitionMetadataField partition) := by
  refine (prints_i16 _).andThen ((prints_i32 _).andThen ((prints_i32 _).andThen ?_))
  exact (prints_fixedArray prints_i32 _).seq (prints_fixedArray prints_i32 _)

/-- A topic of the metadata, with its partitions. -/
theorem prints_topicMetadata (topic : TopicMetadata) :
    Prints (encodeTopicMetadata topic) topic.Fits (topicMetadataField topic) := by
  refine (prints_i16 _).andThen ((prints_string _).seq ?_)
  exact (prints_bool _).andThen (prints_array prints_partitionMetadata _)

/-- Metadata are encoded exactly if every array and every string in them fits. -/
theorem encodeMetadata_eq_ok {response : MetadataResponse} :
    encodeMetadata correlationId response = .ok frame ↔
      response.Fits ∧ frame = responseFrame correlationId (metadataBody response) :=
  response_eq_ok ((prints_array prints_broker _).seq
    ((prints_i32 _).andThen (prints_array prints_topicMetadata _)))

/-- A coordinator is encoded exactly if its host name fits. -/
theorem encodeFindCoordinator_eq_ok {response : FindCoordinatorResponse} :
    encodeFindCoordinator correlationId response = .ok frame ↔
      response.host.length ≤ maxStringLen ∧
        frame = responseFrame correlationId (findCoordinatorBody response) := by
  refine response_eq_ok ((prints_i32 _).andThen ((prints_i16 _).andThen ?_))
  refine prints_nullableString_none.andThen ((prints_i32 _).andThen ?_)
  exact (prints_string _).thenFixed (prints_i32 _)

/-- A producer identity is always encoded. -/
theorem encodeInitProducerId_eq_ok {response : InitProducerIdResponse} :
    encodeInitProducerId correlationId response = .ok frame ↔
      frame = responseFrame correlationId (initProducerIdBody response) :=
  response_eq_ok_of_fixed ((prints_i32 _).andThen ((prints_i16 _).andThen
    ((prints_i64 _).andThen (prints_i16 _))))

/-- Enlistment results are encoded exactly if their topics fit. -/
theorem encodeAddPartitionsToTxn_eq_ok {topics : List (Topic (Int32 × Int16))} :
    encodeAddPartitionsToTxn correlationId topics = .ok frame ↔
      (topics.length ≤ maxArrayLen ∧ ∀ topic ∈ topics, TopicFits (fun _ => True) topic) ∧
        frame = responseFrame correlationId (addPartitionsToTxnBody topics) :=
  response_eq_ok ((prints_i32 _).andThen (prints_array (prints_topic fun _ =>
    (prints_i32 _).andThen (prints_i16 _)) _))

/-- The code of an ended transaction is always encoded. -/
theorem encodeEndTxn_eq_ok {error : Int16} :
    encodeEndTxn correlationId error = .ok frame ↔
      frame = responseFrame correlationId (endTxnBody error) :=
  response_eq_ok_of_fixed ((prints_i32 _).andThen (prints_i16 _))

/-- A join answer is encoded exactly if its strings and its members fit. -/
theorem encodeJoinGroup_eq_ok {response : JoinGroupResponse} :
    encodeJoinGroup correlationId response = .ok frame ↔
      response.Fits ∧ frame = responseFrame correlationId (joinGroupBody response) := by
  refine response_eq_ok ((prints_i16 _).andThen ((prints_i32 _).andThen ?_))
  refine (prints_string _).seq ((prints_string _).seq ((prints_string _).seq ?_))
  exact prints_array (fun member => (prints_string _).seq (prints_bytes _)) _

/-- A sync answer is encoded exactly if its assignment fits. -/
theorem encodeSyncGroup_eq_ok {error : Int16} {assignment : Bytes} :
    encodeSyncGroup correlationId error assignment = .ok frame ↔
      assignment.length ≤ maxFrameLen ∧
        frame = responseFrame correlationId (syncGroupBody error assignment) :=
  response_eq_ok ((prints_i16 _).andThen (prints_bytes _))

/-- A bare error code is always encoded. -/
theorem encodeGroupError_eq_ok {error : Int16} :
    encodeGroupError correlationId error = .ok frame ↔
      frame = responseFrame correlationId (i16Bytes error) :=
  response_eq_ok_of_fixed (prints_i16 _)

/-- One entry always fits. -/
theorem prints_arrayLen_one : Prints (Encoder.arrayLen 1) True (arrayLenField 1) :=
  (prints_arrayLen 1).congr (iff_true_intro (by decide)) rfl

/-- A committed offset is encoded exactly if its topic name fits. -/
theorem encodeOffsetFetch_eq_ok {topic : Bytes} {partition : Int32} {offset : Int64}
    {error : Int16} :
    encodeOffsetFetch correlationId topic partition offset error = .ok frame ↔
      topic.length ≤ maxStringLen ∧
        frame = responseFrame correlationId (offsetFetchBody topic partition offset error) := by
  refine response_eq_ok (prints_arrayLen_one.andThen ((prints_string _).thenFixed ?_))
  refine prints_arrayLen_one.andThen ((prints_i32 _).andThen ((prints_i64 _).andThen ?_))
  exact prints_nullableString_none.andThen (prints_i16 _)

/-- The result of a commit is encoded exactly if its topic fits. -/
theorem encodeOffsetCommit_eq_ok {topic : Bytes} {partition : Int32} {error : Int16} :
    encodeOffsetCommit correlationId topic partition error = .ok frame ↔
      topic.length ≤ maxStringLen ∧
        frame = responseFrame correlationId (offsetCommitBody topic partition error) := by
  refine response_eq_ok (prints_arrayLen_one.andThen ((prints_string _).thenFixed ?_))
  exact prints_arrayLen_one.andThen ((prints_i32 _).andThen (prints_i16 _))

/-- Produce results are encoded exactly if their topics fit. -/
theorem encodeProduce_eq_ok {response : ProduceResponse} :
    encodeProduce correlationId response = .ok frame ↔
      (response.topics.length ≤ maxArrayLen ∧
        ∀ topic ∈ response.topics, TopicFits (fun _ => True) topic) ∧
        frame = responseFrame correlationId (produceBody response) :=
  response_eq_ok ((prints_array (prints_topic fun _ => (prints_i32 _).andThen
    ((prints_i16 _).andThen ((prints_i64 _).andThen (prints_i64 _)))) _).thenFixed (prints_i32 _))

/-- The aborted transactions: a list that fits, or null. -/
theorem prints_aborted (aborted : Option (List (Int64 × Int64))) :
    Prints (encodeAborted aborted) (AbortedFits aborted) (abortedField aborted) := by
  rcases aborted with _ | entries
  · exact (prints_i32 _).congr ⟨fun _ _ h => (nomatch h), fun _ => trivial⟩ rfl
  · refine (prints_fixedArray (fun entry => (prints_i64 _).andThen (prints_i64 _))
      entries).congr ⟨?_, fun h => h entries rfl⟩ rfl
    rintro h _ ⟨⟩
    exact h

/-- A record set is encoded if its batch is, and nothing stands for no records. -/
theorem prints_recordSet (records : List Record) :
    Prints (encodeRecordSet records)
      (records.length ≤ maxRecords ∧ (recordSet records).length ≤ maxFrameLen)
      (bytesField (recordSet records)) := by
  rcases records with _ | ⟨first, others⟩
  · exact (prints_bytes []).congr (by simp [recordSet]) rfl
  · have hbatch : ∀ batch, encodeRecordBatch first.offset (first :: others) = .ok batch ↔
        ((first :: others).length ≤ maxRecords ∧
          (recordSet (first :: others)).length ≤ maxFrameLen) ∧
          batch = recordSet (first :: others) := by
      intro batch
      rw [encodeRecordBatch_eq_ok, recordSet]
      exact ⟨fun h => ⟨⟨h.2.1, h.2.2.1⟩, h.2.2.2⟩,
        fun h => ⟨List.cons_ne_nil _ _, h.1.1, h.1.2, h.2⟩⟩
    exact (Prints.within hbatch (prints_bytes _)).congr
      ⟨fun h => h.1, fun h => ⟨h, h.2⟩⟩ rfl

/-- A fetch result is encoded exactly if it fits. -/
theorem prints_fetchPartition (partition : FetchPartitionResult (List Record)) :
    Prints (encodeFetchPartition partition) partition.Fits
      (fetchPartitionResultField (partition.mapRecords recordSet)) := by
  refine (prints_i32 _).andThen ((prints_i16 _).andThen ((prints_i64 _).andThen ?_))
  exact (prints_i64 _).andThen ((prints_aborted _).seq (prints_recordSet _))

/-- Mapped entries are spelled as the entries they come from. -/
theorem arrayField_map {α β : Type} (s : β → Bytes) (f : α → β) (items : List α) :
    arrayField s (items.map f) = arrayField (fun a => s (f a)) items := by
  rw [arrayField, arrayField, List.length_map, List.flatMap_map]

/-- Fetch results are encoded exactly if their topics and record sets fit. -/
theorem encodeFetch_eq_ok {response : FetchResponse (List Record)} :
    encodeFetch correlationId response = .ok frame ↔
      (response.topics.length ≤ maxArrayLen ∧
        ∀ topic ∈ response.topics, TopicFits FetchPartitionResult.Fits topic) ∧
        frame = responseFrame correlationId (fetchBody response.onWire) := by
  refine response_eq_ok (((prints_i32 _).andThen
    (prints_array (prints_topic prints_fetchPartition) _)).congr Iff.rfl ?_)
  simp only [fetchBody, FetchResponse.onWire, arrayField_map, topicField]
  rfl

/-- Fetch results that are not encoded are too large. -/
theorem encodeFetch_error {response : FetchResponse (List Record)} {x : Error}
    (hlen : ∀ topic ∈ response.topics, ∀ partition ∈ topic.partitions,
      partition.records.length ≤ maxRecords)
    (h : encodeFetch correlationId response = .error x) : x = .tooLarge := by
  have hset : ∀ records : List Record, records.length ≤ maxRecords →
      FailsOnly (encodeRecordSet records) Error.tooLarge := by
    rintro (_ | ⟨first, others⟩) hrecords
    · exact failsOnly_bytes []
    · exact FailsOnly.within (fun x => encodeRecordBatch_error (List.cons_ne_nil _ _) hrecords)
        failsOnly_bytes
  have haborted : ∀ aborted, FailsOnly (encodeAborted aborted) Error.tooLarge := by
    rintro (_ | entries)
    · exact FailsOnly.put _
    · exact failsOnly_array fun _ _ => (FailsOnly.put _).seq fun _ => FailsOnly.put _
  refine response_error ((FailsOnly.put _).seq fun _ => failsOnly_array fun topic htopic => ?_) h
  refine (failsOnly_string _).seq fun _ => failsOnly_array fun partition hpartition => ?_
  refine (FailsOnly.put _).seq fun _ => (FailsOnly.put _).seq fun _ => (FailsOnly.put _).seq ?_
  refine fun _ => (FailsOnly.put _).seq fun _ => (haborted _).seq fun _ => ?_
  exact hset _ (hlen topic htopic partition hpartition)

/-- Listed offsets are encoded exactly if their topics fit. -/
theorem encodeListOffsets_eq_ok {topics : List (Topic ListOffsetsPartitionResult)} :
    encodeListOffsets correlationId topics = .ok frame ↔
      (topics.length ≤ maxArrayLen ∧ ∀ topic ∈ topics, TopicFits (fun _ => True) topic) ∧
        frame = responseFrame correlationId (listOffsetsBody topics) :=
  response_eq_ok (prints_array (prints_topic fun _ => (prints_i32 _).andThen
    ((prints_i16 _).andThen ((prints_i64 _).andThen (prints_i64 _)))) _)

end CharlotteBroker.Wire
