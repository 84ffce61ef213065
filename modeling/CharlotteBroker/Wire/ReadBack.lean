import CharlotteBroker.Wire.Grammar
import CharlotteBroker.Wire.Response
import Mathlib.Data.List.Forall2

/-!
# Responses read back

What a client sees of the encoders of `response.rs`: a reader for each layout, built from the
decoder's primitives in the layout's order, and the theorem that it recovers the response
(`responses_readBack`).

* `ReadsAs reader correlationId value frame`: the frame declares its own length and carries the
  correlation id, and the reader reads the rest to the end, as the value.
* Constant fields (throttle times, null strings) are read as well and returned with the response.
* The record set of a fetch result is read as bytes; `FetchPartitionResult.Matches` says what
  decoding them gives.
-/

namespace CharlotteBroker.Wire

open Lib Lib.Parser CharlotteBroker.Core

variable {α : Type} {s : α → Bytes} {partition : FetchPartitionResult (List Record)}
  {response : FetchResponse (List Record)} {p : Decoder α}

/-! ## Readers -/

/-- A topic entry. -/
def readTopic {α : Type} (item : Decoder α) : Decoder (Topic α) := do
  let name ← Decoder.stringBytes
  let partitions ← Decoder.array item
  return ⟨name, partitions⟩

/-- An entry of `encode_api_versions_error`. -/
def readVersion : Decoder (Int16 × Int16 × Int16) := do
  let key ← Decoder.i16
  let minimum ← Decoder.i16
  let maximum ← Decoder.i16
  return (key, minimum, maximum)

/-- The layout of `encode_api_versions_error`. -/
def readApiVersions : Decoder (Int16 × List (Int16 × Int16 × Int16)) := do
  let error ← Decoder.i16
  let versions ← Decoder.array readVersion
  return (error, versions)

/-- A broker of `encode_metadata`, with its rack. -/
def readBroker : Decoder (BrokerMetadata × Option Bytes) := do
  let nodeId ← Decoder.i32
  let host ← Decoder.stringBytes
  let port ← Decoder.i32
  let rack ← Decoder.nullableStringBytes
  return (⟨nodeId, host, port⟩, rack)

/-- A partition of `encode_metadata`. -/
def readPartitionMetadata : Decoder PartitionMetadata := do
  let error ← Decoder.i16
  let partition ← Decoder.i32
  let leader ← Decoder.i32
  let replicas ← Decoder.array Decoder.i32
  let isr ← Decoder.array Decoder.i32
  return ⟨error, partition, leader, replicas, isr⟩

/-- A topic of `encode_metadata`. -/
def readTopicMetadata : Decoder TopicMetadata := do
  let error ← Decoder.i16
  let name ← Decoder.stringBytes
  let isInternal ← flag
  let partitions ← Decoder.array readPartitionMetadata
  return ⟨error, name, isInternal, partitions⟩

/-- The layout of `encode_metadata`: brokers with racks, the controller and the topics. -/
def readMetadata : Decoder (List (BrokerMetadata × Option Bytes) × Int32 × List TopicMetadata) := do
  let brokers ← Decoder.array readBroker
  let controllerId ← Decoder.i32
  let topics ← Decoder.array readTopicMetadata
  return (brokers, controllerId, topics)

/-- The layout of `encode_find_coordinator`, with the throttle time and the error message. -/
def readFindCoordinator : Decoder (Int32 × Option Bytes × FindCoordinatorResponse) := do
  let throttleTimeMs ← Decoder.i32
  let error ← Decoder.i16
  let message ← Decoder.nullableStringBytes
  let nodeId ← Decoder.i32
  let host ← Decoder.stringBytes
  let port ← Decoder.i32
  return (throttleTimeMs, message, ⟨error, nodeId, host, port⟩)

/-- A partition of `encode_add_partitions_to_txn`. -/
def readTxnPartition : Decoder (Int32 × Int16) := do
  let partition ← Decoder.i32
  let error ← Decoder.i16
  return (partition, error)

/-- The layout of `encode_add_partitions_to_txn`, with the throttle time. -/
def readAddPartitionsToTxn : Decoder (Int32 × List (Topic (Int32 × Int16))) := do
  let throttleTimeMs ← Decoder.i32
  let topics ← Decoder.array (readTopic readTxnPartition)
  return (throttleTimeMs, topics)

/-- A member of `encode_join_group`. -/
def readMember : Decoder (Bytes × Bytes) := do
  let member ← Decoder.stringBytes
  let metadata ← requiredBytes
  return (member, metadata)

/-- The layout of `encode_join_group`. -/
def readJoinGroup : Decoder JoinGroupResponse := do
  let error ← Decoder.i16
  let generation ← Decoder.i32
  let protocol ← Decoder.stringBytes
  let leader ← Decoder.stringBytes
  let memberId ← Decoder.stringBytes
  let members ← Decoder.array readMember
  return ⟨error, generation, protocol, leader, memberId, members⟩

/-- A partition of `encode_produce`. -/
def readProducePartition : Decoder ProducePartitionResult := do
  let partition ← Decoder.i32
  let error ← Decoder.i16
  let baseOffset ← Decoder.i64
  let logAppendTimeMs ← Decoder.i64
  return ⟨partition, error, baseOffset, logAppendTimeMs⟩

/-- The layout of `encode_produce`. -/
def readProduce : Decoder ProduceResponse := do
  let topics ← Decoder.array (readTopic readProducePartition)
  let throttleTimeMs ← Decoder.i32
  return ⟨topics, throttleTimeMs⟩

/-- An aborted transaction of `encode_fetch`. -/
def readAbortedEntry : Decoder (Int64 × Int64) := do
  let producerId ← Decoder.i64
  let firstOffset ← Decoder.i64
  return (producerId, firstOffset)

/-- The aborted transactions of `encode_fetch`. -/
def readAborted : Decoder (Option (List (Int64 × Int64))) := do
  match ← Decoder.nullableArrayLen with
  | some count => return some (← many readAbortedEntry count)
  | none => return none

/-- A partition of `encode_fetch`. -/
def readFetchPartition : Decoder (FetchPartitionResult Bytes) := do
  let partition ← Decoder.i32
  let error ← Decoder.i16
  let highWatermark ← Decoder.i64
  let lastStableOffset ← Decoder.i64
  let abortedTransactions ← readAborted
  let records ← requiredBytes
  return ⟨partition, error, highWatermark, lastStableOffset, abortedTransactions, records⟩

/-- The layout of `encode_fetch`. -/
def readFetch : Decoder (FetchResponse Bytes) := do
  let throttleTimeMs ← Decoder.i32
  let topics ← Decoder.array (readTopic readFetchPartition)
  return ⟨throttleTimeMs, topics⟩

/-- A partition of `encode_list_offsets`. -/
def readListOffsetsPartition : Decoder ListOffsetsPartitionResult := do
  let partition ← Decoder.i32
  let error ← Decoder.i16
  let timestampMs ← Decoder.i64
  let offset ← Decoder.i64
  return ⟨partition, error, timestampMs, offset⟩

/-- The layout of `encode_list_offsets`. -/
def readListOffsets : Decoder (List (Topic ListOffsetsPartitionResult)) :=
  Decoder.array (readTopic readListOffsetsPartition)

/-- A partition of `encode_offset_fetch`, with its metadata. -/
def readOffsetFetchPartition : Decoder (Int32 × Int64 × Option Bytes × Int16) := do
  let partition ← Decoder.i32
  let offset ← Decoder.i64
  let metadata ← Decoder.nullableStringBytes
  let error ← Decoder.i16
  return (partition, offset, metadata, error)

/-- The layout of `encode_offset_fetch`. -/
def readOffsetFetch : Decoder (List (Topic (Int32 × Int64 × Option Bytes × Int16))) :=
  Decoder.array (readTopic readOffsetFetchPartition)

/-- The layout of `encode_offset_commit`. -/
def readOffsetCommit : Decoder (List (Topic (Int32 × Int16))) :=
  Decoder.array (readTopic readTxnPartition)

/-! ## Reading the layouts -/

/-- A null string is read as none. -/
theorem reads_nullString : Reads Decoder.nullableStringBytes (nullableStringField none) none :=
  exact_nullableString.reads fun _ h => (nomatch h)

/-- A boolean is read back. -/
theorem reads_flag (value : Bool) : Reads flag (boolField value) value := exact_flag.reads trivial

/-- An array is read entry by entry. -/
theorem reads_array {β : Type} {p : Decoder β} {r : α → β} {items : List α}
    (hlen : items.length ≤ maxArrayLen) (h : ∀ item ∈ items, Reads p (s item) (r item)) :
    Reads (Decoder.array p) (arrayField s items) (items.map r) :=
  (exact_arrayLen.reads hlen).bind (Reads.many h)

/-- An array of entries that are read as themselves. -/
theorem reads_list {items : List α} (hlen : items.length ≤ maxArrayLen)
    (h : ∀ item ∈ items, Reads p (s item) item) :
    Reads (Decoder.array p) (arrayField s items) items := by
  have hread := reads_array (r := id) hlen h
  rwa [List.map_id] at hread

/-- A topic is read back if its entries are. -/
theorem reads_topic {V : α → Prop} (h : ∀ item, V item → Reads p (s item) item) {topic : Topic α}
    (hfits : TopicFits V topic) :
    Reads (readTopic p) (topicField s topic) topic := by
  obtain ⟨hname, hlen, hitems⟩ := hfits
  exact (reads_string hname).bind ((reads_list hlen fun item hitem =>
    h item (hitems item hitem)).bind_end (Reads.pure _))

/-- A list of topics is read back, if each of its entries is. -/
theorem reads_topics {V : α → Prop} (h : ∀ item, V item → Reads p (s item) item)
    {topics : List (Topic α)}
    (hfits : topics.length ≤ maxArrayLen ∧ ∀ topic ∈ topics, TopicFits V topic) :
    Reads (Decoder.array (readTopic p)) (arrayField (topicField s) topics) topics :=
  reads_list hfits.1 fun topic htopic => reads_topic h (hfits.2 topic htopic)

/-- The version list is read back. -/
theorem reads_apiVersions (error : Int16) {versions : List (Int16 × Int16 × Int16)}
    (h : versions.length ≤ maxArrayLen) :
    Reads readApiVersions (apiVersionsBody error versions) (error, versions) := by
  refine (reads_i16 _).bind ((reads_list h fun entry _ => ?_).bind_end (Reads.pure _))
  exact (reads_i16 _).bind ((reads_i16 _).bind ((reads_i16 _).bind_end (Reads.pure _)))

/-- A broker is read back with its null rack. -/
theorem reads_broker {broker : BrokerMetadata} (h : broker.host.length ≤ maxStringLen) :
    Reads readBroker (brokerField broker) (broker, none) :=
  (reads_i32 _).bind ((reads_string h).bind ((reads_i32 _).bind
    (reads_nullString.bind_end (Reads.pure _))))

/-- A partition of the metadata is read back. -/
theorem reads_partitionMetadata {partition : PartitionMetadata} (h : partition.Fits) :
    Reads readPartitionMetadata (partitionMetadataField partition) partition := by
  refine (reads_i16 _).bind ((reads_i32 _).bind ((reads_i32 _).bind ?_))
  exact (reads_list h.1 fun _ _ => reads_i32 _).bind
    ((reads_list h.2 fun _ _ => reads_i32 _).bind_end (Reads.pure _))

/-- A topic of the metadata is read back with its partitions. -/
theorem reads_topicMetadata {topic : TopicMetadata} (h : topic.Fits) :
    Reads readTopicMetadata (topicMetadataField topic) topic := by
  obtain ⟨hname, hlen, hpartitions⟩ := h
  refine (reads_i16 _).bind ((reads_string hname).bind ((reads_flag _).bind ?_))
  exact (reads_list hlen fun partition hpartition =>
    reads_partitionMetadata (hpartitions partition hpartition)).bind_end (Reads.pure _)

/-- The metadata are read back. -/
theorem reads_metadata {response : MetadataResponse} (h : response.Fits) :
    Reads readMetadata (metadataBody response)
      (response.brokers.map (fun broker => (broker, none)), response.controllerId,
        response.topics) := by
  obtain ⟨⟨hbrokers, hhosts⟩, hlen, htopics⟩ := h
  refine (reads_array hbrokers fun broker hbroker => reads_broker (hhosts broker hbroker)).bind ?_
  exact (reads_i32 _).bind ((reads_list hlen fun topic htopic =>
    reads_topicMetadata (htopics topic htopic)).bind_end (Reads.pure _))

/-- The coordinator is read back behind a throttle time of zero. -/
theorem reads_findCoordinator {response : FindCoordinatorResponse}
    (h : response.host.length ≤ maxStringLen) :
    Reads readFindCoordinator (findCoordinatorBody response) (0, none, response) := by
  refine (reads_i32 _).bind ((reads_i16 _).bind (reads_nullString.bind ((reads_i32 _).bind ?_)))
  exact (reads_string h).bind ((reads_i32 _).bind_end (Reads.pure _))

/-- A partition and its code are read back. -/
theorem reads_txnPartition (entry : Int32 × Int16) :
    Reads readTxnPartition (txnPartitionField entry) entry :=
  (reads_i32 _).bind ((reads_i16 _).bind_end (Reads.pure _))

/-- A join answer is read back with all its members. -/
theorem reads_joinGroup {response : JoinGroupResponse} (h : response.Fits) :
    Reads readJoinGroup (joinGroupBody response) response := by
  obtain ⟨hprotocol, hleader, hmember, hlen, hmembers⟩ := h
  refine (reads_i16 _).bind ((reads_i32 _).bind ((reads_string hprotocol).bind ?_))
  refine (reads_string hleader).bind ((reads_string hmember).bind ?_)
  refine (reads_list hlen fun member hmem => ?_).bind_end (Reads.pure _)
  exact (reads_string (hmembers member hmem).1).bind
    ((reads_requiredBytes (hmembers member hmem).2).bind_end (Reads.pure _))

/-- A produce result is read back. -/
theorem reads_producePartition (partition : ProducePartitionResult) :
    Reads readProducePartition (producePartitionField partition) partition :=
  (reads_i32 _).bind ((reads_i16 _).bind ((reads_i64 _).bind
    ((reads_i64 _).bind_end (Reads.pure _))))

/-- A listed offset is read back. -/
theorem reads_listOffsetsPartition (partition : ListOffsetsPartitionResult) :
    Reads readListOffsetsPartition (listOffsetsPartitionResultField partition) partition :=
  (reads_i32 _).bind ((reads_i16 _).bind ((reads_i64 _).bind
    ((reads_i64 _).bind_end (Reads.pure _))))

/-- The aborted transactions are read back, null or not. -/
theorem reads_aborted {aborted : Option (List (Int64 × Int64))} (h : AbortedFits aborted) :
    Reads readAborted (abortedField aborted) aborted := by
  rcases aborted with _ | entries
  · exact (exact_nullableArrayLen.reads (a := none) fun _ h => (nomatch h)).bind_end (Reads.pure _)
  · have hmany : Reads (many readAbortedEntry entries.length)
        (entries.flatMap abortedEntryField) (entries.map id) :=
      Reads.many fun entry _ => (reads_i64 _).bind ((reads_i64 _).bind_end (Reads.pure _))
    rw [List.map_id] at hmany
    refine (exact_nullableArrayLen.reads (a := some entries.length) ?_).bind
      (hmany.bind_end (Reads.pure _))
    rintro _ ⟨⟩
    exact h entries rfl

/-! ## Fetch results -/

/-- What is read of a fetch result: the same fields, and a record set that is empty exactly when
there are no records and otherwise decodes to their keys and values. -/
def FetchPartitionResult.Matches (partition : FetchPartitionResult (List Record))
    (read : FetchPartitionResult Bytes) : Prop :=
  read.mapRecords (fun _ => partition.records) = partition ∧
    (read.records = [] ↔ partition.records = []) ∧
    (partition.records ≠ [] → ∃ data, decodeRecordBatches read.records = .ok data ∧
      data.map (fun record => (record.key, record.value)) =
        partition.records.map (fun record => (record.key, record.value)))

/-- What is read of a fetch response. -/
def FetchResponse.Matches (response : FetchResponse (List Record)) (read : FetchResponse Bytes) :
    Prop :=
  read.throttleTimeMs = response.throttleTimeMs ∧
    List.Forall₂ (fun topic topic' => topic'.name = topic.name ∧
      List.Forall₂ FetchPartitionResult.Matches topic.partitions topic'.partitions)
      response.topics read.topics

/-- Only no records make an empty record set. -/
theorem recordSet_eq_nil {records : List Record} : recordSet records = [] ↔ records = [] := by
  rcases records with _ | ⟨first, others⟩
  · simp [recordSet]
  · rw [recordSet, ← List.length_eq_zero_iff, length_batchBytes]
    simp

/-- A record set that was encoded is decoded to the keys and values of its records. -/
theorem decodeRecordBatches_recordSet {records : List Record} (hne : records ≠ [])
    (hlen : records.length ≤ maxRecords) (hfits : (recordSet records).length ≤ maxFrameLen) :
    ∃ data, decodeRecordBatches (recordSet records) = .ok data ∧
      data.map (fun record => (record.key, record.value)) =
        records.map (fun record => (record.key, record.value)) := by
  rcases records with _ | ⟨first, others⟩
  · exact absurd rfl hne
  · have hdecode := decodeRecordBatchesWithIdentity_batchBytes hlen
      (Nat.lt_of_le_of_lt hfits (by decide))
    refine ⟨_, by rw [decodeRecordBatches, recordSet, hdecode]; rfl, ?_⟩
    rw [List.map_map]
    rfl

/-- A result that fits is matched by what stands on the wire. -/
theorem FetchPartitionResult.matches_recordSet (h : partition.Fits) :
    partition.Matches (partition.mapRecords recordSet) :=
  ⟨rfl, recordSet_eq_nil, fun hne => decodeRecordBatches_recordSet hne h.2.1 h.2.2⟩

/-- A fetch result is read back, its record set as bytes. -/
theorem reads_fetchPartition (h : partition.Fits) :
    Reads readFetchPartition (fetchPartitionResultField (partition.mapRecords recordSet))
      (partition.mapRecords recordSet) := by
  obtain ⟨haborted, -, hset⟩ := h
  refine (reads_i32 _).bind ((reads_i16 _).bind ((reads_i64 _).bind ((reads_i64 _).bind ?_)))
  exact (reads_aborted haborted).bind ((reads_requiredBytes hset).bind_end (Reads.pure _))

/-- A fetch response is read back. -/
theorem reads_fetch (h : response.topics.length ≤ maxArrayLen ∧
      ∀ topic ∈ response.topics, TopicFits FetchPartitionResult.Fits topic) :
    Reads readFetch (fetchBody response.onWire) response.onWire := by
  refine (reads_i32 _).bind (Reads.bind_end ?_ (Reads.pure _))
  rw [FetchResponse.onWire, arrayField_map]
  refine reads_array h.1 fun topic htopic => ?_
  obtain ⟨hname, hlen, hpartitions⟩ := h.2 topic htopic
  rw [topicField, arrayField_map]
  exact (reads_string hname).bind ((reads_array hlen fun partition hpartition =>
    reads_fetchPartition (hpartitions partition hpartition)).bind_end (Reads.pure _))

/-- A response is matched by what stands on the wire. -/
theorem FetchResponse.matches_onWire
    (h : ∀ topic ∈ response.topics, TopicFits FetchPartitionResult.Fits topic) :
    response.Matches response.onWire := by
  refine ⟨rfl, ?_⟩
  rw [FetchResponse.onWire, List.forall₂_map_right_iff, List.forall₂_same]
  intro topic htopic
  refine ⟨rfl, ?_⟩
  rw [List.forall₂_map_right_iff, List.forall₂_same]
  exact fun partition hpartition =>
    FetchPartitionResult.matches_recordSet ((h topic htopic).2.2 partition hpartition)

/-! ## Frames -/

/-- A response frame: its length, its correlation id, and a body that may depend on it. -/
def readResponseFrame {α : Type} (body : Int32 → Decoder α) : Decoder α := do
  let _length ← Decoder.i32
  let correlationId ← Decoder.i32
  body correlationId

/-- A frame is read back if its body is. -/
theorem reads_responseFrame {body : Int32 → Decoder α} {correlationId : Int32} {w : Bytes} {a : α}
    (h : Reads (body correlationId) w a) :
    Reads (readResponseFrame body) (responseFrame correlationId w) a :=
  (reads_i32 _).bind ((reads_i32 _).bind h)

/-- The frame declares its length and carries the correlation id, and the reader reads all the rest
as the value. -/
def ReadsAs {α : Type} (reader : Decoder α) (correlationId : Int32) (value : α) (frame : Bytes) :
    Prop :=
  ∃ declared payload body, Decoder.i32.run frame = .ok (declared, payload) ∧
    declared.toInt = (frame.length : Int) - 4 ∧
    Decoder.i32.run payload = .ok (correlationId, body) ∧ reader.run body = .ok (value, [])

/-- A frame shorter than 2 GiB declares its own length. -/
theorem readsAs_responseFrame {reader : Decoder α} {correlationId : Int32} {value : α}
    {body : Bytes} (h : Reads reader body value)
    (hlen : (responseFrame correlationId body).length < 2 ^ 31) :
    ReadsAs reader correlationId value (responseFrame correlationId body) := by
  have hlength : (responseFrame correlationId body).length = 4 + (4 + body.length) := by
    simp only [responseFrame, List.length_append, length_i32Bytes]
  refine ⟨_, _, body, run_i32_ok.mpr rfl, ?_, run_i32_ok.mpr rfl, h.all⟩
  rw [Int32.toInt_ofNat_of_lt (by omega)]
  omega

/-- **Responses are invertible.** For every encoder, a frame it returns that is shorter than 2 GiB
reads back as the response it was given. -/
theorem responses_readBack :
    (∀ correlationId error versions frame,
      encodeApiVersionsError correlationId error versions = .ok frame → frame.length < 2 ^ 31 →
        ReadsAs readApiVersions correlationId (error, versions) frame) ∧
    (∀ correlationId response frame,
      encodeMetadata correlationId response = .ok frame → frame.length < 2 ^ 31 →
        ReadsAs readMetadata correlationId (response.brokers.map (fun broker => (broker, none)),
          response.controllerId, response.topics) frame) ∧
    (∀ correlationId response frame,
      encodeFindCoordinator correlationId response = .ok frame → frame.length < 2 ^ 31 →
        ReadsAs readFindCoordinator correlationId (0, none, response) frame) ∧
    (∀ correlationId topics frame,
      encodeAddPartitionsToTxn correlationId topics = .ok frame → frame.length < 2 ^ 31 →
        ReadsAs readAddPartitionsToTxn correlationId (0, topics) frame) ∧
    (∀ correlationId response frame,
      encodeJoinGroup correlationId response = .ok frame → frame.length < 2 ^ 31 →
        ReadsAs readJoinGroup correlationId response frame) ∧
    (∀ correlationId response frame,
      encodeProduce correlationId response = .ok frame → frame.length < 2 ^ 31 →
        ReadsAs readProduce correlationId response frame) ∧
    (∀ correlationId response frame,
      encodeFetch correlationId response = .ok frame → frame.length < 2 ^ 31 →
        ∃ read, ReadsAs readFetch correlationId read frame ∧ response.Matches read) ∧
    (∀ correlationId topics frame,
      encodeListOffsets correlationId topics = .ok frame → frame.length < 2 ^ 31 →
        ReadsAs readListOffsets correlationId topics frame) ∧
    (∀ correlationId topic partition offset error frame,
      encodeOffsetFetch correlationId topic partition offset error = .ok frame →
        frame.length < 2 ^ 31 → ReadsAs readOffsetFetch correlationId
          [⟨topic, [(partition, offset, none, error)]⟩] frame) ∧
    (∀ correlationId topic partition error frame,
      encodeOffsetCommit correlationId topic partition error = .ok frame →
        frame.length < 2 ^ 31 →
          ReadsAs readOffsetCommit correlationId [⟨topic, [(partition, error)]⟩] frame) := by
  refine ⟨?_, ?_, ?_, ?_, ?_, ?_, ?_, ?_, ?_, ?_⟩
  · intro correlationId error versions frame h hlen
    obtain ⟨hfits, rfl⟩ := encodeApiVersionsError_eq_ok.mp h
    exact readsAs_responseFrame (reads_apiVersions error hfits) hlen
  · intro correlationId response frame h hlen
    obtain ⟨hfits, rfl⟩ := encodeMetadata_eq_ok.mp h
    exact readsAs_responseFrame (reads_metadata hfits) hlen
  · intro correlationId response frame h hlen
    obtain ⟨hfits, rfl⟩ := encodeFindCoordinator_eq_ok.mp h
    exact readsAs_responseFrame (reads_findCoordinator hfits) hlen
  · intro correlationId topics frame h hlen
    obtain ⟨hfits, rfl⟩ := encodeAddPartitionsToTxn_eq_ok.mp h
    refine readsAs_responseFrame ((reads_i32 _).bind (Reads.bind_end ?_ (Reads.pure _))) hlen
    exact reads_topics (fun entry _ => reads_txnPartition entry) hfits
  · intro correlationId response frame h hlen
    obtain ⟨hfits, rfl⟩ := encodeJoinGroup_eq_ok.mp h
    exact readsAs_responseFrame (reads_joinGroup hfits) hlen
  · intro correlationId response frame h hlen
    obtain ⟨hfits, rfl⟩ := encodeProduce_eq_ok.mp h
    refine readsAs_responseFrame (Reads.bind ?_ ((reads_i32 _).bind_end (Reads.pure _))) hlen
    exact reads_topics (fun partition _ => reads_producePartition partition) hfits
  · intro correlationId response frame h hlen
    obtain ⟨hfits, rfl⟩ := encodeFetch_eq_ok.mp h
    exact ⟨_, readsAs_responseFrame (reads_fetch hfits) hlen,
      FetchResponse.matches_onWire hfits.2⟩
  · intro correlationId topics frame h hlen
    obtain ⟨hfits, rfl⟩ := encodeListOffsets_eq_ok.mp h
    refine readsAs_responseFrame ?_ hlen
    exact reads_topics (fun partition _ => reads_listOffsetsPartition partition) hfits
  · intro correlationId topic partition offset error frame h hlen
    obtain ⟨hfits, rfl⟩ := encodeOffsetFetch_eq_ok.mp h
    refine readsAs_responseFrame (reads_one ((reads_string hfits).bind
      ((reads_one ?_).bind_end (Reads.pure _)))) hlen
    exact (reads_i32 _).bind ((reads_i64 _).bind (reads_nullString.bind
      ((reads_i16 _).bind_end (Reads.pure _))))
  · intro correlationId topic partition error frame h hlen
    obtain ⟨hfits, rfl⟩ := encodeOffsetCommit_eq_ok.mp h
    exact readsAs_responseFrame (reads_one ((reads_string hfits).bind
      ((reads_one (reads_txnPartition (partition, error))).bind_end (Reads.pure _)))) hlen

/-- A fetch response with one record and one empty partition. -/
theorem responses_readBack_fetch :
    ∃ frame, encodeFetch 7 ⟨0, [⟨[116], [⟨0, 0, 6, 6, some [(1, 2)], [⟨5, 9, none, some [1]⟩]⟩,
        ⟨1, 0, 0, 0, none, []⟩]⟩]⟩ = .ok frame ∧ frame.length < 2 ^ 31 ∧
      ∃ read, ReadsAs readFetch 7 read frame ∧ FetchResponse.Matches ⟨0, [⟨[116],
        [⟨0, 0, 6, 6, some [(1, 2)], [⟨5, 9, none, some [1]⟩]⟩, ⟨1, 0, 0, 0, none, []⟩]⟩]⟩ read := by
  have h : encodeFetch 7 ⟨0, [⟨[116], [⟨0, 0, 6, 6, some [(1, 2)], [⟨5, 9, none, some [1]⟩]⟩,
      ⟨1, 0, 0, 0, none, []⟩]⟩]⟩ = .ok _ := encodeFetch_eq_ok.mpr ⟨⟨by decide, ?_⟩, rfl⟩
  · exact ⟨_, h, by decide +kernel, responses_readBack.2.2.2.2.2.2.1 _ _ _ h (by decide +kernel)⟩
  · simp only [forall_eq, TopicFits, List.mem_cons, List.not_mem_nil, or_false, forall_eq_or_imp,
      FetchPartitionResult.Fits, AbortedFits, Option.some.injEq, forall_eq', reduceCtorEq,
      false_implies, implies_true, true_and]
    decide +kernel

end CharlotteBroker.Wire
