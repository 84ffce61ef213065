import CharlotteBroker.Wire.Decoded
import CharlotteBroker.Wire.Response
import Mathlib.Algebra.Order.BigOperators.Group.List

/-!
# Sizes on the wire

How many bytes records and responses take, as arithmetic on their fields.

* `framedSize`, `recordSetSize`: a record in a batch, and the record set of a fetch result. A record
  is charged 32 bytes by the log, which is also the most its framing can take
  (`framedSize_le_recordSize`); the 61 bytes of the batch header are charged to nobody
  (`recordSetSize_le`).
* `length_...Body`: the layouts of the responses. A loop's answer has a size that depends on the
  shape of the request alone (`length_topicsField`).
-/

namespace CharlotteBroker.Wire

open Lib CharlotteBroker.Core

/-! ## Fields -/

@[simp] theorem length_boolField (value : Bool) : (boolField value).length = 1 := rfl

/-- A string takes two bytes and its own. -/
@[simp] theorem length_stringField (value : Bytes) :
    (stringField value).length = 2 + value.length := by
  rw [stringField, List.length_append, length_i16Bytes]

@[simp] theorem length_nullStringField : (nullableStringField none).length = 2 := rfl

/-- A byte field takes four bytes and its own. -/
@[simp] theorem length_bytesField (value : Bytes) :
    (bytesField value).length = 4 + value.length := by
  rw [bytesField, List.length_append, length_i32Bytes]

@[simp] theorem length_arrayLenField (len : ℕ) : (arrayLenField len).length = 4 :=
  length_i32Bytes _

/-- An array takes four bytes and what its items take. -/
@[simp] theorem length_arrayField {α : Type} (item : α → Bytes) (items : List α) :
    (arrayField item items).length = 4 + (items.map fun a => (item a).length).sum := by
  rw [arrayField, List.length_append, length_arrayLenField, List.length_flatMap]

/-- An array of items of one size. -/
theorem length_fixedArrayField {α : Type} {item : α → Bytes} {k : ℕ}
    (h : ∀ a, (item a).length = k) (items : List α) :
    (arrayField item items).length = 4 + k * items.length := by
  rw [length_arrayField]
  simp only [h, List.map_const', List.sum_replicate_nat, Nat.mul_comm]

/-- Topic entries whose partitions are all of one size. -/
theorem length_topicsField {α : Type} {item : α → Bytes} {k : ℕ} (h : ∀ a, (item a).length = k)
    (topics : List (Topic α)) :
    (arrayField (topicField item) topics).length = 4 + shapeSize k (shape topics) := by
  rw [length_arrayField, shapeSize, shape, List.map_map]
  congr 2
  refine List.map_congr_left fun topic _ => ?_
  show _ = 6 + topic.name.length + k * topic.partitions.length
  rw [topicField, List.length_append, length_stringField, length_fixedArrayField h]
  omega

/-- A response takes eight bytes and its body. -/
@[simp] theorem length_responseFrame (correlationId : Int32) (body : Bytes) :
    (responseFrame correlationId body).length = 8 + body.length := by
  simp only [responseFrame, List.length_append, length_i32Bytes]
  omega

/-! ## Records -/

/-- The size of a record's body: attributes, deltas, key, value and no headers. -/
def bodySize (baseOffset : Int) (firstTimestamp : Int64) (record : Record) : ℕ :=
  1 + (putVarlong (saturatingSub record.timestampMs firstTimestamp)).length +
    (putVarint (Int32.ofInt (record.offset - baseOffset))).length +
    ((putVarint (optionalLen record.key)).length + (record.key.getD []).length) +
    ((putVarint (optionalLen record.value)).length + (record.value.getD []).length) + 1

/-- The size of a record in a batch. -/
def framedSize (baseOffset : Int) (firstTimestamp : Int64) (record : Record) : ℕ :=
  (putVarint (Int32.ofNat (bodySize baseOffset firstTimestamp record))).length +
    bodySize baseOffset firstTimestamp record

/-- The size of the record set of a partition: nothing, or a header and the framed records. -/
def recordSetSize : List Record → ℕ
  | [] => 0
  | first :: others =>
      61 + ((first :: others).map (framedSize first.offset first.timestampMs)).sum

/-- The size of a framed record is arithmetic on its fields. -/
theorem length_recordField (baseOffset : Int) (firstTimestamp : Int64) (record : Record) :
    (recordField baseOffset firstTimestamp record).length =
      framedSize baseOffset firstTimestamp record := by
  have hzero : (putVarint 0).length = 1 := by decide
  have hbody : (recordBody baseOffset firstTimestamp record).length =
      bodySize baseOffset firstTimestamp record := by
    simp only [recordBody, bodySize, List.length_append, List.length_cons, List.length_nil, hzero]
    omega
  rw [recordField, List.length_append, hbody, framedSize]

/-- The size of a record set is arithmetic on its records. -/
theorem length_recordSet (records : List Record) :
    (recordSet records).length = recordSetSize records := by
  rcases records with _ | ⟨first, others⟩
  · rfl
  · rw [recordSet, length_batchBytes, recordSetSize, List.length_flatMap]
    simp only [length_recordField]
    rfl

/-- A varint takes at most five bytes. -/
theorem length_putVarint_le (value : Int32) : (putVarint value).length ≤ 5 := by
  have hlt : (UInt32.ofBitVec (zigzag value.toBitVec)).toUInt64.toNat < 128 ^ (4 + 1) := by
    have := (UInt32.ofBitVec (zigzag value.toBitVec)).toNat_lt
    rw [UInt32.toNat_toUInt64]
    omega
  rw [putVarint, putUvarint, uvarintBytes_of_lt (by decide) hlt]
  exact length_uvarintBytes_le 4 _

/-- A varlong takes at most ten bytes. -/
theorem length_putVarlong_le (value : Int64) : (putVarlong value).length ≤ 10 :=
  length_uvarintBytes_le 9 _

/-- What the log charges for a record covers its framing. -/
theorem framedSize_le_recordSize (baseOffset : Int) (firstTimestamp : Int64) (record : Record) :
    framedSize baseOffset firstTimestamp record ≤ recordSize record := by
  have hlen := length_putVarint_le (Int32.ofNat (bodySize baseOffset firstTimestamp record))
  have htimestamp := length_putVarlong_le (saturatingSub record.timestampMs firstTimestamp)
  have hoffset := length_putVarint_le (Int32.ofInt (record.offset - baseOffset))
  have hkey := length_putVarint_le (optionalLen record.key)
  have hvalue := length_putVarint_le (optionalLen record.value)
  have hgetD : ∀ field : Option Bytes, (field.map List.length).getD 0 = (field.getD []).length := by
    rintro (_ | value) <;> rfl
  rw [recordSize, hgetD, hgetD, recordOverheadBytes]
  rw [framedSize]
  unfold bodySize at hlen ⊢
  omega

/-- The header of a batch is all that the log does not charge for. -/
theorem recordSetSize_le (records : List Record) :
    recordSetSize records ≤ 61 + (records.map recordSize).sum := by
  rcases records with _ | ⟨first, others⟩
  · exact Nat.zero_le _
  · refine Nat.add_le_add_left (List.sum_le_sum fun record _ => ?_) 61
    exact framedSize_le_recordSize _ _ record

/-! ## Responses -/

/-- The size of metadata entries: names, and how many partitions each has. -/
def metadataSize (entries : List (Bytes × ℕ)) : ℕ :=
  (entries.map fun entry => 9 + entry.1.length + 26 * entry.2).sum

/-- A partition with one replica has a fixed size. -/
theorem length_partitionMetadataField {partition : PartitionMetadata}
    (hreplicas : partition.replicas.length = 1) (hisr : partition.isr.length = 1) :
    (partitionMetadataField partition).length = 26 := by
  have hids : ∀ ids : List Int32, (arrayField i32Bytes ids).length = 4 + 4 * ids.length :=
    length_fixedArrayField length_i32Bytes
  simp only [partitionMetadataField, List.length_append, length_i16Bytes, length_i32Bytes, hids,
    hreplicas, hisr]

/-- A topic of a broker that holds every partition alone. -/
theorem length_topicMetadataField {topic : TopicMetadata}
    (h : ∀ partition ∈ topic.partitions, (partitionMetadataField partition).length = 26) :
    (topicMetadataField topic).length = 9 + topic.name.length + 26 * topic.partitions.length := by
  have hpartitions : (topic.partitions.map fun partition =>
      (partitionMetadataField partition).length).sum = 26 * topic.partitions.length := by
    rw [List.map_congr_left h, List.map_const', List.sum_replicate_nat, Nat.mul_comm]
  simp only [topicMetadataField, List.length_append, length_i16Bytes, length_stringField,
    length_boolField, length_arrayField, hpartitions]
  omega

/-- A fetched partition takes 30 bytes and its record set. -/
theorem length_fetchPartitionResultField {partition : FetchPartitionResult (List Record)}
    (haborted : partition.abortedTransactions = none) :
    (fetchPartitionResultField (partition.mapRecords recordSet)).length =
      30 + recordSetSize partition.records := by
  simp only [fetchPartitionResultField, FetchPartitionResult.mapRecords, List.length_append,
    length_i16Bytes, length_i32Bytes, length_i64Bytes, haborted, abortedField, length_bytesField,
    length_recordSet]
  omega

/-- The size of a fetch response without aborted transactions. -/
theorem length_fetchBody {topics : List (Topic (FetchPartitionResult (List Record)))}
    (h : ∀ topic ∈ topics, ∀ partition ∈ topic.partitions, partition.abortedTransactions = none) :
    (fetchBody (FetchResponse.onWire ⟨0, topics⟩)).length =
      8 + (topics.map fun topic => 6 + topic.name.length +
        (topic.partitions.map fun partition => 30 + recordSetSize partition.records).sum).sum := by
  have htopic : ∀ topic ∈ topics, (topicField fetchPartitionResultField ⟨topic.name,
      topic.partitions.map (FetchPartitionResult.mapRecords recordSet)⟩).length =
        6 + topic.name.length +
          (topic.partitions.map fun partition => 30 + recordSetSize partition.records).sum := by
    intro topic htopic
    show (stringField topic.name ++ arrayField fetchPartitionResultField
      (topic.partitions.map (FetchPartitionResult.mapRecords recordSet))).length = _
    rw [arrayField_map, List.length_append, length_stringField, length_arrayField,
      List.map_congr_left fun partition hpartition =>
        length_fetchPartitionResultField (h topic htopic partition hpartition)]
    omega
  rw [fetchBody, FetchResponse.onWire, arrayField_map, List.length_append, length_i32Bytes,
    length_arrayField, List.map_congr_left htopic]
  omega

end CharlotteBroker.Wire
