import CharlotteBroker.Core.Consumer
import CharlotteBroker.Wire.BatchRange

/-!
# Timestamps across windows

A batch stores the timestamp of its first record and, for each record, a difference to it. Fetch
responses encode each window afresh, so a stored record is written against a different timestamp
from every window it lies in. The differences are taken and undone with saturating arithmetic.

A `Sighting` of an offset is a read-uncommitted fetch whose window holds it, carried at some place
of an encoded fetch response, with what decoding the response gives for it.

* `sighted_eq_appended`: the record at the offset is the one that was appended there.
* `sightings_agree_iff`: two sightings show what was appended exactly if, in both, the difference to
  the first timestamp of the window fits an `i64`. Key and value are always right.
* `sightings_disagree`: the smallest and the largest timestamp in a row.
-/

namespace CharlotteBroker.Wire

open Lib Lib.Parser CharlotteBroker.Core

/-- The record set of a window, read back. -/
theorem decodeRecordBatchesWithIdentity_recordSet {records : List Record} (hne : records ≠ [])
    (hlen : records.length ≤ maxRecords) (hsize : (recordSet records).length ≤ maxFrameLen) :
    decodeRecordBatchesWithIdentity (recordSet records) =
      .ok ⟨records.map fun record => ⟨saturatingAdd (firstTimestamp records)
        (saturatingSub record.timestampMs (firstTimestamp records)), record.key, record.value⟩,
        none⟩ := by
  obtain ⟨first, others, rfl⟩ := List.exists_cons_of_ne_nil hne
  exact decodeRecordBatchesWithIdentity_batchBytes hlen (Nat.lt_of_le_of_lt hsize (by decide))

/-- A fetch of an offset without isolation, and a fetch response that carries its window. -/
structure Sighting (log : PartitionLog) (offset : Int) where
  /-- The fetch. -/
  args : FetchArgs
  window : FetchWindow
  uncommitted : args.readCommitted = false
  fetched : log.fetchWithIsolation args.offset args.maxRecords args.maxBytes args.readCommitted =
    .ok window
  /-- Where the offset is in the window. -/
  position : ℕ
  record : Record
  found : window.records[position]? = some record
  offset_eq : record.offset = offset
  /-- The response, and the place of the window in it. -/
  correlationId : Int32
  response : FetchResponse (List Record)
  topicIndex : ℕ
  partitionIndex : ℕ
  topic : Topic (FetchPartitionResult (List Record))
  partition : FetchPartitionResult (List Record)
  topic_eq : response.topics[topicIndex]? = some topic
  partition_eq : topic.partitions[partitionIndex]? = some partition
  carried : partition.records = window.records
  frame : Bytes
  encoded : encodeFetch correlationId response = .ok frame

namespace Sighting

variable {log : PartitionLog} {offset : Int} (sighting : Sighting log offset)

/-- What decoding the response gives for the offset. -/
def decoded : Option RecordData := do
  let batch ← batchAt sighting.frame sighting.topicIndex sighting.partitionIndex
  let decoded ← (decodeRecordBatchesWithIdentity batch).toOption
  decoded.records[sighting.position]?

/-- The timestamp the window's differences are taken against. -/
def base : Int64 := firstTimestamp sighting.window.records

/-- The difference of the record's timestamp to the first one of the window fits an `i64`. -/
def DeltaFits : Prop :=
  -2 ^ 63 ≤ sighting.record.timestampMs.toInt - sighting.base.toInt ∧
    sighting.record.timestampMs.toInt - sighting.base.toInt < 2 ^ 63

/-! ## What is decoded -/

/-- Something is seen. -/
theorem window_ne_nil : sighting.window.records ≠ [] := by
  intro hnil
  have hfound := sighting.found
  rw [hnil] at hfound
  cases hfound

/-- The batch at the place of a sighting holds the records of its window. -/
theorem batch_eq : batchAt sighting.frame sighting.topicIndex sighting.partitionIndex =
    some (recordSet sighting.window.records) := by
  rw [batchAt_of_encodeFetch sighting.encoded sighting.topic_eq sighting.partition_eq,
    sighting.carried]

/-- The window of a sighting is within the bounds on records and frames. -/
theorem window_fits : sighting.window.records.length ≤ maxRecords ∧
    (recordSet sighting.window.records).length ≤ maxFrameLen := by
  have htopic := (encodeFetch_eq_ok.mp sighting.encoded).1.2 sighting.topic
    (List.mem_of_getElem? sighting.topic_eq)
  have hpartition := htopic.2.2 sighting.partition (List.mem_of_getElem? sighting.partition_eq)
  rw [← sighting.carried]
  exact hpartition.2

/-- The position of the offset is read back with its timestamp taken against the first one. -/
theorem decoded_eq : sighting.decoded = some
    ⟨saturatingAdd sighting.base (saturatingSub sighting.record.timestampMs sighting.base),
      sighting.record.key, sighting.record.value⟩ := by
  obtain ⟨hlen, hsize⟩ := sighting.window_fits
  have hset := decodeRecordBatchesWithIdentity_recordSet sighting.window_ne_nil hlen hsize
  unfold decoded base
  rw [sighting.batch_eq, Option.bind_eq_bind, Option.bind_some, hset]
  simp only [Except.toOption, Option.bind_eq_bind, Option.bind_some, List.getElem?_map,
    sighting.found, Option.map_some]

/-- One sighting shows the record as it is stored exactly if the difference fits. -/
theorem decoded_iff : sighting.decoded = some sighting.record.data ↔ sighting.DeltaFits := by
  rw [sighting.decoded_eq, Option.some.injEq, Record.data, RecordData.mk.injEq]
  simp only [and_true]
  exact saturatingAdd_saturatingSub_iff _ _

end Sighting

/-! ## What was appended -/

/-- A record of the history is at its offset. -/
theorem getElem?_of_mem_history {log : PartitionLog} {history : List Record}
    (h : Tracks log history) {record : Record} (hmem : record ∈ history) :
    history[record.offset.toNat]? = some record := by
  obtain ⟨index, hindex, rfl⟩ := List.mem_iff_getElem.mp hmem
  rw [h.offsets index hindex, Int.zero_add, Int.toNat_natCast]
  exact List.getElem?_eq_getElem hindex

/-- **The record at an offset** is the one that was appended there. -/
theorem sighted_eq_appended (limit : Option ℕ) (ops : List LogOp) {offset : Int}
    (sighting : Sighting ((newLog limit).run ops) offset) :
    (acceptedBy (newLog limit) ops)[offset.toNat]? = some sighting.record := by
  have htracks := (tracks_newLog limit).run ops
  rw [List.nil_append] at htracks
  have hfetched := sighting.fetched
  rw [sighting.uncommitted] at hfetched
  obtain ⟨-, hrecords⟩ := htracks.fetch hfetched
  have hmem := List.mem_of_getElem? sighting.found
  rw [hrecords] at hmem
  have hstored := getElem?_of_mem_history htracks (List.mem_of_mem_drop (mem_of_mem_takeWithin hmem))
  rwa [sighting.offset_eq] at hstored

/-- **A record from every window.** For every reachable log, every offset and every two sightings of
it: both show the data that was appended at the offset exactly if in both the difference to the
first timestamp of the window fits an `i64`. Every sighting shows the appended key and value. -/
theorem sightings_agree_iff (limit : Option ℕ) (ops : List LogOp) (offset : Int)
    (first second : Sighting ((newLog limit).run ops) offset) :
    ∃ appended, (acceptedBy (newLog limit) ops)[offset.toNat]? = some appended ∧
      appended.offset = offset ∧
      (first.decoded = some appended.data ∧ second.decoded = some appended.data ↔
        first.DeltaFits ∧ second.DeltaFits) ∧
      ∀ sighting ∈ [first, second], ∃ timestampMs,
        sighting.decoded = some ⟨timestampMs, appended.key, appended.value⟩ := by
  have hfirst := sighted_eq_appended limit ops first
  have hsecond := sighted_eq_appended limit ops second
  have hsame : second.record = first.record :=
    Option.some.inj (hsecond.symm.trans hfirst)
  refine ⟨first.record, hfirst, first.offset_eq, ?_, fun sighting hsighting => ?_⟩
  · have hiff := second.decoded_iff
    rw [hsame] at hiff
    exact and_congr first.decoded_iff hiff
  · have hrecord : sighting.record = first.record :=
      Option.some.inj ((sighted_eq_appended limit ops sighting).symm.trans hfirst)
    rw [← hrecord]
    exact ⟨_, sighting.decoded_eq⟩

/-! ## The ends of the range -/

/-- The smallest timestamp and, at offset 1, the largest. -/
def extremes : List LogOp :=
  [.append [⟨Int64.minValue, none, some [97]⟩, ⟨Int64.maxValue, none, some [98]⟩]]

/-- The records from an offset on. -/
def extremeRecords (offset : ℕ) : List Record :=
  [⟨0, Int64.minValue, none, some [97]⟩, ⟨1, Int64.maxValue, none, some [98]⟩].drop offset

/-- Offset 1 in the window that starts at 0. -/
def fromZero : Sighting ((newLog none).run extremes) 1 where
  args := ⟨0, 10, 1024, false⟩
  window := ⟨2, 2, extremeRecords 0⟩
  uncommitted := rfl
  fetched := by decide +kernel
  position := 1
  record := ⟨1, Int64.maxValue, none, some [98]⟩
  found := rfl
  offset_eq := rfl
  correlationId := 7
  response := onePartition (extremeRecords 0)
  topicIndex := 0
  partitionIndex := 0
  topic := _
  partition := _
  topic_eq := rfl
  partition_eq := rfl
  carried := rfl
  frame := fetchBytes (extremeRecords 0)
  encoded := encodeFetch_fetchBytes (by decide +kernel)

/-- Offset 1 in the window that starts with it. -/
def fromOne : Sighting ((newLog none).run extremes) 1 where
  args := ⟨1, 10, 1024, false⟩
  window := ⟨2, 2, extremeRecords 1⟩
  uncommitted := rfl
  fetched := by decide +kernel
  position := 0
  record := ⟨1, Int64.maxValue, none, some [98]⟩
  found := rfl
  offset_eq := rfl
  correlationId := 7
  response := onePartition (extremeRecords 1)
  topicIndex := 0
  partitionIndex := 0
  topic := _
  partition := _
  topic_eq := rfl
  partition_eq := rfl
  carried := rfl
  frame := fetchBytes (extremeRecords 1)
  encoded := encodeFetch_fetchBytes (by decide +kernel)

/-- **Two windows, two timestamps.** The window that starts at offset 1 shows the timestamp that was
appended there, the window that starts at offset 0 shows -1. -/
theorem sightings_disagree :
    fromOne.decoded = some ⟨Int64.maxValue, none, some [98]⟩ ∧
      fromZero.decoded = some ⟨-1, none, some [98]⟩ ∧
      (acceptedBy (newLog none) extremes)[(1 : Int).toNat]? =
        some ⟨1, Int64.maxValue, none, some [98]⟩ ∧
      fromOne.decoded ≠ fromZero.decoded := by
  have hfits : fromOne.DeltaFits := by
    unfold Sighting.DeltaFits
    decide
  have hone : fromOne.decoded = some ⟨Int64.maxValue, none, some [98]⟩ :=
    fromOne.decoded_iff.mpr hfits
  have hcut : saturatingAdd Int64.minValue (saturatingSub Int64.maxValue Int64.minValue) = -1 := by
    decide
  have hzero : fromZero.decoded = some ⟨-1, none, some [98]⟩ := by
    rw [fromZero.decoded_eq]
    exact congrArg (fun timestampMs => some (RecordData.mk timestampMs none (some [98]))) hcut
  refine ⟨hone, hzero, by decide, ?_⟩
  rw [hone, hzero]
  decide

end CharlotteBroker.Wire
