import CharlotteBroker.Wire.Concatenation
import CharlotteBroker.Wire.Grammar

/-!
# The transactional bit of a record set

Decoding a record set folds the transactional bit of its batches into one optional producer
identity for the whole set. Here the set is read batch by batch, with the bit and the identity each
batch carries (`flaggedBatches`), and the two readings are compared.

* `decoded_flagged`: the decoded records are those of the batches in order; the decoded identity is
  that of every batch with the bit, and there is none if no batch has it. Batches without the bit
  leave no trace.
* `length_le_of_mem_flagged`: the decoder bounds the records of each batch, not those of the set.
* `decodes_producedTopics`: a Produce frame is its record sets, each decoded on its own.
-/

namespace CharlotteBroker.Wire

open Lib Lib.Parser CharlotteBroker.Core

/-! ## Batches with their bits -/

/-- A batch as its own header describes it. -/
structure FlaggedBatch where
  transactional : Bool
  producer : Int64 × Int16
  records : List RecordData
  deriving DecidableEq, Repr

/-- The body of a batch, read by its layout. -/
def flaggedFields : Decoder FlaggedBatch := do
  let _partitionLeaderEpoch ← Decoder.i32
  let _magic ← Decoder.i8
  let _crc ← Decoder.i32
  let attributes ← Decoder.i16
  let _lastOffsetDelta ← Decoder.i32
  let firstTimestamp ← Decoder.i64
  let _maxTimestamp ← Decoder.i64
  let producerId ← Decoder.i64
  let producerEpoch ← Decoder.i16
  let _baseSequence ← Decoder.i32
  let count ← Decoder.i32
  let records ← many framedRecord count.toInt.toNat
  return ⟨attributes &&& 0x10 ≠ 0, (producerId, producerEpoch),
    EncodedBatch.data ⟨none, firstTimestamp, records⟩⟩

/-- One batch of a record set, read by its layout. -/
def readFlagged : Decoder FlaggedBatch := do
  let _baseOffset ← Decoder.i64
  let batchLen ← Decoder.i32
  let batch ← Decoder.take batchLen.toInt.toNat
  Parser.ofExcept (whole .invalid flaggedFields batch)

/-- One more batch. -/
def nextFlagged (seen : List FlaggedBatch) : Decoder (List FlaggedBatch) := do
  return seen ++ [← readFlagged]

/-- The batches of a record set. A legacy message set is one batch without the bit. -/
def flaggedBatches (recordSet : Bytes) : List FlaggedBatch :=
  if recordSet[16]? = some 2 then
    match (whileMore nextFlagged []).run recordSet with
    | .ok (batches, _) => batches
    | .error _ => []
  else
    match decodeLegacyMessageSet recordSet with
    | .ok records => [⟨false, (-1, -1), records⟩]
    | .error _ => []

/-! ## What decoding makes of them -/

/-- The identity that decoding has after a batch, given the one before it. -/
structure FlaggedBatch.Folds (flagged : FlaggedBatch) (before after : Option (Int64 × Int16)) :
    Prop where
  set : flagged.transactional = true → after = some flagged.producer
  agrees : flagged.transactional = true → ∀ identity, before = some identity →
    identity = flagged.producer
  kept : flagged.transactional = false → after = before

/-- The identity a batch hands on follows from its flag and its producer. -/
theorem folds_of_nextIdentity {attributes : Int16} {producer : Int64 × Int16}
    {before after : Option (Int64 × Int16)}
    (h : nextIdentity attributes producer before = .ok after) (records : List RecordData) :
    FlaggedBatch.Folds ⟨attributes &&& 0x10 ≠ 0, producer, records⟩ before after := by
  unfold nextIdentity at h
  by_cases hbit : attributes &&& 0x10 ≠ 0
  · rw [if_pos hbit] at h
    split_ifs at h with hany
    cases h
    refine ⟨fun _ => rfl, fun _ identity hidentity => ?_, fun hoff => ?_⟩
    · by_contra hne
      exact hany (by simp [hidentity, hne])
    · exact absurd hbit (of_decide_eq_false hoff)
  · rw [if_neg hbit] at h
    cases h
    refine ⟨fun hon => ?_, fun hon => ?_, fun _ => rfl⟩
    · exact absurd (of_decide_eq_true hon) hbit
    · exact absurd (of_decide_eq_true hon) hbit

/-- The flagged reader follows the fields of a batch. -/
theorem tracks_batchFields (identity : Option (Int64 × Int16)) (batch : Bytes) :
    Tracks (batchFields identity batch) flaggedFields fun encoded flagged =>
      flagged.records = encoded.data ∧ flagged.Folds identity encoded.identity := by
  unfold batchFields flaggedFields
  refine Tracks.field _ fun _ => Tracks.field _ fun magic => Tracks.reject fun _ => ?_
  refine Tracks.field _ fun crc => Tracks.reject fun _ => ?_
  refine Tracks.field _ fun attributes => Tracks.reject fun _ => ?_
  refine Tracks.field _ fun _ => Tracks.field _ fun firstTimestamp => Tracks.field _ fun _ => ?_
  refine Tracks.field _ fun producerId => Tracks.field _ fun producerEpoch => ?_
  refine Tracks.field _ fun _ => Tracks.field _ fun count => Tracks.reject fun _ => ?_
  refine Tracks.ofExcept fun after hafter => Tracks.field _ fun records => ?_
  exact Tracks.pure ⟨rfl, folds_of_nextIdentity hafter _⟩

/-- The flagged reader follows the reader of a batch. -/
theorem tracks_readBatch (identity : Option (Int64 × Int16)) :
    Tracks (readBatch identity) readFlagged fun encoded flagged =>
      flagged.records = encoded.data ∧ flagged.Folds identity encoded.identity := by
  intro input encoded rest hrun
  obtain ⟨remaining, _, hget, hrun⟩ := run_bind_ok.mp hrun
  cases hget
  obtain ⟨_, _, hlong, hrun⟩ := run_bind_ok.mp hrun
  obtain ⟨-, rfl⟩ := run_reject_ok.mp hlong
  revert hrun
  apply Tracks.field
  intro _
  apply Tracks.field
  intro batchLen
  apply Tracks.reject
  intro _
  apply Tracks.field
  exact fun batch => (tracks_batchFields identity batch).whole

/-- The state of decoding after some batches: their records, and the identity of those with the
bit. -/
structure FoldedAs (seen : List EncodedBatch × Option (Int64 × Int16))
    (batches : List FlaggedBatch) : Prop where
  records : seen.1.flatMap EncodedBatch.data = batches.flatMap FlaggedBatch.records
  identity : ∀ batch ∈ batches, batch.transactional = true → seen.2 = some batch.producer
  absent : (∀ batch ∈ batches, batch.transactional = false) → seen.2 = none

/-- One more batch on both sides. -/
theorem FoldedAs.snoc {seen : List EncodedBatch × Option (Int64 × Int16)}
    {batches : List FlaggedBatch} (h : FoldedAs seen batches) {encoded : EncodedBatch}
    {flagged : FlaggedBatch} (hrecords : flagged.records = encoded.data)
    (hfolds : flagged.Folds seen.2 encoded.identity) :
    FoldedAs (seen.1 ++ [encoded], encoded.identity) (batches ++ [flagged]) := by
  refine ⟨?_, ?_, ?_⟩
  · rw [List.flatMap_append, List.flatMap_append, h.records, List.flatMap_singleton,
      List.flatMap_singleton, hrecords]
  · intro batch hbatch hon
    rcases List.mem_append.mp hbatch with hold | hnew
    · -- an earlier batch with the bit: the identity agrees with the new one, or is kept
      have hidentity := h.identity batch hold hon
      rcases hbit : flagged.transactional with _ | _
      · exact (hfolds.kept hbit).trans hidentity
      · rw [hfolds.agrees hbit _ hidentity]
        exact hfolds.set hbit
    · rw [List.mem_singleton.mp hnew] at hon ⊢
      exact hfolds.set hon
  · intro hoff
    rw [show (_, encoded.identity).2 = seen.2 from
      hfolds.kept (hoff flagged (List.mem_append_right _ List.mem_cons_self))]
    exact h.absent fun batch hbatch => hoff batch (List.mem_append_left _ hbatch)

/-- One round of the loop over the batches. -/
theorem tracks_nextBatch (seen : List EncodedBatch × Option (Int64 × Int16))
    (batches : List FlaggedBatch) (h : FoldedAs seen batches) :
    Tracks (nextBatch seen) (nextFlagged batches) FoldedAs :=
  (tracks_readBatch seen.2).bind fun _ _ hread => Tracks.pure (h.snoc hread.1 hread.2)

/-- What decoding keeps of a record set: the records of its batches in order, and the identity of
those with the bit. -/
structure DecodedAs (decoded : DecodedRecordBatch) (batches : List FlaggedBatch) : Prop where
  records : decoded.records = batches.flatMap FlaggedBatch.records
  identity : ∀ batch ∈ batches, batch.transactional = true →
    decoded.producer = some batch.producer
  absent : (∀ batch ∈ batches, batch.transactional = false) → decoded.producer = none

/-- **The bit after decoding.** -/
theorem decoded_flagged {recordSet : Bytes} {decoded : DecodedRecordBatch}
    (h : decodeRecordBatchesWithIdentity recordSet = .ok decoded) :
    DecodedAs decoded (flaggedBatches recordSet) := by
  unfold flaggedBatches
  by_cases hmagic : recordSet[16]? = some 2
  · rw [if_pos hmagic]
    obtain ⟨seen, hread, hdata⟩ := readBatches_of_decoded hmagic h
    have hstart : FoldedAs ([], none) [] :=
      ⟨rfl, fun _ hbatch => absurd hbatch List.not_mem_nil, fun _ => rfl⟩
    obtain ⟨batches, hrun, hfolded⟩ := Tracks.whileMore tracks_nextBatch hstart _ _ _ hread
    rw [hrun]
    exact ⟨hdata.symm.trans hfolded.records, hfolded.identity, hfolded.absent⟩
  · rw [if_neg hmagic]
    unfold decodeRecordBatchesWithIdentity at h
    split_ifs at h with hempty
    have hlegacy : ∃ records, decodeLegacyMessageSet recordSet = .ok records ∧
        decoded = ⟨records, none⟩ := by
      rcases hlegacy : decodeLegacyMessageSet recordSet with error | records
      · simp only [hlegacy] at h
        split at h
        · exact absurd ‹_› hmagic
        all_goals cases h
      · simp only [hlegacy] at h
        split at h
        · exact absurd ‹_› hmagic
        all_goals cases h
        all_goals exact ⟨records, rfl, rfl⟩
    obtain ⟨records, hrecords, rfl⟩ := hlegacy
    rw [hrecords]
    refine ⟨by simp, fun batch hbatch hon => ?_, fun _ => rfl⟩
    rw [List.mem_singleton.mp hbatch] at hon
    cases hon

/-! ## How many records -/

/-- The decoder bounds the records of each batch. -/
theorem yields_batchFields (identity : Option (Int64 × Int16)) (batch : Bytes) :
    Yields (batchFields identity batch) fun encoded => encoded.records.length ≤ maxRecords := by
  unfold batchFields
  refine Yields.skip fun _ => Yields.skip fun _ => Yields.skip fun _ => Yields.skip fun _ => ?_
  refine Yields.skip fun _ => Yields.skip fun _ => Yields.skip fun _ => Yields.skip fun _ => ?_
  refine Yields.skip fun _ => Yields.skip fun _ => Yields.skip fun _ => Yields.skip fun _ => ?_
  refine Yields.skip fun _ => Yields.skip fun count => ?_
  refine (Yields.reject _ _).bind fun _ hcount => Yields.skip fun _ => ?_
  refine (Yields.many_length _ _).bind fun records hlen => Yields.pure ?_
  rw [hlen]
  exact Nat.not_lt.mp fun hmany => hcount (.inr hmany)

/-- A batch that is read has no more records than the bound. -/
theorem yields_readBatch (identity : Option (Int64 × Int16)) :
    Yields (readBatch identity) fun encoded => encoded.records.length ≤ maxRecords := by
  unfold readBatch
  refine Yields.skip fun _ => Yields.skip fun _ => Yields.skip fun _ => Yields.skip fun _ => ?_
  refine Yields.skip fun _ => Yields.skip fun batch => ?_
  exact (yields_batchFields identity batch).whole _ _

/-- No batch of an accepted v2 set has more records than the decoder's bound. -/
theorem length_le_of_mem_flagged {recordSet : Bytes} {decoded : DecodedRecordBatch}
    (hmagic : recordSet[16]? = some 2)
    (h : decodeRecordBatchesWithIdentity recordSet = .ok decoded) {batch : FlaggedBatch}
    (hbatch : batch ∈ flaggedBatches recordSet) : batch.records.length ≤ maxRecords := by
  have hstep : ∀ (seen : List EncodedBatch × Option (Int64 × Int16)) (batches : List FlaggedBatch),
      (∀ batch ∈ batches, batch.records.length ≤ maxRecords) →
      Tracks (nextBatch seen) (nextFlagged batches) fun _ batches =>
        ∀ batch ∈ batches, batch.records.length ≤ maxRecords := by
    intro seen batches hall input a rest hrun
    obtain ⟨encoded, middle, hread, hpure⟩ := run_bind_ok.mp hrun
    obtain ⟨-, rfl⟩ := run_pure_ok.mp hpure
    obtain ⟨flagged, hflagged, hrecords, -⟩ := tracks_readBatch seen.2 _ _ _ hread
    refine ⟨_, run_bind_ok.mpr ⟨flagged, middle, hflagged, rfl⟩, fun other hother => ?_⟩
    rcases List.mem_append.mp hother with hold | hnew
    · exact hall other hold
    · rw [List.mem_singleton.mp hnew, hrecords, EncodedBatch.data, List.length_map]
      exact yields_readBatch seen.2 _ _ _ hread
  obtain ⟨seen, hread, -⟩ := readBatches_of_decoded hmagic h
  have hloop : Tracks (whileMore nextBatch ([], none)) (whileMore nextFlagged []) _ :=
    Tracks.whileMore hstep fun _ hnone => absurd hnone List.not_mem_nil
  obtain ⟨batches, hrun, hall⟩ := hloop _ _ _ hread
  unfold flaggedBatches at hbatch
  rw [if_pos hmagic, hrun] at hbatch
  exact hall batch hbatch

/-! ## The record sets of a Produce frame -/

/-- A partition entry of a Produce request as it stands in the frame. -/
structure ProducedSet where
  partition : Int32
  recordSet : Bytes
  deriving DecidableEq, Repr

/-- The entry as the engine gets it. -/
def ProducedSet.decoded (set : ProducedSet) : ProducePartition :=
  match decodeRecordBatchesWithIdentity set.recordSet with
  | .ok decoded => ⟨set.partition, decoded.records, decoded.producer⟩
  | .error _ => ⟨set.partition, [], none⟩

def producedSet : Decoder ProducedSet := do
  let partition ← Decoder.i32
  let recordSet ← requiredBytes
  return ⟨partition, recordSet⟩

/-- A Produce frame, its record sets left as they are. -/
def readProduced : Decoder (List (Topic ProducedSet)) := do
  let _length ← Decoder.i32
  let _apiKey ← Decoder.i16
  let _apiVersion ← Decoder.i16
  let _correlationId ← Decoder.i32
  let _clientId ← Decoder.nullableStringBytes
  let _transactionalId ← Decoder.nullableStringBytes
  let _acks ← Decoder.i16
  let _timeoutMs ← Decoder.i32
  Decoder.array (topic producedSet)

/-- The topics of a Produce frame. -/
def producedTopics (frame : Bytes) : List (Topic ProducedSet) :=
  match readProduced.run frame with
  | .ok (topics, _) => topics
  | .error _ => []

/-- The entry was decoded from the set. -/
structure ProducedSet.Decodes (partition : ProducePartition) (set : ProducedSet) : Prop where
  eq : partition = set.decoded
  accepted : ∃ decoded, decodeRecordBatchesWithIdentity set.recordSet = .ok decoded ∧
    partition.records = decoded.records ∧ partition.producer = decoded.producer
  nonempty : partition.records ≠ []

/-- The reader of produced sets follows the decoder of an entry. -/
theorem tracks_producePartition :
    Tracks producePartition producedSet ProducedSet.Decodes := by
  unfold producePartition producedSet
  refine Tracks.field _ fun partition => Tracks.field _ fun recordSet => ?_
  refine Tracks.ofExcept fun decoded hdecoded => Tracks.reject fun hne => Tracks.pure ?_
  refine ⟨?_, ⟨decoded, hdecoded, rfl, rfl⟩, hne⟩
  unfold ProducedSet.decoded
  rw [hdecoded]

/-- Readers of topics follow each other if those of their entries do. -/
theorem tracks_topics {α β : Type} {item : Decoder α} {item' : Decoder β} {R : α → β → Prop}
    (h : Tracks item item' R) :
    Tracks (Decoder.array (topic item)) (Decoder.array (topic item'))
      (List.Forall₂ fun entry entry' =>
        entry.name = entry'.name ∧ List.Forall₂ R entry.partitions entry'.partitions) := by
  have htopic : Tracks (topic item) (topic item') fun entry entry' =>
      entry.name = entry'.name ∧ List.Forall₂ R entry.partitions entry'.partitions := by
    refine Tracks.field _ fun name => ?_
    exact (Tracks.field _ fun len => h.many len).bind fun _ _ hrest => Tracks.pure ⟨rfl, hrest⟩
  exact Tracks.field _ fun len => htopic.many len

/-- **A Produce frame is its record sets**, each decoded on its own. -/
theorem decodes_producedTopics {frame : Bytes} {header : Header} {transactionalId : Option Bytes}
    {acks : Int16} {timeoutMs : Int32} {topics : List (Topic ProducePartition)}
    (h : decodeRequest frame = .ok ⟨header, .produce transactionalId acks timeoutMs topics⟩) :
    List.Forall₂ (fun entry entry' => entry.name = entry'.name ∧
        List.Forall₂ ProducedSet.Decodes entry.partitions entry'.partitions)
      topics (producedTopics frame) := by
  obtain ⟨middle, hbody, hframe⟩ := run_readRequestFrame h
  obtain ⟨_, rest, hid, hbody⟩ := run_bind_ok.mp hbody
  obtain ⟨_, rest', hacks, hbody⟩ := run_bind_ok.mp hbody
  obtain ⟨_, rest'', htimeout, hbody⟩ := run_bind_ok.mp hbody
  obtain ⟨decoded, _, htopics, hbody⟩ := run_bind_ok.mp hbody
  obtain ⟨hbody, rfl⟩ := run_pure_ok.mp hbody
  cases hbody
  obtain ⟨sets, hsets, hall⟩ := tracks_topics tracks_producePartition _ _ _ htopics
  have hrun : readProduced.run frame = .ok (sets, []) := by
    refine (hframe _).trans ?_
    refine run_bind_ok.mpr ⟨_, _, hid, ?_⟩
    refine run_bind_ok.mpr ⟨_, _, hacks, ?_⟩
    exact run_bind_ok.mpr ⟨_, _, htimeout, hsets⟩
  unfold producedTopics
  rw [hrun]
  exact hall

end CharlotteBroker.Wire
