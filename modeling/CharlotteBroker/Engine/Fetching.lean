import CharlotteBroker.Core.LogFetch
import CharlotteBroker.Engine.Handlers
import CharlotteBroker.Wire.ReadBack
import CharlotteBroker.Wire.Sizes

/-!
# Fetches through the engine

Three accounts of size meet in a fetch: the log's charge of 32 bytes for each record beside its key
and value, the frame bound of the produce request the records came in, and the frame bound of the
record set they are sent back in.

* `Engine.selected`: what a partition of a fetch request reads of its log.
* `fetch_answered_iff`: after any frames, a fetch from an existing partition at an offset in range
  is answered, with the record at that offset first, exactly if the record set of the selected
  records fits a frame.
* `recordSetSize_selected_le`: that fails by the 61 bytes of a batch header at most, unless the
  first record alone is over the budget.
* `unreadable`: two records that were accepted one by one and cannot be fetched together.
-/

namespace CharlotteBroker

open Std CharlotteBroker.Core Lib CharlotteBroker.Runtime Wire

/-- The records a partition of a fetch request reads of its log. -/
def Engine.selected (engine : Engine) (log : PartitionLog) (maxBytes : Int32)
    (readCommitted : Bool) (partition : FetchPartition) : List Record :=
  takeWithin recordSize engine.maxFetchRecords
    (engine.fetchBudget maxBytes partition.partitionMaxBytes)
    (log.visible readCommitted partition.fetchOffset.toInt)

/-- The answer to an existing partition, read at an offset in range. -/
def Engine.windowAnswer (engine : Engine) (log : PartitionLog) (maxBytes : Int32)
    (readCommitted : Bool) (partition : FetchPartition) : FetchPartitionResult (List Record) :=
  ⟨partition.partition, noError, Int64.ofInt log.nextOffset, Int64.ofInt log.lastStableOffset, none,
    engine.selected log maxBytes readCommitted partition⟩

/-- The frame answers a fetch of one partition with a record set that starts with the record: based
at its offset, and with its timestamp, key and value first. -/
def StartsWith (correlationId : Int32) (record : Record) (frame : Bytes) : Prop :=
  ∃ read name partition deltas data, ReadsAs readFetch correlationId read frame ∧
    read.topics = [⟨name, [partition]⟩] ∧
    partition.records.take 8 = i64Bytes (Int64.ofInt record.offset) ∧
    storedOffsetDeltas partition.records = .ok (0 :: deltas) ∧
    decodeRecordBatches partition.records = .ok (record.data :: data)

/-! ## What is read -/

section Answer

variable {engine : Engine} {view : View} {maxBytes : Int32} {readCommitted : Bool} {name : Bytes}
  {partition : FetchPartition}

/-- An existing partition read at an offset in range. -/
theorem fetchAnswer_of_inRange {log : PartitionLog}
    (hlog : view.logs ⟨name, partition.partition.toInt⟩ = log) (hformed : log.WellFormed)
    (hexists : engine.broker.catalog.checkPartition name partition.partition.toInt = .ok ())
    (hrange : log.InRange partition.fetchOffset.toInt) :
    engine.fetchAnswer view maxBytes readCommitted name partition =
      engine.windowAnswer log maxBytes readCommitted partition := by
  unfold Engine.fetchAnswer
  rw [hexists, hlog, PartitionLog.fetchWithIsolation, PartitionLog.fetchInner_eq hformed,
    if_pos hrange]
  rfl

/-- At an offset of a record that is shown, that record is read first. -/
theorem head?_selected {log : PartitionLog} (hformed : log.WellFormed)
    (hmax : 0 < engine.maxFetchRecords)
    (hstart : log.startOffset ≤ partition.fetchOffset.toInt)
    (hnext : partition.fetchOffset.toInt < log.nextOffset) :
    ∃ batch ∈ log.batches, ∃ record ∈ batch.records, record.offset = partition.fetchOffset.toInt ∧
      (engine.selected log maxBytes false partition).head? = some record := by
  obtain ⟨batch, hbatch, record, hrecord, hoffset⟩ := hformed.exists_record hstart hnext
  refine ⟨batch, hbatch, record, hrecord, hoffset, ?_⟩
  rw [Engine.selected, head?_takeWithin hmax, ← hoffset]
  exact head?_visible hformed hbatch rfl hrecord

end Answer

/-- Selected records are over the budget by a batch header at most, if the first one is within
it. -/
theorem recordSetSize_selected_le (engine : Engine) (log : PartitionLog) (maxBytes : Int32)
    (readCommitted : Bool) (partition : FetchPartition)
    (hfirst : ∀ record, (log.visible readCommitted partition.fetchOffset.toInt).head? = some record →
      recordSize record ≤ engine.fetchBudget maxBytes partition.partitionMaxBytes) :
    recordSetSize (engine.selected log maxBytes readCommitted partition) ≤
      61 + engine.fetchBudget maxBytes partition.partitionMaxBytes :=
  Nat.le_trans (recordSetSize_le _) (Nat.add_le_add_left (sum_takeWithin_le hfirst) 61)

/-! ## What is sent -/

/-- A record set that fits starts with the first record. -/
theorem startsWith_recordSet {records : List Record} {record : Record}
    (hfirst : records.head? = some record) (hlen : records.length ≤ maxRecords)
    (hfits : (recordSet records).length ≤ maxFrameLen) :
    ∃ deltas data, (recordSet records).take 8 = i64Bytes (Int64.ofInt record.offset) ∧
      storedOffsetDeltas (recordSet records) = .ok (0 :: deltas) ∧
      decodeRecordBatches (recordSet records) = .ok (record.data :: data) := by
  obtain ⟨others, rfl⟩ := List.head?_eq_some_iff.mp hfirst
  have hshort : (batchBytes record.offset (record :: others)).length < 2 ^ 31 :=
    Nat.lt_of_le_of_lt hfits (by decide)
  have hdelta : Int32.ofInt (record.offset - record.offset) = 0 := by rw [Int.sub_self]; rfl
  have htimestamp : saturatingAdd record.timestampMs
      (saturatingSub record.timestampMs record.timestampMs) = record.timestampMs :=
    saturatingAdd_saturatingSub (by omega) (by omega)
  have hdeltas : ∃ deltas, storedOffsetDeltas (recordSet (record :: others)) =
      .ok (0 :: deltas) := by
    rw [recordSet, storedOffsetDeltas, readBatches_batchBytes hlen hshort, ← hdelta]
    exact ⟨_, rfl⟩
  have hdata : ∃ data, decodeRecordBatches (recordSet (record :: others)) =
      .ok (record.data :: data) := by
    rw [recordSet, decodeRecordBatches, decodeRecordBatchesWithIdentity_batchBytes hlen hshort,
      Record.data, ← htimestamp]
    exact ⟨_, rfl⟩
  obtain ⟨deltas, hdeltas⟩ := hdeltas
  obtain ⟨data, hdata⟩ := hdata
  refine ⟨deltas, data, ?_, hdeltas, hdata⟩
  rw [recordSet, batchBytes, List.append_assoc]
  exact List.take_left' (length_i64Bytes _)

section Answered

variable {correlationId : Int32} {name : Bytes} {partition : FetchPartitionResult (List Record)}

/-- The frame of an answer for one partition. -/
def oneFetchFrame (correlationId : Int32) (name : Bytes)
    (partition : FetchPartitionResult (List Record)) : Bytes :=
  responseFrame correlationId (fetchBody (FetchResponse.onWire ⟨0, [⟨name, [partition]⟩]⟩))

theorem length_oneFetchFrame (haborted : partition.abortedTransactions = none) :
    (oneFetchFrame correlationId name partition).length =
      52 + name.length + recordSetSize partition.records := by
  have hnone : ∀ topic ∈ [(⟨name, [partition]⟩ : Topic _)], ∀ answer ∈ topic.partitions,
      answer.abortedTransactions = none := by
    simpa using haborted
  rw [oneFetchFrame, length_responseFrame, length_fetchBody hnone]
  simp only [List.map_cons, List.map_nil, List.sum_cons, List.sum_nil]
  omega

/-- An answer for one partition fits if its record set does. -/
theorem fits_oneFetch (hname : name.length ≤ maxStringLen)
    (hlen : partition.records.length ≤ maxRecords)
    (haborted : partition.abortedTransactions = none)
    (hfits : recordSetSize partition.records ≤ maxFrameLen) :
    [(⟨name, [partition]⟩ : Topic _)].length ≤ maxArrayLen ∧
      ∀ topic ∈ [(⟨name, [partition]⟩ : Topic _)], TopicFits FetchPartitionResult.Fits topic := by
  have hone : 1 ≤ maxArrayLen := by decide
  refine ⟨hone, fun topic htopic => ?_⟩
  rw [List.mem_singleton.mp htopic]
  refine ⟨hname, hone, fun answer hanswer => ?_⟩
  rw [List.mem_singleton.mp hanswer]
  refine ⟨?_, hlen, by rwa [length_recordSet]⟩
  rw [haborted]
  exact fun _ h => nomatch h

theorem encodeFetch_one (hname : name.length ≤ maxStringLen)
    (hlen : partition.records.length ≤ maxRecords)
    (haborted : partition.abortedTransactions = none) {frame : Bytes} :
    encodeFetch correlationId ⟨0, [⟨name, [partition]⟩]⟩ = .ok frame ↔
      recordSetSize partition.records ≤ maxFrameLen ∧
        frame = oneFetchFrame correlationId name partition := by
  refine encodeFetch_eq_ok.trans (and_congr_left fun _ => ⟨fun h => ?_, fun h => ?_⟩)
  · rw [← length_recordSet]
    exact ((h.2 _ List.mem_cons_self).2.2 _ List.mem_cons_self).2.2
  · exact fits_oneFetch hname hlen haborted h

/-- The frame of an answer starts with the first of its records. -/
theorem startsWith_oneFetchFrame (hname : name.length ≤ maxStringLen)
    (hlen : partition.records.length ≤ maxRecords)
    (haborted : partition.abortedTransactions = none)
    (hfits : recordSetSize partition.records ≤ maxFrameLen) {record : Record}
    (hfirst : partition.records.head? = some record) :
    StartsWith correlationId record (oneFetchFrame correlationId name partition) := by
  have hall := fits_oneFetch hname hlen haborted hfits
  have hshort : (oneFetchFrame correlationId name partition).length < 2 ^ 31 := by
    rw [length_oneFetchFrame haborted]
    unfold maxStringLen at hname
    unfold maxFrameLen at hfits
    omega
  rw [← length_recordSet] at hfits
  obtain ⟨deltas, data, hset⟩ := startsWith_recordSet hfirst hlen hfits
  exact ⟨_, name, _, deltas, data, readsAs_responseFrame (reads_fetch hall) hshort, rfl, hset⟩

end Answered

/-! ## Fetches after any frames -/

section Reached

variable {n : ℕ} [NeZero n] {frame : Bytes} {header : Header}
  {replicaId maxWaitMs minBytes maxBytes : Int32} {readCommitted : Bool} {name : Bytes}
  {partition : FetchPartition}

section Handled

variable {engine : Engine} {shards : Fin n → Shard} {log : PartitionLog}
  (hdecode : decodeRequest frame = .ok ⟨header,
    .fetch replicaId maxWaitMs minBytes maxBytes readCommitted [⟨name, [partition]⟩]⟩)
  (hexists : engine.broker.catalog.checkPartition name partition.partition.toInt = .ok ())
  (hmax : engine.maxFetchRecords ≤ maxRecords)
  (hlog : (viewOf engine.broker shards).logs ⟨name, partition.partition.toInt⟩ = log)
  (hformed : log.WellFormed) (hrange : log.InRange partition.fetchOffset.toInt)

include hdecode hexists hlog hformed hrange

/-- A frame that fetches one existing partition at an offset in range is answered with the records
it selects, as one batch. -/
theorem handle_fetch :
    (engine.handle shards frame).2 = encodeFetch header.correlationId
      ⟨0, [⟨name, [engine.windowAnswer log maxBytes readCommitted partition]⟩]⟩ := by
  rw [(Engine.viewOf_handle engine shards frame).2, Engine.onView_of_decode hdecode,
    ← fetchAnswer_of_inRange hlog hformed hexists hrange]
  exact congrArg Prod.snd (Engine.exec_fetch _ _ _ _ _)

include hmax

/-- It fails with one error only. -/
theorem handle_fetch_error {x : Error} (h : (engine.handle shards frame).2 = .error x) :
    x = .tooLarge := by
  rw [handle_fetch hdecode hexists hlog hformed hrange] at h
  refine encodeFetch_error (fun topic htopic answer hanswer => ?_) h
  rw [List.mem_singleton.mp htopic] at hanswer
  rw [List.mem_singleton.mp hanswer]
  exact Nat.le_trans (length_takeWithin_le _ _ _ _) hmax

/-- It is answered exactly if the batch fits a frame. -/
theorem handle_fetch_eq_ok {response : Bytes} :
    (engine.handle shards frame).2 = .ok response ↔
      recordSetSize (engine.selected log maxBytes readCommitted partition) ≤ maxFrameLen ∧
        response = oneFetchFrame header.correlationId name
          (engine.windowAnswer log maxBytes readCommitted partition) := by
  have hname : name.length ≤ maxStringLen :=
    ((decodeRequest_bounded hdecode).2.2 _ List.mem_cons_self).2.1
  have hlen : (engine.selected log maxBytes readCommitted partition).length ≤ maxRecords :=
    Nat.le_trans (length_takeWithin_le _ _ _ _) hmax
  rw [handle_fetch hdecode hexists hlog hformed hrange]
  exact encodeFetch_one hname hlen rfl

end Handled

/-- **What can be fetched.** After any frames through an engine with the default bounds, take a
frame that fetches one existing partition, at an offset between its start and its high watermark. It
is answered, with the record at that offset first if it reads uncommitted below the high watermark,
exactly if the records it selects fit a frame as one batch. -/
theorem fetch_answered_iff (broker : ShardConfig) (identity : BrokerIdentity)
    (frames : List Bytes)
    (hdecode : decodeRequest frame = .ok ⟨header,
      .fetch replicaId maxWaitMs minBytes maxBytes readCommitted [⟨name, [partition]⟩]⟩)
    (hexists : broker.catalog.checkPartition name partition.partition.toInt = .ok ())
    (hrange : ((viewOf broker ((Engine.new broker (.new identity)).after n frames)).logs
      ⟨name, partition.partition.toInt⟩).InRange partition.fetchOffset.toInt) :
    let engine := Engine.new broker (.new identity)
    let shards := engine.after n frames
    let log := (viewOf broker shards).logs ⟨name, partition.partition.toInt⟩
    (∃ response, (engine.handle shards frame).2 = .ok response ∧
        (readCommitted = false → partition.fetchOffset.toInt < log.nextOffset →
          ∃ batch ∈ log.batches, ∃ record ∈ batch.records,
            record.offset = partition.fetchOffset.toInt ∧
              StartsWith header.correlationId record response)) ↔
      recordSetSize (engine.selected log maxBytes readCommitted partition) ≤ maxFrameLen := by
  intro engine shards log
  have hformed : log.WellFormed := by
    have hafter := @Engine.viewAfter_wellFormed n _ engine frames
      ⟨name, partition.partition.toInt⟩
    rwa [← Engine.viewOf_after] at hafter
  have hname : name.length ≤ maxStringLen :=
    ((decodeRequest_bounded hdecode).2.2 _ List.mem_cons_self).2.1
  have hmax : engine.maxFetchRecords ≤ maxRecords := Nat.le_refl _
  have hlen : (engine.selected log maxBytes readCommitted partition).length ≤ maxRecords :=
    length_takeWithin_le _ _ _ _
  constructor
  · rintro ⟨response, hresponse, -⟩
    exact ((handle_fetch_eq_ok hdecode hexists hmax rfl hformed hrange).mp hresponse).1
  · intro hfits
    refine ⟨_, (handle_fetch_eq_ok hdecode hexists hmax rfl hformed hrange).mpr ⟨hfits, rfl⟩, ?_⟩
    rintro rfl hnext
    have hpos : 0 < engine.maxFetchRecords := Nat.zero_lt_succ _
    obtain ⟨batch, hbatch, record, hrecord, hoffset, hfirst⟩ :=
      @head?_selected engine maxBytes partition log hformed hpos hrange.1 hnext
    refine ⟨batch, hbatch, record, hrecord, hoffset, ?_⟩
    exact startsWith_oneFetchFrame hname hlen rfl hfits hfirst

/-- One small record, fetched back. -/
theorem fetch_answered_iff_small :
    let engine := Engine.new oneTopic (.new ⟨0, [104], 9092⟩)
    let shards := engine.after 1 [produceFrame [116] 0 ⟨0, 7, none, some [1]⟩]
    let frame := (⟨⟨1, 4, 0, none⟩, .fetch (-1) 0 0 1024 false [⟨[116], [⟨0, 0, 1024⟩]⟩]⟩ :
      Request).ser
    ∃ response, (engine.handle shards frame).2 = .ok response ∧
      ∃ batch ∈ ((viewOf oneTopic shards).logs ⟨[116], 0⟩).batches, ∃ record ∈ batch.records,
        record.offset = 0 ∧ StartsWith 0 record response := by
  intro engine shards frame
  have hiff := @fetch_answered_iff 1 _ frame ⟨1, 4, 0, none⟩ (-1) 0 0 1024 false [116]
    ⟨0, 0, 1024⟩ oneTopic ⟨0, [104], 9092⟩
    [produceFrame [116] 0 ⟨0, 7, none, some [1]⟩] (by decide +kernel) (by decide +kernel)
    (by decide +kernel)
  obtain ⟨response, hresponse, hstarts⟩ := hiff.mpr (by decide +kernel)
  exact ⟨response, hresponse, hstarts rfl (by decide +kernel)⟩

end Reached

/-! ## Two records that cannot be fetched together -/

/-- A record without a key. -/
def keyless (offset : Int) (value : Bytes) : Record := ⟨offset, 0, none, some value⟩

section Keyless

variable {value : Bytes}

theorem length_le_framedSize (baseOffset : Int) (firstTimestamp : Int64) (offset : Int) :
    2 + value.length ≤ framedSize baseOffset firstTimestamp (keyless offset value) := by
  simp only [framedSize, bodySize, keyless, Option.getD_some, Option.getD_none, List.length_nil]
  omega

/-- The frame that produces a record fits if the value leaves room for a batch header. -/
theorem onView_produce_keyless (view : View) (hfits : value.length + 200 ≤ maxFrameLen) :
    (oneTopicEngine.onView 1 view (produceFrame [116] 0 (keyless 0 value))).1 =
      { view with
        logs := Function.update view.logs ⟨[116], 0⟩
          ((view.logs ⟨[116], 0⟩).appendData [(keyless 0 value).data]).1 } := by
  have hbatch : (batchBytes (keyless 0 value).offset [keyless 0 value]).length ≤
      93 + value.length := by
    have hle := recordSetSize_le [keyless 0 value]
    rw [← length_recordSet] at hle
    refine Nat.le_trans hle (Nat.le_of_eq ?_)
    simp only [List.map_cons, List.map_nil, List.sum_cons, List.sum_nil, recordSize, keyless,
      recordOverheadBytes, Option.map_some, Option.map_none, Option.getD_some, Option.getD_none]
    omega
  have hexists : oneTopicEngine.broker.catalog.checkPartition [116] 0 = .ok () := by decide
  have hdecode := @decodeRequest_produceFrame [116] (by decide) (by decide) 0 (keyless 0 value)
    (by simp only [List.length_cons, List.length_nil]; omega)
  rw [Engine.onView_of_decode hdecode]
  exact Engine.exec_produce_one view 0 hexists

/-- A log with two such records. -/
def keylessTwice (value : Bytes) : PartitionLog :=
  (((newLog none).appendData [(keyless 0 value).data]).1.appendData [(keyless 0 value).data]).1

theorem logs_keyless_twice (hfits : value.length + 200 ≤ maxFrameLen) :
    (oneTopicEngine.viewAfter 1 ([produceFrame [116] 0 (keyless 0 value)] ++
      [produceFrame [116] 0 (keyless 0 value)])).logs ⟨[116], 0⟩ = keylessTwice value := by
  rw [Engine.viewAfter_append, onView_produce_keyless _ hfits, ← List.nil_append [produceFrame _ _ _],
    Engine.viewAfter_append, onView_produce_keyless _ hfits]
  simp only [Function.update_self]
  rfl

theorem nextOffset_keylessTwice : (keylessTwice value).nextOffset = 2 := rfl

theorem startOffset_keylessTwice : (keylessTwice value).startOffset = 0 := rfl

theorem visible_keylessTwice :
    (keylessTwice value).visible false 0 = [keyless 0 value, keyless 1 value] := rfl

/-- A fetch of a mebibyte from the first partition. -/
def fetchFrame : Bytes :=
  (⟨⟨1, 4, 0, none⟩, .fetch (-1) 0 0 1048576 false [⟨[116], [⟨0, 0, 1048576⟩]⟩]⟩ : Request).ser

theorem selected_keylessTwice (hvalue : value.length = 524256) :
    oneTopicEngine.selected (keylessTwice value) 1048576 false ⟨0, 0, 1048576⟩ =
      [keyless 0 value, keyless 1 value] := by
  have hsize : ∀ offset, recordSize (keyless offset value) = 524288 := by
    intro offset
    simp only [recordSize, keyless, recordOverheadBytes, Option.map_some, Option.map_none,
      Option.getD_some, Option.getD_none, hvalue]
  have hbudget : oneTopicEngine.fetchBudget 1048576 1048576 = 1048576 := by decide
  rw [Engine.selected, hbudget]
  show takeWithin recordSize 1024 1048576 ((keylessTwice value).visible false 0) = _
  rw [visible_keylessTwice]
  simp [takeWithin, takeWithinFrom, hsize]

/-- Two records that the log charges a mebibyte for are more than a mebibyte on the wire. -/
theorem lt_recordSetSize_keyless (hvalue : value.length = 524256) :
    maxFrameLen < recordSetSize [keyless 0 value, keyless 1 value] := by
  have hfirst := @length_le_framedSize value 0 0 0
  have hsecond := @length_le_framedSize value 0 0 1
  have hsum : recordSetSize [keyless 0 value, keyless 1 value] =
      61 + (framedSize 0 0 (keyless 0 value) + (framedSize 0 0 (keyless 1 value) + 0)) := rfl
  rw [hsum]
  unfold maxFrameLen
  omega

/-- Two produce frames with such values, then a fetch of both. -/
theorem fetch_keyless_fails (hvalue : value.length = 524256) :
    let frame := produceFrame [116] 0 (keyless 0 value)
    let shards := oneTopicEngine.after 1 [frame, frame]
    let log := (viewOf oneTopicEngine.broker shards).logs ⟨[116], 0⟩
    log.startOffset = 0 ∧ log.nextOffset = 2 ∧
      (oneTopicEngine.handle shards fetchFrame).2 = .error .tooLarge := by
  intro frame shards log
  have hlog : log = keylessTwice value := by
    have hafter := @logs_keyless_twice value (by rw [hvalue]; decide)
    rwa [← Engine.viewOf_after] at hafter
  have hformed : log.WellFormed := by
    have hafter := @Engine.viewAfter_wellFormed 1 _ oneTopicEngine [frame, frame] ⟨[116], 0⟩
    rwa [← Engine.viewOf_after] at hafter
  have hrange : (keylessTwice value).InRange 0 :=
    ⟨Int.le_of_eq startOffset_keylessTwice, by rw [nextOffset_keylessTwice]; decide⟩
  have hdecode : decodeRequest fetchFrame = .ok ⟨⟨1, 4, 0, none⟩,
      .fetch (-1) 0 0 1048576 false [⟨[116], [⟨0, 0, 1048576⟩]⟩]⟩ := by decide
  rw [hlog] at hformed ⊢
  refine ⟨startOffset_keylessTwice, nextOffset_keylessTwice, ?_⟩
  rcases hresult : (oneTopicEngine.handle shards fetchFrame).2 with error | response
  · rw [handle_fetch_error hdecode (by decide) (Nat.le_refl _) hlog hformed hrange hresult]
  · have hok := (handle_fetch_eq_ok hdecode (by decide) (Nat.le_refl _) hlog hformed
      hrange).mp hresult
    rw [selected_keylessTwice hvalue] at hok
    exact absurd hok.1 (Nat.not_le.mpr (lt_recordSetSize_keyless hvalue))

/-- **Accepted and out of reach.** Two produce frames with a value of 524,256 bytes each are
accepted. A fetch of both is within the budget and fails as too large, at an offset in range. -/
theorem unreadable :
    let frame := produceFrame [116] 0 (keyless 0 (List.replicate 524256 0))
    let shards := oneTopicEngine.after 1 [frame, frame]
    let log := (viewOf oneTopicEngine.broker shards).logs ⟨[116], 0⟩
    log.startOffset = 0 ∧ log.nextOffset = 2 ∧
      (oneTopicEngine.handle shards fetchFrame).2 = .error .tooLarge :=
  fetch_keyless_fails List.length_replicate

end Keyless

end CharlotteBroker
