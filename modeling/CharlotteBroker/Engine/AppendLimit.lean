import CharlotteBroker.Engine.TransactionalBit
import CharlotteBroker.Wire.Concatenation

/-!
# The decoder's bound on records and the log's

Two bounds limit how many records come in at once. The decoder counts the records of each batch, and
the log counts those of an append. An entry of a Produce request is one append, and its record set
may have several batches, or be a legacy message set whose messages nobody counts. So the decoder
accepts entries that the log refuses.

* `appends_iff_recordCount`: an accepted entry can be appended, to any log, exactly if all its
  batches together have no more records than the log's bound. A set of one v2 batch always can. An
  entry that gets as far as the log is answered accordingly.
* `not_appends_two`: two full batches in one entry.
-/

namespace CharlotteBroker

open Std CharlotteBroker.Core Lib Lib.Parser Lib.Rpc CharlotteBroker.Runtime Wire

variable {n : ℕ} [NeZero n]

/-- How many records the batches of a record set have together. -/
def recordCount (recordSet : Bytes) : ℕ :=
  ((flaggedBatches recordSet).map fun batch => batch.records.length).sum

namespace Engine

/-- The entry gets as far as the log: the catalog knows its partition, and a request with a
transactional id carries an identity that the coordinator validates. -/
structure Reaches (engine : Engine) (transactions : TransactionCoordinator)
    (transactionalId : Option Bytes) (name : Bytes) (entry : ProducePartition) : Prop where
  known : engine.broker.catalog.checkPartition name entry.partition.toInt = .ok ()
  validated : ∀ id, transactionalId = some id → ∃ producer, entry.producer = some producer ∧
    transactions.validateProduce id ⟨producer.1.toInt, producer.2.toInt⟩ name
      entry.partition.toInt = .ok ()

end Engine

/-! ## The log -/

/-- An append of some records fails only if they are too many. -/
theorem appendBatch_result {inputs : List RecordData} (hne : inputs ≠ []) (log : PartitionLog)
    (tag : Option Int) (state : BatchState) :
    (log.appendBatch inputs tag state).2 =
      if inputs.length ≤ maxAppendRecords then .ok log.nextOffset else .error .tooManyRecords := by
  unfold PartitionLog.appendBatch
  rw [if_neg (by simpa using hne)]
  by_cases hlen : inputs.length ≤ maxAppendRecords
  · rw [if_neg (Nat.not_lt.mpr hlen), if_pos hlen]
  · rw [if_pos (Nat.not_le.mp hlen), if_neg hlen]

/-- An accepted set has the records of its batches. -/
theorem length_decoded {set : ProducedSet} (h : ProducedSet.Decodes set.decoded set) :
    set.decoded.records.length = recordCount set.recordSet := by
  obtain ⟨decoded, haccepted, hrecords, -⟩ := h.accepted
  rw [hrecords, (decoded_flagged haccepted).records, List.length_flatMap]
  rfl

/-- One v2 batch is never too much. -/
theorem recordCount_of_one {set : ProducedSet} (h : ProducedSet.Decodes set.decoded set)
    (hmagic : set.recordSet[16]? = some 2) {batch : FlaggedBatch}
    (hone : flaggedBatches set.recordSet = [batch]) :
    recordCount set.recordSet ≤ maxAppendRecords := by
  obtain ⟨decoded, haccepted, -⟩ := h.accepted
  have hlen := length_le_of_mem_flagged hmagic haccepted
    (by rw [hone]; exact List.mem_singleton_self batch)
  rw [recordCount, hone, List.map_singleton, List.sum_singleton]
  exact hlen

/-- What an append of the set's records returns, by the number of records of its batches. -/
structure AppendsWithin (set : ProducedSet) : Prop where
  plain : ∀ log : PartitionLog, (log.appendData set.decoded.records).2 =
    if recordCount set.recordSet ≤ maxAppendRecords then .ok log.nextOffset
    else .error .tooManyRecords
  transactional : ∀ (log : PartitionLog) (producerId : Int),
    (log.appendTransactional set.decoded.records producerId).2 =
      if recordCount set.recordSet ≤ maxAppendRecords then .ok log.nextOffset
      else .error .tooManyRecords
  oneBatch : ∀ batch, set.recordSet[16]? = some 2 → flaggedBatches set.recordSet = [batch] →
    recordCount set.recordSet ≤ maxAppendRecords

theorem appendsWithin_of_decodes {set : ProducedSet} (h : ProducedSet.Decodes set.decoded set) :
    AppendsWithin set where
  plain log := by
    rw [← length_decoded h]
    exact appendBatch_result h.nonempty log _ _
  transactional log producerId := by
    rw [← length_decoded h]
    exact appendBatch_result h.nonempty log _ _
  oneBatch _ hmagic hone := recordCount_of_one h hmagic hone

/-! ## The answer -/

namespace Engine

variable {engine : Engine} {header : Header} {shards : Fin n → Shard}

/-- The code for an entry that gets as far as the log. -/
def limitCode (count : ℕ) : Int16 :=
  if count ≤ maxAppendRecords then noError else unknownServerError

theorem code_append {view : View} {key : TopicPartition} {inputs : List RecordData}
    (hknown : engine.broker.catalog.checkPartition key.topic key.partition = .ok ())
    (hne : inputs ≠ []) (partition : Int32) (tag : Option Int) (state : BatchState) :
    (produceResult partition (view.appendTo engine.broker key fun log =>
      log.appendBatch inputs tag state).2).error = limitCode inputs.length := by
  unfold View.appendTo limitCode
  simp only [hknown, appendBatch_result hne]
  split <;> rfl

theorem code_producePartition {view : View} {transactionalId : Option Bytes} {name : Bytes}
    {entry : ProducePartition} (hne : entry.records ≠ [])
    (h : engine.Reaches view.transactions transactionalId name entry) :
    (engine.exec view (engine.producePartition (n := n) transactionalId name entry)).2.error =
      limitCode entry.records.length := by
  unfold producePartition
  rcases transactionalId with _ | id
  · simp only
    rw [exec_attempt, run_produce]
    exact code_append h.known hne _ _ _
  · obtain ⟨producer, hproducer, hvalid⟩ := h.validated id rfl
    simp only [hproducer]
    rw [exec_attempt, run_produceTransactional engine.broker view entry.records hvalid]
    exact code_append h.known hne _ _ _

/-- The answer to an entry that gets as far as the log. -/
theorem code_of_reaching {transactionalId : Option Bytes} {acks : Int16} {timeoutMs : Int32}
    {topics : List (Topic ProducePartition)} {response : Bytes}
    {before rest : List (Bytes × ProducePartition)} {name : Bytes} {entry : ProducePartition}
    (hresponse : (engine.request shards
      ⟨header, .produce transactionalId acks timeoutMs topics⟩).2 = .ok response)
    (hplace : entriesOf topics = before ++ (name, entry) :: rest) (hne : entry.records ≠ [])
    (h : engine.Reaches (viewOf engine.broker shards).transactions transactionalId name entry) :
    ∃ codes, responseCodes (.produce transactionalId acks timeoutMs topics) response = some codes ∧
      codes[before.length]? = some (limitCode entry.records.length) := by
  -- the entries before it leave the coordinator as it was
  refine (engine.produceKind n header transactionalId acks timeoutMs).code_of_entry
    (P := fun view => view.transactions = (viewOf engine.broker shards).transactions)
    ?_ rfl ?_ hplace hresponse
  · intro view name' entry' hview
    exact (exec_producePartition_transactions view transactionalId name' entry').trans hview
  · intro view hview
    rw [← hview] at h
    exact code_producePartition hne h

/-- **What the decoder accepts and the log can append.** For every Produce frame that is decoded and
every entry of it: an append of the entry's records to any log, plain or transactional, succeeds
exactly if the batches of its record set have at most 1024 records together, which one v2 batch
always has; and if the entry gets as far as the log, it is answered with `NO_ERROR` or
`UNKNOWN_SERVER_ERROR` accordingly. -/
theorem appends_iff_recordCount (engine : Engine) (shards : Fin n → Shard) {frame : Bytes}
    {transactionalId : Option Bytes} {acks : Int16} {timeoutMs : Int32}
    {topics : List (Topic ProducePartition)}
    (h : decodeRequest frame = .ok ⟨header, .produce transactionalId acks timeoutMs topics⟩) :
    ∃ response, (engine.handle shards frame).2 = .ok response ∧
      ∀ before name set after,
        entriesOf (producedTopics frame) = before ++ (name, set) :: after →
        (entriesOf topics)[before.length]? = some (name, set.decoded) ∧ AppendsWithin set ∧
          (engine.Reaches (viewOf engine.broker shards).transactions transactionalId name
              set.decoded →
            ∃ codes, responseCodes (.produce transactionalId acks timeoutMs topics) response =
                some codes ∧
              codes[before.length]? = some (limitCode (recordCount set.recordSet))) := by
  obtain ⟨hentries, hdecodes⟩ := entriesOf_decoded (decodes_producedTopics h)
  obtain ⟨response, hresponse⟩ := @produce_answered n _ engine header shards transactionalId acks
    timeoutMs topics (decodeRequest_bounded h).1
  refine ⟨response, by rw [handle_of_decode h, hresponse], fun before name set after hplace => ?_⟩
  have hset : ProducedSet.Decodes set.decoded set := hdecodes (name, set) (by simp [hplace])
  rw [hplace, List.map_append, List.map_cons] at hentries
  refine ⟨by simp [hentries], appendsWithin_of_decodes hset, fun hreaches => ?_⟩
  rw [← length_decoded hset, ← List.length_map (f := fun entry : Bytes × ProducedSet =>
    (entry.1, entry.2.decoded))]
  exact code_of_reaching hresponse hentries hset.nonempty hreaches

/-- A set of two batches, of one record each, is stored. -/
theorem appends_iff_recordCount_twoBatches :
    let recordSet := oneBatchSet 0 ++ oneBatchSet 0
    let frame := setFrame none recordSet
    (flaggedBatches recordSet).length = 2 ∧
      ∃ response, (oneTopicEngine.handle (startShards 2) frame).2 = .ok response ∧
        ∃ set codes, entriesOf (producedTopics frame) = [([116], set)] ∧ AppendsWithin set ∧
          responseCodes (.produce none 1 0 [⟨[116], [set.decoded]⟩]) response = some codes ∧
          codes[0]? = some noError := by
  intro recordSet frame
  have hdecoded : (⟨0, recordSet⟩ : ProducedSet).decoded =
      ⟨0, [⟨0, none, some [97]⟩, ⟨0, none, some [97]⟩], none⟩ := by decide +kernel
  have hdecode : decodeRequest frame = .ok ⟨⟨0, 3, 0, none⟩,
      .produce none 1 0 [⟨[116], [(⟨0, recordSet⟩ : ProducedSet).decoded]⟩]⟩ := by
    rw [hdecoded]
    decide +kernel
  have hset : entriesOf (producedTopics frame) = [([116], ⟨0, recordSet⟩)] := by decide +kernel
  obtain ⟨response, hresponse, hall⟩ := appends_iff_recordCount oneTopicEngine
    (startShards 2) hdecode
  obtain ⟨-, happends, hcode⟩ := hall [] _ _ [] hset
  obtain ⟨codes, hcodes, hat⟩ := hcode ⟨by rw [hdecoded]; decide +kernel, fun _ h => nomatch h⟩
  refine ⟨by decide +kernel, response, hresponse, _, codes, hset, happends, hcodes, ?_⟩
  rw [show noError = limitCode (recordCount recordSet) by decide +kernel]
  exact hat

/-! ## Two full batches -/

/-- An accepted set of too many records, for a partition that exists. -/
theorem refused_of_long {recordSet : Bytes} {records : List RecordData}
    (hset : decodeRecordBatchesWithIdentity recordSet = .ok ⟨records, none⟩)
    (hlong : maxAppendRecords < records.length) (hfits : 39 + recordSet.length ≤ maxFrameLen) :
    let frame := produceSetFrame [116] 0 recordSet
    let body : RequestBody := .produce none 1 0 [⟨[116], [⟨0, records, none⟩]⟩]
    decodeRequest frame = .ok ⟨⟨0, 3, 0, none⟩, body⟩ ∧
      (∀ log : PartitionLog, (log.appendData records).2 = .error .tooManyRecords) ∧
      (∀ (log : PartitionLog) (producerId : Int),
        (log.appendTransactional records producerId).2 = .error .tooManyRecords) ∧
      ∃ response codes, (oneTopicEngine.handle (startShards 2) frame).2 = .ok response ∧
        responseCodes body response = some codes ∧ codes[0]? = some unknownServerError := by
  intro frame body
  have hne : records ≠ [] := List.ne_nil_of_length_pos (Nat.zero_lt_of_lt hlong)
  have hdecode : decodeRequest frame = .ok ⟨⟨0, 3, 0, none⟩, body⟩ :=
    decodeRequest_produceSetFrame (by decide) (by decide) 0 hset hne hfits
  refine ⟨hdecode, fun log => ?_, fun log producerId => ?_, ?_⟩
  · exact (appendBatch_result hne log _ _).trans (if_neg (Nat.not_le.mpr hlong))
  · exact (appendBatch_result hne log _ _).trans (if_neg (Nat.not_le.mpr hlong))
  · obtain ⟨response, hresponse⟩ := @produce_answered 2 _ oneTopicEngine ⟨0, 3, 0, none⟩
      (startShards 2) none 1 0 _ (decodeRequest_bounded hdecode).1
    have hplace : entriesOf [(⟨[116], [⟨0, records, none⟩]⟩ : Topic ProducePartition)] =
        [] ++ ([116], ⟨0, records, none⟩) :: [] := rfl
    have hreaches : oneTopicEngine.Reaches (viewOf oneTopicEngine.broker (startShards 2)).transactions
        none [116] ⟨0, records, none⟩ := ⟨rfl, fun _ h => nomatch h⟩
    obtain ⟨codes, hcodes, hat⟩ := code_of_reaching hresponse hplace hne hreaches
    refine ⟨response, codes, by rw [handle_of_decode hdecode, hresponse], hcodes, ?_⟩
    rw [limitCode, if_neg (Nat.not_le.mpr hlong)] at hat
    exact hat

/-- A batch of as many records as a batch may have. They are all the same. -/
def fullBatch : Bytes := batchBytes 0 (List.replicate maxRecords ⟨0, 0, none, none⟩)

theorem length_fullBatch : fullBatch.length = 7229 := by
  rw [fullBatch, length_batchBytes, List.length_flatMap, List.map_replicate, List.sum_replicate]
  decide

theorem decode_fullBatch :
    decodeRecordBatchesWithIdentity fullBatch =
      .ok ⟨List.replicate maxRecords ⟨0, none, none⟩, none⟩ := by
  have hfits : fullBatch.length < 2 ^ 31 := by
    rw [length_fullBatch]
    decide
  rw [fullBatch, decodeRecordBatchesWithIdentity_batchBytes (by rw [List.length_replicate]) hfits,
    List.map_replicate]
  rfl

/-- **Two full batches** in one entry: the decoder accepts the frame, no log takes the records, and
the entry, of a partition that exists, is answered with `UNKNOWN_SERVER_ERROR`. -/
theorem not_appends_two :
    let frame := produceSetFrame [116] 0 (fullBatch ++ fullBatch)
    let records : List RecordData := List.replicate 2048 ⟨0, none, none⟩
    let body : RequestBody := .produce none 1 0 [⟨[116], [⟨0, records, none⟩]⟩]
    oneTopic.catalog.checkPartition [116] 0 = .ok () ∧
      decodeRequest frame = .ok ⟨⟨0, 3, 0, none⟩, body⟩ ∧
      (∀ log : PartitionLog, (log.appendData records).2 = .error .tooManyRecords) ∧
      (∀ (log : PartitionLog) (producerId : Int),
        (log.appendTransactional records producerId).2 = .error .tooManyRecords) ∧
      ∃ response codes, (oneTopicEngine.handle (startShards 2) frame).2 = .ok response ∧
        responseCodes body response = some codes ∧ codes[0]? = some unknownServerError := by
  have hmagic : fullBatch[16]? = some 2 := getElem?_batchBytes _ _
  have hset : decodeRecordBatchesWithIdentity (fullBatch ++ fullBatch) =
      .ok ⟨List.replicate 2048 ⟨0, none, none⟩, none⟩ := by
    rw [decode_append hmagic hmagic decode_fullBatch decode_fullBatch, joinIdentity_none]
    simp only [Except.map, List.replicate_append_replicate]
    rfl
  refine ⟨rfl, refused_of_long hset ?_ ?_⟩
  · rw [List.length_replicate]
    decide
  · rw [List.length_append, length_fullBatch]
    decide

end Engine

end CharlotteBroker
