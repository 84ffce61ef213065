import CharlotteBroker.Core.LogFetch
import CharlotteBroker.Engine.Joining
import CharlotteBroker.Wire.Sizes

/-!
# The frame bound on responses

The encoder bounds every string, array and byte field of a response, and nothing bounds their sum
(`Encoder::finish` asserts the frame bound in debug builds only). Here the sizes are worked out for
every request kind, in any state of the broker.

* Ten kinds always stay within a frame: their responses have a fixed size beside one string, or they
  are smaller than the request was.
* `Engine.ResponseFits` is the arithmetic condition for the other five: metadata, transaction
  partitions, list-offsets, fetch and join.
* `response_bounded_iff`: a response respects the frame bound exactly under that condition.
* `oversizedMetadata`: a topic named three times in a metadata request.
-/

namespace CharlotteBroker

open Std CharlotteBroker.Core Lib CharlotteBroker.Runtime Wire

variable {response : Bytes}

/-- The first four bytes encode the length of the rest, and that is at most the frame bound. -/
def FrameBounded (response : Bytes) : Prop :=
  4 ≤ response.length ∧ beValue (response.take 4) = response.length - 4 ∧
    response.length - 4 ≤ maxFrameLen

theorem frameBounded_responseFrame {correlationId : Int32} {body : Bytes} :
    FrameBounded (responseFrame correlationId body) ↔ 4 + body.length ≤ maxFrameLen := by
  have hlength := length_responseFrame correlationId body
  refine ⟨fun h => by have := h.2.2; omega, fun h => ⟨by omega, ?_, by omega⟩⟩
  have htake : (responseFrame correlationId body).take 4 =
      i32Bytes (Int32.ofNat (4 + body.length)) := List.take_left' (length_i32Bytes _)
  have hsmall : 4 + body.length < 2 ^ 32 := Nat.lt_of_le_of_lt h (by decide)
  rw [htake, i32Bytes, beValue_beBytes_of_lt (BitVec.isLt _), hlength]
  show (4 + body.length) % 2 ^ 32 = _
  omega

/-! ## Sizes of answers, from the request and the state -/

namespace Engine

variable (engine : Engine)

/-- The topics a metadata request is answered with, and how many partitions each has. -/
def metadataShape : Option (List Bytes) → List (Bytes × ℕ)
  | none => engine.broker.catalog.metadata.map fun topic => (topic.name, topic.partitions.toNat)
  | some names =>
      names.map fun name => (name, ((engine.broker.catalog.partitionCount name).getD 0).toNat)

/-- The size of the record set one partition of a fetch request is answered with. -/
def fetchedSize (view : View) (maxBytes : Int32) (readCommitted : Bool) (name : Bytes)
    (partition : FetchPartition) : ℕ :=
  let log := view.logs ⟨name, partition.partition.toInt⟩
  if engine.broker.catalog.checkPartition name partition.partition.toInt = .ok () ∧
      log.InRange partition.fetchOffset.toInt then
    recordSetSize (log.readable ⟨partition.fetchOffset.toInt, engine.maxFetchRecords,
      engine.fetchBudget maxBytes partition.partitionMaxBytes, readCommitted⟩)
  else 0

end Engine

/-- The ids of the group's members once this one has joined. -/
def joinedIds (groups : GroupCoordinator) (groupId memberId : Bytes) (subscriptions : List Bytes) :
    List Bytes :=
  ((groups.groupOf groupId).members.insert memberId
    ⟨subscriptions, nextGeneration (groups.groupOf groupId).generation, true⟩).keys

/-- The answer to the request fits a frame. -/
def Engine.ResponseFits (engine : Engine) (view : View) (request : Request) : Prop :=
  match request.body with
  | .metadata topics =>
      28 + engine.identity.host.length + metadataSize (engine.metadataShape topics) ≤ maxFrameLen
  | .addPartitionsToTxn _ _ _ topics => 12 + shapeSize 6 (shape topics) ≤ maxFrameLen
  | .listOffsets _ topics => 8 + shapeSize 22 (shape topics) ≤ maxFrameLen
  | .fetch _ _ _ maxBytes readCommitted topics =>
      12 + (topics.map fun topic => 6 + topic.name.length + (topic.partitions.map fun partition =>
        30 + engine.fetchedSize view maxBytes readCommitted topic.name partition).sum).sum ≤
          maxFrameLen
  | .joinGroup groupId memberId subscriptions =>
      let joining := joiningMemberId request.header.correlationId memberId
      groupId = [] ∨ 38 + 2 * joining.length +
        ((joinedIds view.groups groupId joining subscriptions).map fun id =>
          6 + id.length + subscriptionSize subscriptions).sum ≤ maxFrameLen
  | _ => True

/-! ## The five kinds -/

section Kinds

variable {engine : Engine} {view : View} {correlationId : Int32}

theorem metadataShape_eq (engine : Engine) (topics : Option (List Bytes)) :
    engine.metadataShape topics =
      (engine.metadataTopics topics).map fun topic => (topic.name, topic.partitions.length) := by
  rcases topics with _ | names
  · simp [Engine.metadataShape, Engine.metadataTopics, Engine.partitions]
  · simp only [Engine.metadataShape, Engine.metadataTopics, List.map_map]
    refine List.map_congr_left fun name _ => ?_
    rcases hcount : engine.broker.catalog.partitionCount name with _ | count
    · simp [hcount]
    · simp [hcount, Engine.partitions]

theorem length_partitionMetadata {topics : Option (List Bytes)} {topic : Wire.TopicMetadata}
    (htopic : topic ∈ engine.metadataTopics topics) :
    ∀ partition ∈ topic.partitions, (partitionMetadataField partition).length = 26 := by
  have hpartitions : ∀ count, ∀ partition ∈ engine.partitions count,
      (partitionMetadataField partition).length = 26 := by
    intro count partition hpartition
    obtain ⟨index, -, rfl⟩ := List.mem_map.mp hpartition
    exact length_partitionMetadataField rfl rfl
  rcases topics with _ | names
  · obtain ⟨entry, -, rfl⟩ := List.mem_map.mp htopic
    exact hpartitions _
  · obtain ⟨name, -, rfl⟩ := List.mem_map.mp htopic
    rcases hcount : engine.broker.catalog.partitionCount name with _ | count
    · simp
    · exact hpartitions count

/-- What a metadata request is answered with. -/
def metadataAnswer (engine : Engine) (topics : Option (List Bytes)) : MetadataResponse :=
  { brokers := [⟨engine.identity.nodeId, engine.identity.host, engine.identity.port⟩]
    controllerId := engine.identity.nodeId
    topics := engine.metadataTopics topics }

theorem length_metadataBody (engine : Engine) (topics : Option (List Bytes)) :
    (metadataBody (metadataAnswer engine topics)).length =
      24 + engine.identity.host.length + metadataSize (engine.metadataShape topics) := by
  have htopics : ((engine.metadataTopics topics).map fun topic =>
      (topicMetadataField topic).length).sum = metadataSize (engine.metadataShape topics) := by
    rw [metadataSize, metadataShape_eq, List.map_map, List.map_congr_left fun topic htopic =>
      length_topicMetadataField (length_partitionMetadata htopic)]
    rfl
  simp only [metadataAnswer, metadataBody, List.length_append, length_arrayField, brokerField,
    length_i32Bytes, length_stringField, length_nullStringField, List.map_cons, List.map_nil,
    List.sum_cons, List.sum_nil, htopics]
  omega

theorem metadata_bounded_iff {topics : Option (List Bytes)}
    (h : engine.metadata correlationId topics = .ok response) :
    FrameBounded response ↔
      28 + engine.identity.host.length + metadataSize (engine.metadataShape topics) ≤
        maxFrameLen := by
  obtain ⟨-, rfl⟩ := encodeMetadata_eq_ok.mp h
  rw [frameBounded_responseFrame, ← metadataAnswer, length_metadataBody]
  omega

theorem recordSetSize_fetchAnswer (maxBytes : Int32) (readCommitted : Bool) (name : Bytes)
    (partition : FetchPartition) :
    (engine.fetchAnswer view maxBytes readCommitted name partition).abortedTransactions = none ∧
      recordSetSize (engine.fetchAnswer view maxBytes readCommitted name partition).records =
        engine.fetchedSize view maxBytes readCommitted name partition := by
  unfold Engine.fetchAnswer Engine.fetchedSize PartitionLog.fetchWithIsolation
  rcases hcheck : engine.broker.catalog.checkPartition name partition.partition.toInt with
    error | ⟨⟩
  · exact ⟨rfl, (if_neg fun h => nomatch h.1).symm⟩
  · rw [PartitionLog.fetchInner_eq_readable]
    by_cases hrange : (view.logs ⟨name, partition.partition.toInt⟩).InRange
        partition.fetchOffset.toInt
    · rw [if_pos hrange]
      exact ⟨rfl, (if_pos ⟨rfl, hrange⟩).symm⟩
    · rw [if_neg hrange]
      exact ⟨rfl, (if_neg fun h => hrange h.2).symm⟩

theorem fetch_bounded_iff {maxBytes : Int32} {readCommitted : Bool}
    {topics : List (Topic FetchPartition)}
    (h : encodeFetch correlationId ⟨0, topics.map fun topic => ⟨topic.name, topic.partitions.map
      (engine.fetchAnswer view maxBytes readCommitted topic.name)⟩⟩ = .ok response) :
    FrameBounded response ↔
      12 + (topics.map fun topic => 6 + topic.name.length + (topic.partitions.map fun partition =>
        30 + engine.fetchedSize view maxBytes readCommitted topic.name partition).sum).sum ≤
          maxFrameLen := by
  obtain ⟨-, rfl⟩ := encodeFetch_eq_ok.mp h
  rw [frameBounded_responseFrame, length_fetchBody]
  · simp only [List.map_map, Function.comp_def, (recordSetSize_fetchAnswer _ _ _ _).2]
    omega
  · simp only [List.mem_map, forall_exists_index, and_imp, forall_apply_eq_imp_iff₂]
    exact fun topic _ partition _ => (recordSetSize_fetchAnswer _ _ _ _).1

theorem join_bounded_iff {groupId memberId : Bytes} {subscriptions : List Bytes}
    {partitions : List TopicPartition} (hmember : memberId ≠ [])
    (hid : memberId.length ≤ maxStringLen)
    (htopics : ∀ topic ∈ subscriptions, topic.length ≤ maxStringLen)
    (h : Engine.joinResult correlationId memberId subscriptions
      ((view.groups.join groupId memberId subscriptions partitions).2.mapError .coordination) =
        .ok response) :
    FrameBounded response ↔ groupId = [] ∨ 38 + 2 * memberId.length +
      ((joinedIds view.groups groupId memberId subscriptions).map fun id =>
        6 + id.length + subscriptionSize subscriptions).sum ≤ maxFrameLen := by
  by_cases hgroup : groupId = []
  · rw [join_of_empty hgroup] at h
    obtain ⟨-, rfl⟩ := encodeJoinGroup_eq_ok.mp h
    rw [frameBounded_responseFrame]
    refine iff_of_true ?_ (Or.inl hgroup)
    simp only [joinGroupBody, List.length_append, length_i16Bytes, length_i32Bytes,
      length_stringField, length_arrayField, List.length_nil, List.map_nil, List.sum_nil]
    unfold maxStringLen at hid
    unfold maxFrameLen
    omega
  · obtain ⟨generation, assignments, hjoin⟩ := @join_eq_ok view.groups _ _ subscriptions partitions
      hgroup hmember
    rw [hjoin, Except.mapError, Engine.joinResult_ok _ _ htopics] at h
    obtain ⟨-, rfl⟩ := encodeJoinGroup_eq_ok.mp h
    have hids : ((answeredMembers subscriptions assignments).map fun member =>
        (memberField member).length).sum =
        ((joinedIds view.groups groupId memberId subscriptions).map fun id =>
          6 + id.length + subscriptionSize subscriptions).sum := by
      rw [joinedIds, ← map_memberId_of_join_ok hjoin, answeredMembers, List.map_map, List.map_map]
      congr 1
      refine List.map_congr_left fun assignment _ => ?_
      simp only [Function.comp_apply, memberField, List.length_append, length_stringField,
        length_bytesField, length_subscriptionBytes]
      omega
    have hprotocol : fixedProtocol.length = 18 := rfl
    rw [frameBounded_responseFrame]
    simp only [joinGroupBody, List.length_append, length_i16Bytes, length_i32Bytes,
      length_stringField, length_arrayField, hids, hprotocol, hgroup, false_or]
    omega

end Kinds

/-! ## Every kind -/

section Requests

variable {n : ℕ} [NeZero n] {engine : Engine}

/-- A response whose body is small. -/
theorem frameBounded_of_le {correlationId : Int32} {body : Bytes}
    (h : response = responseFrame correlationId body) (hle : 4 + body.length ≤ maxFrameLen) :
    FrameBounded response := by
  rw [h]
  exact frameBounded_responseFrame.mpr hle

theorem apiVersions_bounded {correlationId : Int32} {error : Int16}
    (h : encodeApiVersionsError correlationId error supportedVersions = .ok response) :
    FrameBounded response := by
  have hversion : ∀ entry, (versionField entry).length = 6 := fun entry => rfl
  obtain ⟨-, hframe⟩ := encodeApiVersionsError_eq_ok.mp h
  refine frameBounded_of_le hframe ?_
  rw [apiVersionsBody, List.length_append, length_i16Bytes, length_fixedArrayField hversion]
  decide

/-- A loop's answer, from the shape of the request. -/
theorem loop_bounded_iff {α β : Type} {view : View} {topics : List (Topic α)}
    {f : Bytes → α → EngineM n β} {next : List (Topic β) → Except Error Bytes}
    {size : List (Bytes × ℕ) → ℕ} {response : Bytes}
    (hnext : ∀ answered response, next answered = .ok response → ∃ correlationId body,
      response = responseFrame correlationId body ∧ 4 + body.length = size (shape answered))
    (h : (engine.exec view (do return next (← eachPartition topics f))).2 = .ok response) :
    FrameBounded response ↔ size (shape topics) ≤ maxFrameLen := by
  rw [Engine.exec_bind] at h
  obtain ⟨correlationId, body, rfl, hsize⟩ := hnext _ _ h
  rw [frameBounded_responseFrame, hsize, Engine.shape_eachPartition]

/-- The answer to one broker call, if every answer is small. -/
theorem attempt_bounded {α : Type} {view : View} {method : BrokerM n α}
    {next : Except BrokerError α → Except Error Bytes}
    (hnext : ∀ result response, next result = .ok response → FrameBounded response)
    (h : (engine.exec view (do return next (← method.run))).2 = .ok response) :
    FrameBounded response := by
  rw [Engine.exec_attempt] at h
  exact hnext _ _ h

theorem downgrade_bounded {frame : Bytes} (h : Engine.downgrade frame = .ok response) :
    FrameBounded response := by
  unfold Engine.downgrade at h
  split at h
  · split at h
    · exact apiVersions_bounded h
    · cases h
  · cases h

theorem initProducerId_bounded {correlationId : Int32} {answer : InitProducerIdResponse}
    (h : encodeInitProducerId correlationId answer = .ok response) :
    FrameBounded response := by
  refine frameBounded_of_le (encodeInitProducerId_eq_ok.mp h) ?_
  simp [initProducerIdBody, maxFrameLen]

theorem groupError_bounded {correlationId : Int32} {error : Int16}
    (h : encodeGroupError correlationId error = .ok response) : FrameBounded response := by
  refine frameBounded_of_le (encodeGroupError_eq_ok.mp h) ?_
  simp [maxFrameLen]

theorem offsetFetch_bounded {correlationId : Int32} {topic : Bytes} {partition : Int32}
    {result : Except BrokerError (Option Int)}
    (h : Engine.offsetFetchResult correlationId topic partition result = .ok response) :
    FrameBounded response := by
  have hencoded : ∃ offset error,
      encodeOffsetFetch correlationId topic partition offset error = .ok response := by
    rcases result with error | _ | offset
    · exact ⟨_, _, h⟩
    · exact ⟨_, _, h⟩
    · exact ⟨_, _, h⟩
  obtain ⟨offset, error, hencoded⟩ := hencoded
  obtain ⟨hlen, hframe⟩ := encodeOffsetFetch_eq_ok.mp hencoded
  refine frameBounded_of_le hframe ?_
  unfold maxStringLen at hlen
  simp only [offsetFetchBody, List.length_append, length_arrayLenField, length_stringField,
    length_nullStringField, length_i16Bytes, length_i32Bytes, length_i64Bytes, maxFrameLen]
  omega

/-- **Responses on the view.** -/
theorem exec_bounded_iff (view : View) {request : Request} (hbounded : request.body.Bounded)
    (h : (engine.exec view (engine.handleRequest (n := n) request)).2 = .ok response) :
    FrameBounded response ↔ engine.ResponseFits view request := by
  obtain ⟨header, body⟩ := request
  cases body with
  | apiVersions => exact iff_of_true (apiVersions_bounded h) trivial
  | metadata topics => exact metadata_bounded_iff h
  | findCoordinator =>
      obtain ⟨hfits, hframe⟩ := encodeFindCoordinator_eq_ok.mp h
      have hhost : engine.identity.host.length ≤ maxStringLen := hfits
      refine iff_of_true (frameBounded_of_le hframe ?_) trivial
      unfold maxStringLen at hhost
      simp only [findCoordinatorBody, List.length_append, length_i32Bytes, length_i16Bytes,
        length_nullStringField, length_stringField, maxFrameLen]
      omega
  | initProducerId transactionalId timeoutMs =>
      refine iff_of_true ?_ trivial
      rcases transactionalId with _ | id
      · exact initProducerId_bounded h
      · exact attempt_bounded (fun _ _ => initProducerId_bounded) h
  | endTxn =>
      refine iff_of_true (attempt_bounded (fun result response hencoded => ?_) h) trivial
      refine frameBounded_of_le (encodeEndTxn_eq_ok.mp hencoded) ?_
      simp [endTxnBody, maxFrameLen]
  | heartbeat => exact iff_of_true (attempt_bounded (fun _ _ => groupError_bounded) h) trivial
  | leaveGroup => exact iff_of_true (attempt_bounded (fun _ _ => groupError_bounded) h) trivial
  | offsetFetch => exact iff_of_true (attempt_bounded (fun _ _ => offsetFetch_bounded) h) trivial
  | offsetCommit =>
      refine iff_of_true (attempt_bounded (fun result response hencoded => ?_) h) trivial
      obtain ⟨hlen, hframe⟩ := encodeOffsetCommit_eq_ok.mp hencoded
      refine frameBounded_of_le hframe ?_
      unfold maxStringLen at hlen
      simp only [offsetCommitBody, List.length_append, length_arrayLenField, length_stringField,
        length_i16Bytes, length_i32Bytes, maxFrameLen]
      omega
  | syncGroup =>
      refine iff_of_true (frameBounded_of_le (encodeSyncGroup_eq_ok.mp h).2 ?_) trivial
      have hle : 10 + _ ≤ maxFrameLen := hbounded
      simp only [syncGroupBody, List.length_append, length_i16Bytes, length_bytesField]
      omega
  | fetch =>
      exact fetch_bounded_iff ((congrArg Prod.snd (Engine.exec_fetch _ _ _ _ _)).symm.trans h)
  | joinGroup =>
      obtain ⟨hid, htopics, -⟩ := hbounded
      exact join_bounded_iff (joiningMemberId_ne_nil _ _) (length_joiningMemberId_le _ hid) htopics
        ((congrArg Prod.snd (Engine.exec_joinGroup _ _ _ _ _)).symm.trans h)
  | listOffsets replicaId topics =>
      refine @loop_bounded_iff _ _ _ _ _ view topics _ _ (fun entries => 8 + shapeSize 22 entries)
        _ (fun answered response hencoded => ?_) h
      refine ⟨_, _, (encodeListOffsets_eq_ok.mp hencoded).2, ?_⟩
      rw [listOffsetsBody, length_topicsField (k := 22) fun _ => by
        simp [listOffsetsPartitionResultField]]
      omega
  | addPartitionsToTxn transactionalId producerId producerEpoch topics =>
      refine @loop_bounded_iff _ _ _ _ _ view topics _ _ (fun entries => 12 + shapeSize 6 entries)
        _ (fun answered response hencoded => ?_) h
      refine ⟨_, _, (encodeAddPartitionsToTxn_eq_ok.mp hencoded).2, ?_⟩
      rw [addPartitionsToTxnBody, List.length_append, length_i32Bytes,
        length_topicsField (k := 6) fun _ => by simp [txnPartitionField]]
      omega
  | produce transactionalId acks timeoutMs topics =>
      refine Iff.trans (@loop_bounded_iff _ _ _ _ _ view topics _ _
        (fun entries => 12 + shapeSize 22 entries) _ (fun answered response hencoded => ?_) h)
        (iff_of_true hbounded.2 trivial)
      refine ⟨_, _, (encodeProduce_eq_ok.mp hencoded).2, ?_⟩
      show 4 + (arrayField (topicField producePartitionField) answered ++ i32Bytes 0).length = _
      rw [List.length_append, length_i32Bytes,
        length_topicsField (k := 22) fun _ => by simp [producePartitionField]]
      omega

/-- **The frame bound.** Whenever a frame is answered, in any state of the broker, the response
declares its length and respects the frame bound exactly if the request decoded from the frame, if
any, is one whose answer fits. -/
theorem response_bounded_iff (engine : Engine) (shards : Fin n → Shard) {frame response : Bytes}
    (h : (engine.handle shards frame).2 = .ok response) :
    FrameBounded response ↔ ∀ request, decodeRequest frame = .ok request →
      engine.ResponseFits (viewOf engine.broker shards) request := by
  rw [(Engine.viewOf_handle engine shards frame).2] at h
  rcases hdecode : decodeRequest frame with error | request
  · apply iff_of_true
    · unfold Engine.onView Engine.handleFrame at h
      rw [hdecode] at h
      cases error with
      | unsupportedVersion => exact downgrade_bounded h
      | _ => cases h
    · intro request hrequest
      cases hrequest
  · rw [Engine.onView_of_decode hdecode] at h
    rw [exec_bounded_iff _ (decodeRequest_bounded hdecode) h]
    refine ⟨?_, fun hall => hall request rfl⟩
    rintro hfits _ ⟨⟩
    exact hfits

/-- Metadata of a topic with two partitions. -/
theorem response_bounded_iff_metadata :
    let frame := (⟨⟨3, 1, 0, none⟩, .metadata (some [[116]])⟩ : Request).ser
    ∃ response, (oneTopicEngine.handle (startShards 1) frame).2 = .ok response ∧
      FrameBounded response := by
  intro frame
  have hdecode : decodeRequest frame = .ok ⟨⟨3, 1, 0, none⟩, .metadata (some [[116]])⟩ := by
    decide
  have hanswered : (oneTopicEngine.handle (startShards 1) frame).2.isOk = true := by decide
  rcases hresponse : (oneTopicEngine.handle (startShards 1) frame).2 with error | response
  · rw [hresponse] at hanswered
    cases hanswered
  · have hiff := response_bounded_iff oneTopicEngine (startShards 1) hresponse
    refine ⟨response, rfl, hiff.mpr ?_⟩
    rw [hdecode]
    rintro _ ⟨⟩
    show 28 + 1 + metadataSize (oneTopicEngine.metadataShape (some [[116]])) ≤ maxFrameLen
    decide

/-! ## A response that is too long -/

/-- A broker with one topic of as many partitions as an array may have entries. -/
def wideEngine : Engine :=
  .new ⟨(TopicCatalog.new.create [116] 16384).1, none⟩ (.new ⟨0, [104], 9092⟩)

/-- Metadata of its topic, asked for three times. -/
def wideFrame : Bytes := (⟨⟨3, 1, 0, none⟩, .metadata (some [[116], [116], [116]])⟩ : Request).ser

theorem metadataTopics_wide : wideEngine.metadataTopics (some [[116], [116], [116]]) =
    List.replicate 3 ⟨noError, [116], false, wideEngine.partitions 16384⟩ := by
  have hcount : wideEngine.broker.catalog.partitionCount [116] = some 16384 := by decide
  simp [Engine.metadataTopics, hcount]

theorem fits_wide : (metadataAnswer wideEngine (some [[116], [116], [116]])).Fits := by
  have hlen : (wideEngine.partitions 16384).length ≤ maxArrayLen := by
    rw [Engine.partitions, List.length_map, List.length_range]
    decide
  have htopics : (metadataAnswer wideEngine (some [[116], [116], [116]])).topics = _ :=
    metadataTopics_wide
  refine ⟨⟨by decide, by decide⟩, ?_, fun topic htopic => ?_⟩
  · rw [htopics, List.length_replicate]
    decide
  · rw [htopics] at htopic
    have hname : topic.name = [116] := by rw [List.eq_of_mem_replicate htopic]
    have hpartitions : topic.partitions = wideEngine.partitions 16384 := by
      rw [List.eq_of_mem_replicate htopic]
    rw [TopicMetadata.Fits, hname, hpartitions]
    refine ⟨by decide, hlen, fun partition hpartition => ?_⟩
    obtain ⟨index, -, rfl⟩ := List.mem_map.mp hpartition
    have hone : 1 ≤ maxArrayLen := by decide
    exact ⟨hone, hone⟩

theorem metadataSize_wide :
    metadataSize (wideEngine.metadataShape (some [[116], [116], [116]])) = 1277982 := by
  rw [metadataShape_eq, metadataTopics_wide]
  simp [metadataSize, Engine.partitions]

/-- **Too long.** The answer to such a request is a frame of more than a mebibyte. -/
theorem oversizedMetadata :
    ∃ response, (wideEngine.handle (startShards 1) wideFrame).2 = .ok response ∧
      response.length - 4 = 1278011 ∧ maxFrameLen < response.length - 4 := by
  have hdecode : decodeRequest wideFrame =
      .ok ⟨⟨3, 1, 0, none⟩, .metadata (some [[116], [116], [116]])⟩ := by
    decide
  have hlength : (responseFrame 0 (metadataBody (metadataAnswer wideEngine
      (some [[116], [116], [116]])))).length - 4 = 1278011 := by
    rw [length_responseFrame, length_metadataBody, metadataSize_wide]
    rfl
  refine ⟨_, ?_, hlength, by rw [hlength]; decide⟩
  rw [(Engine.viewOf_handle wideEngine (startShards 1) wideFrame).2, Engine.onView_of_decode hdecode]
  exact encodeMetadata_eq_ok.mpr ⟨fits_wide, rfl⟩

end Requests

end CharlotteBroker
