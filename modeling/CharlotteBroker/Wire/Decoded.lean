import CharlotteBroker.Wire.Grammar

/-!
# What a decoded request satisfies

Bounds on the fields of requests of every kind (`RequestBody.Bounded`), the kinds included whose
decoders drop fields.

* For the kinds that keep every field these are the rules of the grammar.
* A join keeps subscriptions that can be written out again within a frame, a sync an assignment, and
  a produce request topics that take more room than their answer: in each case the request had to
  carry them (`Takes`).

`shape` is what the size of a list of topic entries depends on, `shapeSize` that size.
-/

namespace CharlotteBroker.Wire

open Lib Lib.Parser CharlotteBroker.Core

variable {body : RequestBody} {input memberId groupId : Bytes}

/-- The names of topic entries, and how many partitions each has. -/
def shape {α : Type} (topics : List (Topic α)) : List (Bytes × ℕ) :=
  topics.map fun topic => (topic.name, topic.partitions.length)

/-- The size of topic entries whose partitions take `k` bytes each. -/
def shapeSize (k : ℕ) (entries : List (Bytes × ℕ)) : ℕ :=
  (entries.map fun entry => 6 + entry.1.length + k * entry.2).sum

/-- The bounds on the names and counts of topic entries. -/
def ShapeFits (entries : List (Bytes × ℕ)) : Prop :=
  entries.length ≤ maxArrayLen ∧
    ∀ entry ∈ entries, entry.1.length ≤ maxStringLen ∧ entry.2 ≤ maxArrayLen

/-- The size of subscription metadata. -/
def subscriptionSize (topics : List Bytes) : ℕ :=
  10 + (topics.map fun topic => 2 + topic.length).sum

/-- The bounds on a decoded body. -/
def RequestBody.Bounded : RequestBody → Prop
  | joinGroup _ memberId subscriptions =>
      memberId.length ≤ maxStringLen ∧ (∀ topic ∈ subscriptions, topic.length ≤ maxStringLen) ∧
        subscriptionSize subscriptions ≤ maxFrameLen
  | syncGroup _ _ _ assignment => 10 + assignment.length ≤ maxFrameLen
  | offsetCommit _ _ _ topic _ _ => topic.length ≤ maxStringLen
  | produce _ _ _ topics =>
      ShapeFits (shape topics) ∧ 12 + shapeSize 22 (shape topics) ≤ maxFrameLen
  | body => body.Valid

/-! ## Fields -/

/-- A list of strings takes two bytes more for each. -/
theorem length_flatMap_stringField (topics : List Bytes) :
    (topics.flatMap stringField).length = (topics.map fun topic => 2 + topic.length).sum := by
  rw [List.length_flatMap]
  simp only [stringField, List.length_append, length_i16Bytes]

/-- A string takes two bytes and its own. -/
theorem takes_string :
    Takes Decoder.stringBytes (fun value => value.length ≤ maxStringLen)
      (fun value => 2 + value.length) := by
  intro input value rest hrun
  obtain ⟨hlen, rfl⟩ := (exact_string _ _ _).mp hrun
  refine ⟨hlen, ?_⟩
  simp only [stringField, List.length_append, length_i16Bytes]
  omega

/-- A byte field takes four bytes and its own. -/
theorem takes_requiredBytes :
    Takes requiredBytes (fun value => value.length ≤ maxFrameLen)
      (fun value => 4 + value.length) := by
  intro input value rest hrun
  obtain ⟨field, middle, hfield, hnext⟩ := run_bind_ok.mp hrun
  obtain ⟨hlen, hinput⟩ := (exact_bytes _ _ _).mp hfield
  rcases field with _ | field
  · cases hnext
  · obtain ⟨rfl, rfl⟩ := run_pure_ok.mp hnext
    refine ⟨hlen _ rfl, ?_⟩
    simp only [hinput, nullableBytesField, bytesField, List.length_append, length_i32Bytes]
    omega

/-- An array takes four bytes and what its items take. -/
theorem takes_array {α : Type} {item : Decoder α} {P : α → Prop} {cost : α → ℕ}
    (h : Takes item P cost) :
    Takes (Decoder.array item) (fun items => items.length ≤ maxArrayLen ∧ ∀ a ∈ items, P a)
      (fun items => 4 + (items.map cost).sum) := by
  intro input items rest hrun
  obtain ⟨count, middle, hcount, hnext⟩ := run_bind_ok.mp hrun
  obtain ⟨hlen, hinput⟩ := (exact_arrayLen _ _ _).mp hcount
  obtain ⟨⟨rfl, hall⟩, hcost⟩ := h.many count _ _ _ hnext
  refine ⟨⟨hlen, hall⟩, ?_⟩
  simp only [hinput, List.length_append, arrayLenField, length_i32Bytes] at hcost ⊢
  omega

/-- A record set that decodes reaches the magic byte. -/
theorem decodeRecordBatchesWithIdentity_length {bytes : Bytes} {decoded : DecodedRecordBatch}
    (h : decodeRecordBatchesWithIdentity bytes = .ok decoded) : 16 < bytes.length := by
  by_contra hle
  have hnone : (bytes[16]? : Option UInt8) = none := List.getElem?_eq_none (Nat.le_of_not_lt hle)
  unfold decodeRecordBatchesWithIdentity at h
  rw [hnone] at h
  split at h
  · cases h
  · cases h

/-- A partition of a produce request takes more than its answer. -/
theorem takes_producePartition : Takes producePartition (fun _ => True) (fun _ => 22) := by
  intro input partition rest hrun
  obtain ⟨_, _, hindex, hrun⟩ := run_bind_ok.mp hrun
  have hinput := run_i32_ok.mp hindex
  obtain ⟨_, _, hset, hrun⟩ := run_bind_ok.mp hrun
  obtain ⟨-, hcost⟩ := takes_requiredBytes _ _ _ hset
  obtain ⟨_, _, hdecode, hrun⟩ := run_bind_ok.mp hrun
  obtain ⟨hdecoded, rfl⟩ := run_ofExcept_ok.mp hdecode
  have hlong := decodeRecordBatchesWithIdentity_length hdecoded
  obtain ⟨_, _, hreject, hrun⟩ := run_bind_ok.mp hrun
  obtain ⟨-, rfl⟩ := run_reject_ok.mp hreject
  obtain ⟨-, rfl⟩ := run_pure_ok.mp hrun
  refine ⟨trivial, ?_⟩
  simp only [hinput, List.length_append, length_i32Bytes] at hcost ⊢
  omega

/-- A topic takes its name and a fixed number of bytes for each entry. -/
theorem takes_topic {α : Type} {item : Decoder α} {k : ℕ}
    (h : Takes item (fun _ => True) (fun _ => k)) :
    Takes (topic item)
      (fun topic => topic.name.length ≤ maxStringLen ∧ topic.partitions.length ≤ maxArrayLen)
      (fun topic => 6 + topic.name.length + k * topic.partitions.length) := by
  intro input entry rest hrun
  obtain ⟨name, _, hname, hrun⟩ := run_bind_ok.mp hrun
  obtain ⟨⟨-, hlen⟩, hinput⟩ := (exact_nonEmptyString _ _ _).mp hname
  obtain ⟨partitions, _, hpartitions, hrun⟩ := run_bind_ok.mp hrun
  obtain ⟨⟨hcount, -⟩, hcost⟩ := takes_array h _ _ _ hpartitions
  obtain ⟨rfl, rfl⟩ := run_pure_ok.mp hrun
  refine ⟨⟨hlen, hcount⟩, ?_⟩
  simp only [List.map_const', List.sum_replicate_nat, Nat.mul_comm partitions.length]
    at hcost
  simp only [hinput, stringField, List.length_append, length_i16Bytes]
  omega

/-! ## Bodies -/

/-- The subscription of a join was in the metadata it was read from. -/
theorem decodeSubscription_bounded {metadata : Bytes} {subscriptions : List Bytes}
    (h : decodeSubscription metadata = .ok subscriptions) :
    subscriptions.length ≤ maxArrayLen ∧
      (∀ topic ∈ subscriptions, topic.length ≤ maxStringLen) ∧
        subscriptionSize subscriptions ≤ metadata.length := by
  unfold decodeSubscription at h
  rcases hrun : (do
      let _version ← Decoder.i16
      let subscriptions ← Decoder.array Decoder.stringBytes
      let _userData ← Decoder.bytes
      return subscriptions : Decoder (List Bytes)).run metadata with error | ⟨read, rest⟩
  · rw [hrun] at h
    cases h
  · rw [hrun] at h
    cases h
    simp only [run_bind_ok, run_i16_ok, exact_array exact_string _ _ _, exact_bytes _ _ _,
      run_pure_ok] at hrun
    obtain ⟨_, _, rfl, _, _, ⟨⟨hlen, htopics⟩, rfl⟩, userData, _, ⟨-, rfl⟩, rfl, rfl⟩ := hrun
    refine ⟨hlen, htopics, ?_⟩
    have huser : 4 ≤ (nullableBytesField userData).length := by
      rcases userData with _ | value
      · simp [nullableBytesField]
      · simp [nullableBytesField, bytesField]
    simp only [subscriptionSize, arrayField, arrayLenField, List.length_append, length_i16Bytes,
      length_i32Bytes, length_flatMap_stringField]
    omega

/-- A join request holds the metadata its subscription was read from. -/
theorem decodeJoinGroup_metadata {rest : Bytes} (h : decodeJoinGroup.run input = .ok (body, rest)) :
    ∃ groupId memberId subscriptions metadata,
      body = .joinGroup groupId memberId subscriptions ∧ memberId.length ≤ maxStringLen ∧
        metadata.length ≤ maxFrameLen ∧ decodeSubscription metadata = .ok subscriptions := by
  obtain ⟨groupId, _, -, h⟩ := run_bind_ok.mp h
  obtain ⟨_, _, -, h⟩ := run_bind_ok.mp h
  obtain ⟨_, _, -, h⟩ := run_bind_ok.mp h
  obtain ⟨_, _, -, h⟩ := run_bind_ok.mp h
  obtain ⟨memberId, _, hmember, h⟩ := run_bind_ok.mp h
  obtain ⟨_, _, -, h⟩ := run_bind_ok.mp h
  obtain ⟨_, _, -, h⟩ := run_bind_ok.mp h
  obtain ⟨_, _, -, h⟩ := run_bind_ok.mp h
  obtain ⟨_, _, -, h⟩ := run_bind_ok.mp h
  obtain ⟨metadata, _, hmetadata, h⟩ := run_bind_ok.mp h
  obtain ⟨subscriptions, _, hsubscriptions, h⟩ := run_bind_ok.mp h
  obtain ⟨_, _, -, h⟩ := run_bind_ok.mp h
  obtain ⟨rfl, -⟩ := run_pure_ok.mp h
  obtain ⟨hlen, -⟩ := takes_string _ _ _ hmember
  obtain ⟨hfits, -⟩ := takes_requiredBytes _ _ _ hmetadata
  exact ⟨groupId, memberId, subscriptions, metadata, rfl, hlen, hfits,
    (run_ofExcept_ok.mp hsubscriptions).1⟩

/-- The member id and the topics of a decoded JoinGroup are within the bounds. -/
theorem bounded_joinGroup {rest : Bytes} (h : decodeJoinGroup.run input = .ok (body, rest)) :
    body.Bounded := by
  obtain ⟨_, _, _, metadata, rfl, hmember, hfits, hsubscriptions⟩ := decodeJoinGroup_metadata h
  obtain ⟨-, htopics, hsize⟩ := decodeSubscription_bounded hsubscriptions
  exact ⟨hmember, htopics, Nat.le_trans hsize hfits⟩

/-- A decoded join names no more topics than an array may have entries. -/
theorem length_topics_le {frame : Bytes} {header : Header} {topics : List Bytes}
    (h : decodeRequest frame = .ok ⟨header, .joinGroup groupId memberId topics⟩) :
    topics.length ≤ maxArrayLen := by
  obtain ⟨middle, hbody, -⟩ := run_readRequestFrame h
  obtain ⟨_, _, _, metadata, heq, -, -, hsubscriptions⟩ := decodeJoinGroup_metadata hbody
  cases heq
  exact (decodeSubscription_bounded hsubscriptions).1

/-- The assignment kept by a sync is one of those it carries. -/
theorem keptAssignment_le (assignments : List Bytes) :
    (keptAssignment assignments).length ≤ (assignments.map fun bytes => bytes.length).sum := by
  have hfold : ∀ kept : Bytes,
      (assignments.foldl (fun kept bytes => if kept.isEmpty then bytes else kept) kept).length ≤
        kept.length + (assignments.map fun bytes => bytes.length).sum := by
    induction assignments with
    | nil => simp
    | cons bytes rest ih =>
        intro kept
        rw [List.foldl_cons, List.map_cons, List.sum_cons]
        refine Nat.le_trans (ih _) ?_
        split <;> omega
  have hnil := hfold []
  rwa [List.length_nil, Nat.zero_add] at hnil

/-- An entry of a SyncGroup takes at least its assignment. -/
theorem takes_memberAssignment :
    Takes memberAssignment (fun _ => True) (fun assignment => assignment.length) := by
  intro input assignment rest hrun
  obtain ⟨_, _, hmember, hrun⟩ := run_bind_ok.mp hrun
  obtain ⟨-, hcost⟩ := takes_string _ _ _ hmember
  obtain ⟨-, hcost'⟩ := takes_requiredBytes _ _ _ hrun
  simp only [true_and] at hcost hcost' ⊢
  omega

/-- The assignment of a decoded SyncGroup fits a frame. -/
theorem bounded_syncGroup (h : decodeSyncGroup.run input = .ok (body, []))
    (hinput : 10 + input.length ≤ maxFrameLen) :
    body.Bounded := by
  obtain ⟨_, _, hgroup, h⟩ := run_bind_ok.mp h
  obtain ⟨-, hcost⟩ := takes_string _ _ _ hgroup
  obtain ⟨_, _, hgeneration, h⟩ := run_bind_ok.mp h
  have hgeneration := run_i32_ok.mp hgeneration
  obtain ⟨_, _, hmember, h⟩ := run_bind_ok.mp h
  obtain ⟨-, hcost'⟩ := takes_string _ _ _ hmember
  obtain ⟨assignments, _, hassignments, h⟩ := run_bind_ok.mp h
  obtain ⟨-, hcost''⟩ := takes_array takes_memberAssignment _ _ _ hassignments
  obtain ⟨rfl, rfl⟩ := run_pure_ok.mp h
  have hkept := keptAssignment_le assignments
  simp only [hgeneration, List.length_append, length_i32Bytes, List.length_nil] at *
  refine Nat.le_trans (Nat.add_le_add_left hkept 10) ?_
  omega

/-- The topic of a decoded OffsetCommit is within the bound. -/
theorem bounded_offsetCommit {rest : Bytes} (h : decodeOffsetCommit.run input = .ok (body, rest)) :
    body.Bounded := by
  obtain ⟨_, _, -, h⟩ := run_bind_ok.mp h
  obtain ⟨_, _, -, h⟩ := run_bind_ok.mp h
  obtain ⟨_, _, -, h⟩ := run_bind_ok.mp h
  obtain ⟨_, _, -, h⟩ := run_bind_ok.mp h
  obtain ⟨_, _, -, h⟩ := run_bind_ok.mp h
  obtain ⟨_, _, -, h⟩ := run_bind_ok.mp h
  obtain ⟨topic, _, htopic, h⟩ := run_bind_ok.mp h
  obtain ⟨_, _, -, h⟩ := run_bind_ok.mp h
  obtain ⟨_, _, -, h⟩ := run_bind_ok.mp h
  obtain ⟨_, _, -, h⟩ := run_bind_ok.mp h
  obtain ⟨_, _, -, h⟩ := run_bind_ok.mp h
  obtain ⟨_, _, -, h⟩ := run_bind_ok.mp h
  obtain ⟨rfl, -⟩ := run_pure_ok.mp h
  exact (takes_string _ _ _ htopic).1

/-- The topics of a decoded Produce fit a response. -/
theorem bounded_produce (h : decodeProduce.run input = .ok (body, []))
    (hinput : 10 + input.length ≤ maxFrameLen) :
    body.Bounded := by
  obtain ⟨transactionalId, _, hid, h⟩ := run_bind_ok.mp h
  obtain ⟨-, hid⟩ := (exact_nullableString _ _ _).mp hid
  obtain ⟨_, _, hacks, h⟩ := run_bind_ok.mp h
  have hacks := run_i16_ok.mp hacks
  obtain ⟨_, _, htimeout, h⟩ := run_bind_ok.mp h
  have htimeout := run_i32_ok.mp htimeout
  obtain ⟨topics, _, htopics, h⟩ := run_bind_ok.mp h
  obtain ⟨⟨hcount, hall⟩, hcost⟩ := takes_array (takes_topic takes_producePartition) _ _ _ htopics
  obtain ⟨rfl, rfl⟩ := run_pure_ok.mp h
  refine ⟨⟨by rwa [shape, List.length_map], ?_⟩, ?_⟩
  · intro entry hentry
    obtain ⟨topic, htopic, rfl⟩ := List.mem_map.mp hentry
    exact hall topic htopic
  · have hsize : shapeSize 22 (shape topics) =
        (topics.map fun topic => 6 + topic.name.length + 22 * topic.partitions.length).sum := by
      rw [shapeSize, shape, List.map_map]
      rfl
    rw [hsize]
    simp only [hid, hacks, htimeout, List.length_append, length_i16Bytes, length_i32Bytes,
      List.length_nil] at hinput hcost
    omega

/-! ## Requests -/

/-- **Decoded requests are bounded.** -/
theorem decodeRequest_bounded {frame : Bytes} {request : Request}
    (h : decodeRequest frame = .ok request) : request.body.Bounded := by
  obtain ⟨payload, hlen, -, hfields⟩ := decodeRequest_eq_ok.mp h
  obtain ⟨-, -, -, middle, rfl, hbody⟩ := run_requestFields_ok.mp hfields
  have hmiddle : 10 + middle.length ≤ maxFrameLen := by
    have hclient : 2 ≤ (nullableStringField request.header.clientId).length := by
      rcases request.header.clientId with _ | value
      · simp [nullableStringField]
      · simp [nullableStringField, stringField]
    simp only [headerField, List.length_append, length_i16Bytes, length_i32Bytes] at hlen
    omega
  have hvalid : request.body.KeepsFields → request.body.Valid := fun hkeeps =>
    ((accepts_decodeBody hkeeps _ _).mp hbody).1
  revert hbody hvalid
  cases request.body with
  | joinGroup => exact fun hbody _ => bounded_joinGroup hbody
  | syncGroup => exact fun hbody _ => bounded_syncGroup hbody hmiddle
  | offsetCommit => exact fun hbody _ => bounded_offsetCommit hbody
  | produce => exact fun hbody _ => bounded_produce hbody hmiddle
  | _ => exact fun _ hvalid => hvalid trivial

/-! ## A join on the wire -/

/-- Subscription metadata for no topic. -/
def emptySubscription : Bytes := i16Bytes 0 ++ (arrayLenField 0 ++ i32Bytes (-1))

/-- The body of a join with one protocol and no subscription. -/
def joinLayout (groupId memberId : Bytes) : Bytes :=
  stringField groupId ++ (i32Bytes 0 ++ (i32Bytes 0 ++ (stringField memberId ++ (stringField [] ++
    (arrayLenField 1 ++ (stringField [] ++ bytesField emptySubscription))))))

/-- The frame of such a join. -/
def joinFrame (groupId memberId : Bytes) : Bytes :=
  bytesField (headerField ⟨11, 1, 0, none⟩ ++ joinLayout groupId memberId)

/-- The layout of a join without topics is read back. -/
theorem reads_decodeJoinGroup (hgroup : groupId.length ≤ maxStringLen)
    (hmember : memberId.length ≤ maxStringLen) :
    Reads decodeJoinGroup (joinLayout groupId memberId) (.joinGroup groupId memberId []) := by
  have hmetadata : decodeSubscription emptySubscription = .ok [] := rfl
  have hbytes : Reads requiredBytes (bytesField emptySubscription) emptySubscription :=
    reads_requiredBytes (by decide)
  refine (reads_string hgroup).bind ((reads_i32 _).bind ((reads_i32 _).bind ?_))
  refine (Reads.reject _ (by decide)).bind_nil ((reads_string hmember).bind ?_)
  refine (exact_string.reads (a := []) (by decide)).bind ?_
  refine (exact_arrayLen.reads (a := 1) (by decide)).bind ?_
  refine (Reads.reject _ (by decide)).bind_nil ((exact_string.reads (a := []) (by decide)).bind ?_)
  exact hbytes.bind_end
    ((Reads.ofExcept hmetadata).bind_nil ((Reads.pure []).bind_nil (Reads.pure _)))

/-- The frame of a join is decoded to that join. -/
theorem decodeRequest_joinFrame (hgroup : groupId.length ≤ maxStringLen)
    (hmember : memberId.length ≤ maxStringLen) :
    decodeRequest (joinFrame groupId memberId) =
      .ok ⟨⟨11, 1, 0, none⟩, .joinGroup groupId memberId []⟩ := by
  refine decodeRequest_eq_ok.mpr ⟨_, ?_, rfl, run_requestFields_ok.mpr ⟨?_, rfl, rfl, _, rfl, ?_⟩⟩
  · simp only [headerField, joinLayout, emptySubscription, nullableStringField, stringField,
      bytesField, arrayLenField, List.length_append, length_i16Bytes, length_i32Bytes,
      List.length_nil]
    unfold maxStringLen at hgroup hmember
    unfold maxFrameLen
    omega
  · rintro _ ⟨⟩
  · exact (reads_decodeJoinGroup hgroup hmember).all

/-! ## A record set on the wire -/

/-- The body of a produce request with this record set for one partition. -/
def produceSetLayout (topic : Bytes) (partition : Int32) (recordSet : Bytes) : Bytes :=
  nullableStringField none ++ (i16Bytes 1 ++ (i32Bytes 0 ++ (arrayLenField 1 ++
    (stringField topic ++ (arrayLenField 1 ++ (i32Bytes partition ++ bytesField recordSet))))))

/-- The frame of such a request. -/
def produceSetFrame (topic : Bytes) (partition : Int32) (recordSet : Bytes) : Bytes :=
  bytesField (headerField ⟨0, 3, 0, none⟩ ++ produceSetLayout topic partition recordSet)

section RecordSet

variable {topic recordSet : Bytes} {decoded : DecodedRecordBatch} (hne : topic ≠ [])
  (hlen : topic.length ≤ maxStringLen) (partition : Int32)
  (hset : decodeRecordBatchesWithIdentity recordSet = .ok decoded) (hrecords : decoded.records ≠ [])
include hne hlen hset hrecords

/-- The layout of a produce with one record set is read back. -/
theorem reads_produceSet (hfits : recordSet.length ≤ maxFrameLen) :
    Reads decodeProduce (produceSetLayout topic partition recordSet)
      (.produce none 1 0 [⟨topic, [⟨partition, decoded.records, decoded.producer⟩]⟩]) := by
  have hpartition : Reads producePartition (i32Bytes partition ++ bytesField recordSet)
      ⟨partition, decoded.records, decoded.producer⟩ :=
    (reads_i32 _).bind ((reads_requiredBytes hfits).bind_end ((Reads.ofExcept hset).bind_nil
      ((Reads.reject _ hrecords).bind_nil (Reads.pure _))))
  have htopic : Reads (Wire.topic producePartition) (stringField topic ++ (arrayLenField 1 ++
      (i32Bytes partition ++ bytesField recordSet)))
      ⟨topic, [⟨partition, decoded.records, decoded.producer⟩]⟩ :=
    (exact_nonEmptyString.reads ⟨hne, hlen⟩).bind ((reads_one hpartition).bind_end (Reads.pure _))
  refine (exact_nullableString.reads (a := none) fun _ h => nomatch h).bind ?_
  exact (reads_i16 1).bind ((reads_i32 0).bind ((reads_one htopic).bind_end (Reads.pure _)))

/-- The frame of a record set is decoded to a produce of its records. -/
theorem decodeRequest_produceSetFrame
    (hfits : 38 + topic.length + recordSet.length ≤ maxFrameLen) :
    decodeRequest (produceSetFrame topic partition recordSet) =
      .ok ⟨⟨0, 3, 0, none⟩,
        .produce none 1 0 [⟨topic, [⟨partition, decoded.records, decoded.producer⟩]⟩]⟩ := by
  refine decodeRequest_eq_ok.mpr ⟨_, ?_, rfl, run_requestFields_ok.mpr ⟨?_, rfl, rfl, _, rfl, ?_⟩⟩
  · simp only [headerField, produceSetLayout, nullableStringField, stringField, bytesField,
      arrayLenField, List.length_append, length_i16Bytes, length_i32Bytes]
    omega
  · rintro _ ⟨⟩
  · exact (reads_produceSet hne hlen partition hset hrecords (by omega)).all

end RecordSet

/-- The frame of a produce request with one record for one partition. -/
def produceFrame (topic : Bytes) (partition : Int32) (record : Record) : Bytes :=
  produceSetFrame topic partition (batchBytes record.offset [record])

/-- A batch of one record is decoded to that record. -/
theorem decodeRecordBatchesWithIdentity_one {record : Record}
    (hfits : (batchBytes record.offset [record]).length ≤ maxFrameLen) :
    decodeRecordBatchesWithIdentity (batchBytes record.offset [record]) =
      .ok ⟨[record.data], none⟩ := by
  have htimestamp : saturatingAdd record.timestampMs
      (saturatingSub record.timestampMs record.timestampMs) = record.timestampMs :=
    saturatingAdd_saturatingSub (by omega) (by omega)
  rw [decodeRecordBatchesWithIdentity_batchBytes (by simp [maxRecords])
    (Nat.lt_of_le_of_lt hfits (by decide)), Record.data]
  simp only [List.map_cons, List.map_nil, firstTimestamp, List.head?_cons, Option.map_some,
    Option.getD_some, htimestamp]

/-- The frame of a record is decoded to a produce of that record. -/
theorem decodeRequest_produceFrame {topic : Bytes} (hne : topic ≠ [])
    (hlen : topic.length ≤ maxStringLen) (partition : Int32) {record : Record}
    (hfits : 38 + topic.length + (batchBytes record.offset [record]).length ≤ maxFrameLen) :
    decodeRequest (produceFrame topic partition record) =
      .ok ⟨⟨0, 3, 0, none⟩, .produce none 1 0 [⟨topic, [⟨partition, [record.data], none⟩]⟩]⟩ :=
  decodeRequest_produceSetFrame hne hlen partition
    (decodeRecordBatchesWithIdentity_one (by omega)) (List.cons_ne_nil _ _) hfits

end CharlotteBroker.Wire
