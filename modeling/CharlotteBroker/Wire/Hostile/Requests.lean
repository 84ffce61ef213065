import CharlotteBroker.Wire.Decoded
import CharlotteBroker.Wire.Hostile.Records

/-!
# Requests as hostile bytes

The request decoders of `request.rs` over slices and offsets, as in `Hostile.Records`. Vectors are
reserved with the sizes their elements have on a 64-bit target.

* The frame's own indices are behind its length checks; every later index is the decoder's.
* `decode_answers`: every slice is answered, by the request decoder, by the record set decoder and
  by the header reader, as the parsers say.
-/

namespace CharlotteBroker.Wire.Hostile

open Lib Lib.Reader CharlotteBroker.Core

/-! ## Decoders -/

/-- A byte field that may not be null. Source: `request.rs`, `bytes()?.ok_or(Error::Invalid)?`.
Kind: D -/
def requiredBytes : Decoder Bytes := do
  match ← Decoder.bytes with
  | some value => return value
  | none => lift (Checked.fail .invalid)

/-- A string that may not be empty. Source: `request.rs`, the `is_empty` tests. Kind: D -/
def nonEmptyString : Decoder Bytes := do
  let name ← Decoder.stringBytes
  reject (name = []) .invalid
  return name

/-- A flag: zero or one. Source: `request.rs`, `commit` and `isolation`. Kind: D -/
def flag : Decoder Bool := do
  let value ← Decoder.i8
  reject (value ≠ 0 ∧ value ≠ 1) .invalid
  return value ≠ 0

/-- A topic entry of a produce, fetch or list-offsets request, with the size of a partition entry.
Source: `request.rs`, `decode_produce`, `decode_fetch`, `decode_list_offsets`. Kind: D -/
def topic {α : Type} (size : ℕ) (item : Decoder α) : Decoder (Topic α) := do
  let name ← nonEmptyString
  let partitions ← Decoder.array size item
  return ⟨name, partitions⟩

/-- Source: `request.rs`, `decode_find_coordinator`. Kind: D -/
def decodeFindCoordinator : Decoder RequestBody := do
  let key ← nonEmptyString
  let keyType ← Decoder.i8
  reject (keyType ≠ 0 ∧ keyType ≠ 1) .invalid
  return .findCoordinator key keyType

/-- Source: `request.rs`, `decode_init_producer_id`. Kind: D -/
def decodeInitProducerId : Decoder RequestBody := do
  let transactionalId ← Decoder.nullableStringBytes
  let timeoutMs ← Decoder.i32
  return .initProducerId transactionalId timeoutMs

/-- Source: `request.rs`, `decode_add_partitions_to_txn` (the inner loop). Kind: D -/
def txnPartition : Decoder Int32 := do
  let partition ← Decoder.i32
  reject (partition < 0) .invalid
  return partition

/-- A topic entry without the check for an empty name.
Source: `request.rs`, `decode_add_partitions_to_txn` (the outer loop). Kind: D -/
def txnTopic : Decoder (Topic Int32) := do
  let name ← Decoder.stringBytes
  let partitions ← Decoder.array 4 txnPartition
  return ⟨name, partitions⟩

/-- Source: `request.rs`, `decode_add_partitions_to_txn`. Kind: D -/
def decodeAddPartitionsToTxn : Decoder RequestBody := do
  let transactionalId ← Decoder.stringBytes
  let producerId ← Decoder.i64
  let producerEpoch ← Decoder.i16
  let topics ← Decoder.array 48 txnTopic
  return .addPartitionsToTxn transactionalId producerId producerEpoch topics

/-- Source: `request.rs`, `decode_end_txn`. Kind: D -/
def decodeEndTxn : Decoder RequestBody := do
  let transactionalId ← Decoder.stringBytes
  let producerId ← Decoder.i64
  let producerEpoch ← Decoder.i16
  let commit ← flag
  return .endTxn transactionalId producerId producerEpoch commit

/-- The subscription inside a join request. What follows it is not looked at.
Source: `request.rs`, `decode_join_group` (`metadata_decoder`). Kind: D -/
def decodeSubscription (metadata : Bytes) : Checked Error (List Bytes) :=
  front (do
    let _version ← Decoder.i16
    let subscriptions ← Decoder.array 24 Decoder.stringBytes
    let _userData ← Decoder.bytes
    return subscriptions) metadata

/-- Source: `request.rs`, `decode_join_group` (the closing loop). Kind: D -/
def skipProtocol : Decoder Unit := do
  let _name ← Decoder.stringBytes
  let _metadata ← requiredBytes
  return ()

/-- Source: `request.rs`, `decode_join_group`. Kind: D -/
def decodeJoinGroup : Decoder RequestBody := do
  let groupId ← Decoder.stringBytes
  let sessionTimeout ← Decoder.i32
  let rebalanceTimeout ← Decoder.i32
  reject (sessionTimeout < 0 ∨ rebalanceTimeout < 0) .invalid
  let memberId ← Decoder.stringBytes
  let _protocolType ← Decoder.stringBytes
  let protocols ← Decoder.arrayLen
  reject (protocols = 0) .invalid
  let _name ← Decoder.stringBytes
  let metadata ← requiredBytes
  let subscriptions ← lift (decodeSubscription metadata)
  let _ ← many skipProtocol (protocols - 1)
  return .joinGroup groupId memberId subscriptions

/-- Source: `request.rs`, `decode_sync_group` (the loop). Kind: D -/
def memberAssignment : Decoder Bytes := do
  let _member ← Decoder.stringBytes
  requiredBytes

/-- Source: `request.rs`, `decode_sync_group`. Kind: D -/
def decodeSyncGroup : Decoder RequestBody := do
  let groupId ← Decoder.stringBytes
  let generation ← Decoder.i32
  let memberId ← Decoder.stringBytes
  let assignments ← (do many memberAssignment (← Decoder.arrayLen))
  return .syncGroup groupId generation memberId (keptAssignment assignments)

/-- Source: `request.rs`, `decode_heartbeat`. Kind: D -/
def decodeHeartbeat : Decoder RequestBody := do
  let groupId ← Decoder.stringBytes
  let generation ← Decoder.i32
  let memberId ← Decoder.stringBytes
  return .heartbeat groupId generation memberId

/-- Source: `request.rs`, `decode_leave_group`. Kind: D -/
def decodeLeaveGroup : Decoder RequestBody := do
  let groupId ← Decoder.stringBytes
  let memberId ← Decoder.stringBytes
  return .leaveGroup groupId memberId

/-- Source: `request.rs`, `decode_offset_commit`. Kind: D -/
def decodeOffsetCommit : Decoder RequestBody := do
  let groupId ← Decoder.stringBytes
  let generation ← Decoder.i32
  let memberId ← Decoder.stringBytes
  let _retention ← Decoder.i64
  let topics ← Decoder.arrayLen
  reject (topics ≠ 1) .invalid
  let topic ← Decoder.stringBytes
  let partitions ← Decoder.arrayLen
  reject (partitions ≠ 1) .invalid
  let partition ← Decoder.i32
  let offset ← Decoder.i64
  let _metadata ← Decoder.nullableStringBytes
  return .offsetCommit groupId generation memberId topic partition offset

/-- Source: `request.rs`, `decode_offset_fetch`. Kind: D -/
def decodeOffsetFetch : Decoder RequestBody := do
  let groupId ← Decoder.stringBytes
  let topics ← Decoder.arrayLen
  reject (topics ≠ 1) .invalid
  let topic ← Decoder.stringBytes
  let partitions ← Decoder.arrayLen
  reject (partitions ≠ 1) .invalid
  let partition ← Decoder.i32
  return .offsetFetch groupId topic partition

/-- Source: `request.rs`, `decode_metadata`. Kind: D -/
def decodeMetadata : Decoder RequestBody := do
  match ← Decoder.nullableArrayLen with
  | none => return .metadata none
  | some count => return .metadata (some (← Decoder.items 24 nonEmptyString count))

/-- Source: `request.rs`, `decode_produce` (the inner loop). Kind: D -/
def producePartition : Decoder ProducePartition := do
  let partition ← Decoder.i32
  let recordSet ← requiredBytes
  let decoded ← lift (decodeRecordBatchesWithIdentity recordSet)
  reject (decoded.records = []) .invalid
  return ⟨partition, decoded.records, decoded.producer⟩

/-- Source: `request.rs`, `decode_produce`. Kind: D -/
def decodeProduce : Decoder RequestBody := do
  let transactionalId ← Decoder.nullableStringBytes
  let acks ← Decoder.i16
  let timeoutMs ← Decoder.i32
  let topics ← Decoder.array 48 (topic 56 producePartition)
  return .produce transactionalId acks timeoutMs topics

/-- Source: `request.rs`, `decode_fetch` (the inner loop). Kind: D -/
def fetchPartition : Decoder FetchPartition := do
  let partition ← Decoder.i32
  let fetchOffset ← Decoder.i64
  let partitionMaxBytes ← Decoder.i32
  reject (partitionMaxBytes < 0) .invalid
  return ⟨partition, fetchOffset, partitionMaxBytes⟩

/-- Source: `request.rs`, `decode_fetch`. Kind: D -/
def decodeFetch : Decoder RequestBody := do
  let replicaId ← Decoder.i32
  let maxWaitMs ← Decoder.i32
  let minBytes ← Decoder.i32
  let maxBytes ← Decoder.i32
  reject (maxWaitMs < 0 ∨ minBytes < 0 ∨ maxBytes < 0) .invalid
  let readCommitted ← flag
  let topics ← Decoder.array 48 (topic 16 fetchPartition)
  return .fetch replicaId maxWaitMs minBytes maxBytes readCommitted topics

/-- Source: `request.rs`, `decode_list_offsets` (the inner loop). Kind: D -/
def listOffsetsPartition : Decoder ListOffsetsPartition := do
  let partition ← Decoder.i32
  let timestamp ← Decoder.i64
  return ⟨partition, timestamp⟩

/-- Source: `request.rs`, `decode_list_offsets`. Kind: D -/
def decodeListOffsets : Decoder RequestBody := do
  let replicaId ← Decoder.i32
  let topics ← Decoder.array 48 (topic 16 listOffsetsPartition)
  return .listOffsets replicaId topics

/-- Source: `request.rs`, `decode_request` (the arms of the `match`). Kind: D -/
def decodeBody : Api → Decoder RequestBody
  | .apiVersions => return .apiVersions
  | .findCoordinator => decodeFindCoordinator
  | .initProducerId => decodeInitProducerId
  | .addPartitionsToTxn => decodeAddPartitionsToTxn
  | .endTxn => decodeEndTxn
  | .joinGroup => decodeJoinGroup
  | .syncGroup => decodeSyncGroup
  | .heartbeat => decodeHeartbeat
  | .leaveGroup => decodeLeaveGroup
  | .offsetCommit => decodeOffsetCommit
  | .offsetFetch => decodeOffsetFetch
  | .metadata => decodeMetadata
  | .produce => decodeProduce
  | .fetch => decodeFetch
  | .listOffsets => decodeListOffsets

/-- The payload of a frame.
Source: `request.rs`, `decode_request` (after the length checks). Kind: D -/
def requestFields : Decoder Request := do
  let apiKey ← Decoder.i16
  let apiVersion ← Decoder.i16
  let correlationId ← Decoder.i32
  let clientId ← Decoder.nullableStringBytes
  reject (isSupportedApi apiKey = false) .unsupportedApi
  match Api.find? apiKey apiVersion with
  | none => lift (Checked.fail .unsupportedVersion)
  | some api =>
      let body ← decodeBody api
      return ⟨⟨apiKey, apiVersion, correlationId, clientId⟩, body⟩

/-- Source: `request.rs`, `decode_request`. Kind: D -/
def decodeRequest (frame : Bytes) : Checked Error Request := do
  Checked.reject (frame.length < 4) .incomplete
  let head ← Checked.slice frame 0 4
  let head ← Checked.toArray .invalid 4 head
  let declared := Int32.ofBitVec (BitVec.ofNat 32 (beValue head))
  Checked.reject (declared < 0) .invalid
  Checked.reject (maxFrameLen < declared.toInt.toNat) .tooLarge
  let expected ← Checked.add declared.toInt.toNat 4
  Checked.reject (expected ≠ frame.length) .incomplete
  let payload ← Checked.sliceFrom frame 4
  whole .invalid requestFields payload

/-- Source: `request.rs`, `peek_header`. Kind: D -/
def peekHeader (frame : Bytes) : Checked Error Header := do
  Checked.reject (frame.length < 12) .incomplete
  let apiKey ← Checked.slice frame 4 6
  let apiKey ← Checked.toArray .invalid 2 apiKey
  let apiVersion ← Checked.slice frame 6 8
  let apiVersion ← Checked.toArray .invalid 2 apiVersion
  let correlationId ← Checked.slice frame 8 12
  let correlationId ← Checked.toArray .invalid 4 correlationId
  return ⟨Int16.ofBitVec (BitVec.ofNat 16 (beValue apiKey)),
    Int16.ofBitVec (BitVec.ofNat 16 (beValue apiVersion)),
    Int32.ofBitVec (BitVec.ofNat 32 (beValue correlationId)), none⟩

/-! ## Refinement

Each decoder does what the parser of its kind does, field by field. -/

/-- Reserving for a hostile number of items never overflows. -/
theorem refines_items {α : Type} {item : Decoder α} {item' : Wire.Decoder α}
    (h : Refines item item') {size count : ℕ} (hsize : size ≤ 64) (hcount : count ≤ maxArrayLen) :
    Refines (Decoder.items size item count) (Parser.many item' count) := by
  refine Refines.remaining_step fun left =>
    Refines.step (Checked.withCapacity_of_lt ?_) (h.many count)
  calc size * min count left ≤ 64 * maxArrayLen :=
        Nat.mul_le_mul hsize (Nat.le_trans (Nat.min_le_left _ _) hcount)
    _ < 2 ^ 63 := by decide

/-- An array of items of at most 64 bytes is read as the parser reads it. -/
theorem refines_array {α : Type} {item : Decoder α} {item' : Wire.Decoder α}
    (h : Refines item item') {size : ℕ} (hsize : size ≤ 64) :
    Refines (Decoder.array size item) (Wire.Decoder.array item') :=
  refines_arrayLen.bind_of exact_arrayLen.yields fun _ hcount => refines_items h hsize hcount

theorem refines_requiredBytes : Refines requiredBytes Wire.requiredBytes := by
  refine refines_bytes.bind fun value => ?_
  rcases value with _ | value
  · exact Refines.fail _
  · exact Refines.pure value

/-- A byte field is small enough to be read on its own. -/
theorem yields_requiredBytes :
    Parser.Yields Wire.requiredBytes (fun value => value.length < 2 ^ 63) := by
  intro input value rest hrun
  exact Nat.lt_of_le_of_lt (takes_requiredBytes _ _ _ hrun).1 (by decide)

theorem refines_nonEmptyString : Refines nonEmptyString Wire.nonEmptyString :=
  refines_stringBytes.bind fun _ => Refines.reject fun _ => Refines.pure _

theorem refines_flag : Refines flag Wire.flag :=
  refines_i8.bind fun _ => Refines.reject fun _ => Refines.pure _

theorem refines_topic {α : Type} {item : Decoder α} {item' : Wire.Decoder α}
    (h : Refines item item') {size : ℕ} (hsize : size ≤ 64) :
    Refines (topic size item) (Wire.topic item') :=
  refines_nonEmptyString.bind fun _ => (refines_array h hsize).bind fun _ => Refines.pure _

theorem refines_findCoordinator : Refines decodeFindCoordinator Wire.decodeFindCoordinator :=
  refines_nonEmptyString.bind fun _ => refines_i8.bind fun _ =>
    Refines.reject fun _ => Refines.pure _

theorem refines_initProducerId : Refines decodeInitProducerId Wire.decodeInitProducerId :=
  refines_nullableStringBytes.bind fun _ => refines_i32.bind fun _ => Refines.pure _

theorem refines_txnTopic : Refines txnTopic Wire.txnTopic := by
  have hpartition : Refines txnPartition Wire.txnPartition :=
    refines_i32.bind fun _ => Refines.reject fun _ => Refines.pure _
  exact refines_stringBytes.bind fun _ =>
    (refines_array hpartition (by decide)).bind fun _ => Refines.pure _

theorem refines_addPartitionsToTxn :
    Refines decodeAddPartitionsToTxn Wire.decodeAddPartitionsToTxn :=
  refines_stringBytes.bind fun _ => refines_i64.bind fun _ => refines_i16.bind fun _ =>
    (refines_array refines_txnTopic (by decide)).bind fun _ => Refines.pure _

theorem refines_endTxn : Refines decodeEndTxn Wire.decodeEndTxn :=
  refines_stringBytes.bind fun _ => refines_i64.bind fun _ => refines_i16.bind fun _ =>
    refines_flag.bind fun _ => Refines.pure _

/-- Decoding the subscription inside a join comes to the parser's answer, without a panic. -/
theorem decodeSubscription_answers {metadata : Bytes} (hfits : metadata.length < 2 ^ 63) :
    decodeSubscription metadata = Checked.answer (Wire.decodeSubscription metadata) :=
  Refines.front (refines_i16.bind fun _ =>
    (refines_array refines_stringBytes (by decide)).bind fun _ =>
      refines_bytes.bind fun _ => Refines.pure _) hfits

/-- A JoinGroup is decoded as the parser does it, its embedded subscription included. -/
theorem refines_joinGroup : Refines decodeJoinGroup Wire.decodeJoinGroup := by
  have hskip : Refines skipProtocol Wire.skipProtocol :=
    refines_stringBytes.bind fun _ => refines_requiredBytes.bind fun _ => Refines.pure _
  refine refines_stringBytes.bind fun _ => refines_i32.bind fun _ => refines_i32.bind fun _ =>
    Refines.reject fun _ => refines_stringBytes.bind fun _ => refines_stringBytes.bind fun _ =>
      refines_arrayLen.bind fun _ => Refines.reject fun _ => refines_stringBytes.bind fun _ => ?_
  exact refines_requiredBytes.bind_of yields_requiredBytes fun _ hfits =>
    (Refines.lift (decodeSubscription_answers hfits)).bind fun _ =>
      (hskip.many _).bind fun _ => Refines.pure _

theorem refines_syncGroup : Refines decodeSyncGroup Wire.decodeSyncGroup := by
  have hassignment : Refines memberAssignment Wire.memberAssignment :=
    refines_stringBytes.bind fun _ => refines_requiredBytes
  exact refines_stringBytes.bind fun _ => refines_i32.bind fun _ =>
    refines_stringBytes.bind fun _ => (refines_arrayLen.bind hassignment.many).bind fun _ =>
      Refines.pure _

theorem refines_heartbeat : Refines decodeHeartbeat Wire.decodeHeartbeat :=
  refines_stringBytes.bind fun _ => refines_i32.bind fun _ => refines_stringBytes.bind fun _ =>
    Refines.pure _

theorem refines_leaveGroup : Refines decodeLeaveGroup Wire.decodeLeaveGroup :=
  refines_stringBytes.bind fun _ => refines_stringBytes.bind fun _ => Refines.pure _

theorem refines_offsetCommit : Refines decodeOffsetCommit Wire.decodeOffsetCommit :=
  refines_stringBytes.bind fun _ => refines_i32.bind fun _ => refines_stringBytes.bind fun _ =>
    refines_i64.bind fun _ => refines_arrayLen.bind fun _ => Refines.reject fun _ =>
      refines_stringBytes.bind fun _ => refines_arrayLen.bind fun _ => Refines.reject fun _ =>
        refines_i32.bind fun _ => refines_i64.bind fun _ =>
          refines_nullableStringBytes.bind fun _ => Refines.pure _

theorem refines_offsetFetch : Refines decodeOffsetFetch Wire.decodeOffsetFetch :=
  refines_stringBytes.bind fun _ => refines_arrayLen.bind fun _ => Refines.reject fun _ =>
    refines_stringBytes.bind fun _ => refines_arrayLen.bind fun _ => Refines.reject fun _ =>
      refines_i32.bind fun _ => Refines.pure _

theorem refines_metadata : Refines decodeMetadata Wire.decodeMetadata := by
  refine refines_nullableArrayLen.bind_of exact_nullableArrayLen.yields fun count hcount => ?_
  rcases count with _ | count
  · exact Refines.pure _
  · exact (refines_items refines_nonEmptyString (by decide) (hcount count rfl)).bind fun _ =>
      Refines.pure _

/-- A produced partition is decoded as the parser does it, its record set included. -/
theorem refines_producePartition : Refines producePartition Wire.producePartition :=
  refines_i32.bind fun _ => refines_requiredBytes.bind_of yields_requiredBytes fun _ hfits =>
    (Refines.lift (decodeRecordBatchesWithIdentity_answers hfits)).bind fun _ =>
      Refines.reject fun _ => Refines.pure _

theorem refines_produce : Refines decodeProduce Wire.decodeProduce :=
  refines_nullableStringBytes.bind fun _ => refines_i16.bind fun _ => refines_i32.bind fun _ =>
    (refines_array (refines_topic refines_producePartition (by decide)) (by decide)).bind
      fun _ => Refines.pure _

theorem refines_fetch : Refines decodeFetch Wire.decodeFetch := by
  have hpartition : Refines fetchPartition Wire.fetchPartition :=
    refines_i32.bind fun _ => refines_i64.bind fun _ => refines_i32.bind fun _ =>
      Refines.reject fun _ => Refines.pure _
  exact refines_i32.bind fun _ => refines_i32.bind fun _ => refines_i32.bind fun _ =>
    refines_i32.bind fun _ => Refines.reject fun _ => refines_flag.bind fun _ =>
      (refines_array (refines_topic hpartition (by decide)) (by decide)).bind fun _ =>
        Refines.pure _

theorem refines_listOffsets : Refines decodeListOffsets Wire.decodeListOffsets := by
  have hpartition : Refines listOffsetsPartition Wire.listOffsetsPartition :=
    refines_i32.bind fun _ => refines_i64.bind fun _ => Refines.pure _
  exact refines_i32.bind fun _ =>
    (refines_array (refines_topic hpartition (by decide)) (by decide)).bind fun _ => Refines.pure _

/-- A body of any kind is decoded as the parser does it. -/
theorem refines_body (api : Api) : Refines (decodeBody api) (Wire.decodeBody api) := by
  cases api with
  | apiVersions => exact Refines.pure _
  | findCoordinator => exact refines_findCoordinator
  | initProducerId => exact refines_initProducerId
  | addPartitionsToTxn => exact refines_addPartitionsToTxn
  | endTxn => exact refines_endTxn
  | joinGroup => exact refines_joinGroup
  | syncGroup => exact refines_syncGroup
  | heartbeat => exact refines_heartbeat
  | leaveGroup => exact refines_leaveGroup
  | offsetCommit => exact refines_offsetCommit
  | offsetFetch => exact refines_offsetFetch
  | metadata => exact refines_metadata
  | produce => exact refines_produce
  | fetch => exact refines_fetch
  | listOffsets => exact refines_listOffsets

theorem refines_requestFields : Refines requestFields Wire.requestFields := by
  refine refines_i16.bind fun apiKey => refines_i16.bind fun apiVersion =>
    refines_i32.bind fun _ => refines_nullableStringBytes.bind fun _ => Refines.reject fun _ => ?_
  rcases Api.find? apiKey apiVersion with _ | api
  · exact Refines.fail _
  · exact (refines_body api).bind fun _ => Refines.pure _

/-! ## Frames -/

theorem decodeRequest_answers (frame : Bytes) :
    decodeRequest frame = Checked.answer (Wire.decodeRequest frame) := by
  unfold decodeRequest Wire.decodeRequest
  by_cases hshort : frame.length < 4
  · have hrun : Wire.Decoder.i32.run frame = .error .incomplete := by
      rw [i32_eq_take]
      exact run_take_bind_short (n := 0) (fun _ _ h => absurd h (Nat.not_lt_zero _)) hshort
    rw [hrun, Checked.reject, if_pos hshort]
    rfl
  · have hhead : (frame.take 4).length = 4 := List.length_take_of_le (by omega)
    rw [run_i32_take (by omega), Checked.reject, if_neg hshort,
      Checked.slice_of_le (Nat.zero_le 4) (by omega), Checked.sliceFrom_of_le (by omega)]
    simp only [pure_bind, List.drop_zero, Checked.toArray_of_length hhead]
    generalize Int32.ofBitVec (BitVec.ofNat 32 (beValue (frame.take 4))) = declared
    have hsize := i32_toNat_lt declared
    refine Checked.reject_answers fun _ => Checked.reject_answers fun _ => ?_
    rw [Checked.add_of_lt (by omega), pure_bind]
    refine Checked.reject_answers fun hlen => refines_requestFields.whole .invalid ?_
    rw [List.length_drop]
    omega

/-- An `i16` is two bytes taken together. -/
theorem i16_eq_take : Wire.Decoder.i16 =
    Wire.Decoder.take 2 >>= fun field =>
      pure (Int16.ofBitVec (BitVec.ofNat 16 (beValue field))) :=
  bits_bind_eq_take _ 2 Int16.ofBitVec

/-- The header's fields at their places. -/
def headerOf (apiKey apiVersion correlationId : Bytes) : Header :=
  ⟨Int16.ofBitVec (BitVec.ofNat 16 (beValue apiKey)),
    Int16.ofBitVec (BitVec.ofNat 16 (beValue apiVersion)),
    Int32.ofBitVec (BitVec.ofNat 32 (beValue correlationId)), none⟩

/-- The header as four strings of bytes. -/
def headerFields : Wire.Decoder Header := do
  let _declared ← Wire.Decoder.take 4
  let apiKey ← Wire.Decoder.take 2
  let apiVersion ← Wire.Decoder.take 2
  let correlationId ← Wire.Decoder.take 4
  return headerOf apiKey apiVersion correlationId

/-- A header is peeked at by reading it. -/
theorem peekHeader_eq (frame : Bytes) : Wire.peekHeader frame = do
    let (header, _) ← headerFields.run frame
    return header := by
  unfold Wire.peekHeader headerFields headerOf
  simp only [i16_eq_take, i32_eq_take, bind_assoc, pure_bind]

/-- Below twelve bytes there is no header. -/
theorem run_headerFields_short {frame : Bytes} (h : frame.length < 12) :
    headerFields.run frame = .error .incomplete :=
  run_take_bind_short (n := 8) (fun _ _ h => run_take_bind_short (n := 6) (fun _ _ h =>
    run_take_bind_short (n := 4) (fun _ _ h => run_take_bind_short (n := 0) (fun _ _ h =>
      absurd h (Nat.not_lt_zero _)) h) h) h) h

/-- From twelve bytes on the header is at fixed places. -/
theorem run_headerFields {frame : Bytes} (h : 12 ≤ frame.length) :
    headerFields.run frame = .ok (headerOf ((frame.take 6).drop 4) ((frame.take 8).drop 6)
      ((frame.take 12).drop 8), frame.drop 12) := by
  have hdeclared : (Wire.Decoder.take 4).run frame = .ok (frame.take 4, frame.drop 4) :=
    if_pos (by omega)
  have hkey : (Wire.Decoder.take 2).run (frame.drop 4) =
      .ok ((frame.take 6).drop 4, frame.drop 6) := run_take_drop _ (by omega)
  have hversion : (Wire.Decoder.take 2).run (frame.drop 6) =
      .ok ((frame.take 8).drop 6, frame.drop 8) := run_take_drop _ (by omega)
  have hid : (Wire.Decoder.take 4).run (frame.drop 8) =
      .ok ((frame.take 12).drop 8, frame.drop 12) := run_take_drop _ (by omega)
  unfold headerFields
  rw [Parser.run_bind_of_ok hdeclared, Parser.run_bind_of_ok hkey,
    Parser.run_bind_of_ok hversion, Parser.run_bind_of_ok hid]
  rfl

/-- Peeking at a header comes to the parser's answer. -/
theorem peekHeader_answers (frame : Bytes) :
    peekHeader frame = Checked.answer (Wire.peekHeader frame) := by
  unfold peekHeader
  rw [peekHeader_eq]
  by_cases hshort : frame.length < 12
  · rw [run_headerFields_short hshort, Checked.reject, if_pos hshort]
    rfl
  · have hkey : ((frame.take 6).drop 4).length = 2 := by
      rw [List.length_drop, List.length_take_of_le (by omega)]
    have hversion : ((frame.take 8).drop 6).length = 2 := by
      rw [List.length_drop, List.length_take_of_le (by omega)]
    have hid : ((frame.take 12).drop 8).length = 4 := by
      rw [List.length_drop, List.length_take_of_le (by omega)]
    rw [run_headerFields (by omega), Checked.reject, if_neg hshort,
      Checked.slice_of_le (by decide) (show 6 ≤ frame.length by omega),
      Checked.slice_of_le (by decide) (show 8 ≤ frame.length by omega),
      Checked.slice_of_le (by decide) (show 12 ≤ frame.length by omega)]
    simp only [pure_bind, Checked.toArray_of_length hkey, Checked.toArray_of_length hversion,
      Checked.toArray_of_length hid]
    rfl

/-! ## Every slice -/

/-- **Hostile bytes are answered.** For every slice, the request decoder, the header reader and the
record set decoder come to an end without a panic, with the result of their parsers; and every step
of the two loops over a record set moves the cursor on inside its slice. -/
theorem decode_answers (bytes : Slice) :
    decodeRequest bytes.val = Checked.answer (Wire.decodeRequest bytes.val) ∧
      peekHeader bytes.val = Checked.answer (Wire.peekHeader bytes.val) ∧
      decodeRecordBatchesWithIdentity bytes.val =
        Checked.answer (Wire.decodeRecordBatchesWithIdentity bytes.val) ∧
      (∀ seen, Advances (nextBatch seen)) ∧ ∀ records, Advances (nextLegacy records) := by
  refine ⟨decodeRequest_answers bytes.val, peekHeader_answers bytes.val,
    decodeRecordBatchesWithIdentity_answers bytes.property, fun seen => ?_, fun records => ?_⟩
  · exact (refines_nextBatch seen).advances (consumes_nextBatch seen)
  · exact (refines_nextLegacy records).advances (consumes_readLegacyMessage.bind_pure _)

end CharlotteBroker.Wire.Hostile
