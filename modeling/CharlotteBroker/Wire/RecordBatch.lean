import CharlotteBroker.Core.Log
import CharlotteBroker.Wire.Codec

/-!
# Record batches

Record batch v2 encoding and decoding and the legacy message sets (`record_batch.rs`).

* `encodeRecordBatch` writes stored records as one batch: the header, the checksum of what follows
  it, and the records, each framed by its length, with deltas against the base offset and the first
  timestamp. `encodeRecordBatch_eq_ok` says when it succeeds and what it writes.
* `decodeRecordBatchesWithIdentity` reads a record set, one batch after another (`readBatches`).
  A record as it stands in a batch is an `EncodedRecord`; the decoder keeps its timestamp, key and
  value and drops the offset delta, since the broker assigns offsets.
* `encodeRecordBatch_roundTrip`: decoding an encoded batch gives the records back, and the deltas
  stored in it are those of the records' offsets.

Nested slices are parsed on their own (`Parser.whole`): a record's body and a batch's body must be
read to their end.
-/

namespace CharlotteBroker.Wire

open Lib Lib.Parser Lib.Printer CharlotteBroker.Core

variable {baseOffset : Int} {records : List Record}

/-! ## Checksums -/

/-- One bit of the checksum. Source: `record_batch.rs`, the inner loop of `crc32c`. Kind: D -/
def crcBit (polynomial crc : UInt32) : UInt32 :=
  if crc &&& 1 ≠ 0 then (crc >>> 1) ^^^ polynomial else crc >>> 1

/-- A reflected 32-bit checksum. Source: `record_batch.rs`, `crc32c` and `crc32_ieee`. Kind: D -/
def crc32 (polynomial : UInt32) (bytes : Bytes) : UInt32 :=
  ~~~ bytes.foldl (fun crc byte => Nat.repeat (crcBit polynomial) 8 (crc ^^^ byte.toUInt32)) (~~~ 0)

/-- CRC32C (Castagnoli), as required by record batch v2.
Source: `record_batch.rs`, `crc32c`. Kind: D -/
def crc32c : Bytes → UInt32 := crc32 0x82f63b78

/-- CRC32 (IEEE), used by legacy message sets.
Source: `record_batch.rs`, `crc32_ieee`. Kind: D -/
def crc32Ieee : Bytes → UInt32 := crc32 0xedb88320

/-- The known vector of the source's tests, the digits `123456789`. -/
example : crc32c ((List.range 9).map fun i => UInt8.ofNat (0x31 + i)) = 0xe3069283 := by
  decide +kernel

/-! ## Saturating timestamps -/

/-- The nearest `i64`. -/
def saturate (value : Int) : Int64 := Int64.ofInt (max (-2 ^ 63) (min value (2 ^ 63 - 1)))

/-- `i64::saturating_add`. -/
def saturatingAdd (a b : Int64) : Int64 := saturate (a.toInt + b.toInt)

/-- `i64::saturating_sub`. -/
def saturatingSub (a b : Int64) : Int64 := saturate (a.toInt - b.toInt)

/-- Saturation does nothing to a number that fits. -/
theorem toInt_saturate {value : Int} (hmin : -2 ^ 63 ≤ value) (hmax : value < 2 ^ 63) :
    (saturate value).toInt = value := by
  rw [saturate, min_eq_left (by omega), max_eq_right hmin]
  exact Int64.toInt_ofInt_of_le hmin hmax

/-- A difference that fits is undone by adding it. -/
theorem saturatingAdd_saturatingSub {a b : Int64} (hmin : -2 ^ 63 ≤ a.toInt - b.toInt)
    (hmax : a.toInt - b.toInt < 2 ^ 63) : saturatingAdd b (saturatingSub a b) = a := by
  have ha := a.le_toInt
  have ha' := a.toInt_lt
  have hsum : b.toInt + (a.toInt - b.toInt) = a.toInt := by omega
  rw [← Int64.toInt_inj, saturatingAdd, saturatingSub, toInt_saturate hmin hmax, hsum,
    toInt_saturate ha ha']

/-- A difference is undone by adding it exactly if it fits. One that is cut off at an end of the
range leads to a sum strictly between the two numbers. -/
theorem saturatingAdd_saturatingSub_iff (a b : Int64) :
    saturatingAdd b (saturatingSub a b) = a ↔
      -2 ^ 63 ≤ a.toInt - b.toInt ∧ a.toInt - b.toInt < 2 ^ 63 := by
  refine ⟨fun h => ?_, fun h => saturatingAdd_saturatingSub h.1 h.2⟩
  have ha := a.le_toInt
  have ha' := a.toInt_lt
  have hb := b.le_toInt
  have hb' := b.toInt_lt
  rw [← Int64.toInt_inj, saturatingAdd] at h
  by_contra hfits
  rcases Int.lt_or_le (a.toInt - b.toInt) (-2 ^ 63) with hlow | hlow
  · have hcut : (saturatingSub a b).toInt = -2 ^ 63 := by
      rw [saturatingSub, saturate, min_eq_left (by omega), max_eq_left (by omega)]
      rfl
    rw [hcut, toInt_saturate (by omega) (by omega)] at h
    omega
  · have hhigh : 2 ^ 63 ≤ a.toInt - b.toInt := by
      by_contra hlt
      exact hfits ⟨hlow, by omega⟩
    have hcut : (saturatingSub a b).toInt = 2 ^ 63 - 1 := by
      rw [saturatingSub, saturate, min_eq_right (by omega), max_eq_right (by omega)]
      rfl
    rw [hcut, toInt_saturate (by omega) (by omega)] at h
    omega

/-! ## Encoding -/

/-- Source: `record_batch.rs`, `write_optional_bytes`. Kind: D -/
def writeOptionalBytes : Option Bytes → Encoder Unit
  | some value => do
      refuse (2 ^ 31 - 1 < value.length) .tooLarge
      put (putVarint (Int32.ofNat value.length))
      put value
  | none => put (putVarint (-1))

/-- The body of one record of a batch.
Source: `record_batch.rs`, `encode_record_batch` (the loop over the records). Kind: D -/
def encodeRecordBody (baseOffset : Int) (firstTimestamp : Int64) (record : Record) :
    Encoder Unit := do
  put [0]
  put (putVarlong (saturatingSub record.timestampMs firstTimestamp))
  put (putVarint (Int32.ofInt (record.offset - baseOffset)))
  writeOptionalBytes record.key
  writeOptionalBytes record.value
  put (putVarint 0)

/-- One record of a batch, framed by the length of its body.
Source: `record_batch.rs`, `encode_record_batch` (the loop over the records). Kind: D -/
def encodeRecord (baseOffset : Int) (firstTimestamp : Int64) (record : Record) : Encoder Unit :=
  nested (encodeRecordBody baseOffset firstTimestamp record) fun body => do
    put (putVarint (Int32.ofNat body.length))
    put body

/-- The part of a batch its checksum covers.
Source: `record_batch.rs`, `encode_record_batch` (`body[9..]`). Kind: D -/
def coveredBytes (firstTimestamp maxTimestamp : Int64) (count : ℕ) (encodedRecords : Bytes) :
    Bytes :=
  i16Bytes 0 ++ i32Bytes (Int32.ofNat (count - 1)) ++ i64Bytes firstTimestamp ++
    i64Bytes maxTimestamp ++ i64Bytes (-1) ++ i16Bytes (-1) ++ i32Bytes (-1) ++
    i32Bytes (Int32.ofNat count) ++ encodedRecords

/-- The batch after its length field.
Source: `record_batch.rs`, `encode_record_batch` (the second `body`). Kind: D -/
def batchBody (crc : UInt32) (covered : Bytes) : Bytes :=
  i32Bytes (-1) ++ [2] ++ u32Bytes crc ++ covered

/-- Encodes stored records as one record batch v2. The checksum is written over a placeholder.
Source: `record_batch.rs`, `encode_record_batch`. Kind: D -/
def encodeRecordBatch (baseOffset : Int) (records : List Record) : Except Error Bytes :=
  match records with
  | [] => .error .invalid
  | first :: _ =>
      if maxRecords < records.length then .error .invalid
      else do
        let ((), encodedRecords) ←
          (each records (encodeRecord baseOffset first.timestampMs)).run []
        let maxTimestamp := (records.map Record.timestampMs).max?.getD first.timestampMs
        let body := batchBody 0
          (coveredBytes first.timestampMs maxTimestamp records.length encodedRecords)
        let body := body.take 5 ++ u32Bytes (crc32c (body.drop 9)) ++ body.drop 9
        let batch := i64Bytes (Int64.ofInt baseOffset) ++ i32Bytes (Int32.ofNat body.length) ++ body
        if maxFrameLen < batch.length then .error .tooLarge else return batch

/-! ## Decoding -/

/-- Records decoded from a produce request and their optional producer identity.
Source: `record_batch.rs`, `DecodedRecordBatch`. Kind: D -/
structure DecodedRecordBatch where
  records : List RecordData
  producer : Option (Int64 × Int16)
  deriving DecidableEq, Repr

/-- A record as it stands in a batch. -/
structure EncodedRecord where
  timestampDelta : Int64
  offsetDelta : Int32
  key : Option Bytes
  value : Option Bytes
  deriving DecidableEq, Repr

/-- A batch as it stands in a record set, with the producer identity seen so far. -/
structure EncodedBatch where
  identity : Option (Int64 × Int16)
  firstTimestamp : Int64
  records : List EncodedRecord
  deriving DecidableEq, Repr

/-- Source: `record_batch.rs`, `read_optional_bytes`. Kind: D -/
def readOptionalBytes (len : Int32) : Decoder (Option Bytes) := do
  if len = -1 then return none
  else if 0 ≤ len then return some (← Decoder.take len.toInt.toNat)
  else throw .invalid

/-- Source: `record_batch.rs`, `decode_v2_record_set` (the loop over the headers). Kind: D -/
def skipHeader : Decoder Unit := do
  let keyLen ← readVarint
  reject (keyLen < 0) .invalid
  let _ ← Decoder.take keyLen.toInt.toNat
  let valueLen ← readVarint
  if 0 ≤ valueLen then
    let _ ← Decoder.take valueLen.toInt.toNat
    return ()
  else reject (valueLen ≠ -1) .invalid

/-- The body of a record.
Source: `record_batch.rs`, `decode_v2_record_set` (the loop over the records). Kind: D -/
def recordFields : Decoder EncodedRecord := do
  let _attributes ← Decoder.i8
  let timestampDelta ← readVarlong
  let offsetDelta ← readVarint
  let keyLen ← readVarint
  let key ← readOptionalBytes keyLen
  let valueLen ← readVarint
  let value ← readOptionalBytes valueLen
  let headers ← readVarint
  reject (headers < 0 ∨ maxArrayLen < headers.toInt.toNat) .invalid
  let _ ← many skipHeader headers.toInt.toNat
  return ⟨timestampDelta, offsetDelta, key, value⟩

/-- A record framed by its length.
Source: `record_batch.rs`, `decode_v2_record_set` (the loop over the records). Kind: D -/
def framedRecord : Decoder EncodedRecord := do
  let len ← readVarint
  reject (len < 0) .invalid
  let body ← Decoder.take len.toInt.toNat
  Parser.ofExcept (whole .invalid recordFields body)

/-- The identity after a batch: every transactional batch of a set must carry the same.
Source: `record_batch.rs`, `decode_v2_record_set`. Kind: D -/
def nextIdentity (attributes : Int16) (next : Int64 × Int16) (identity : Option (Int64 × Int16)) :
    Except Error (Option (Int64 × Int16)) :=
  if attributes &&& 0x10 ≠ 0 then
    if identity.any (· ≠ next) then .error .invalid else .ok (some next)
  else .ok identity

/-- The body of a batch.
Source: `record_batch.rs`, `decode_v2_record_set` (the loop over the batches). Kind: D -/
def batchFields (identity : Option (Int64 × Int16)) (batch : Bytes) : Decoder EncodedBatch := do
  let _partitionLeaderEpoch ← Decoder.i32
  let magic ← Decoder.i8
  reject (magic ≠ 2) .unsupportedVersion
  let expectedCrc ← Decoder.i32
  reject (crc32c (batch.drop 9) ≠ expectedCrc.toUInt32) .checksum
  let attributes ← Decoder.i16
  reject (attributes &&& 0x07 ≠ 0 ∨ attributes &&& 0x20 ≠ 0) .unsupportedVersion
  let _lastOffsetDelta ← Decoder.i32
  let firstTimestamp ← Decoder.i64
  let _maxTimestamp ← Decoder.i64
  let producerId ← Decoder.i64
  let producerEpoch ← Decoder.i16
  let _baseSequence ← Decoder.i32
  let count ← Decoder.i32
  reject (count < 0 ∨ maxRecords < count.toInt.toNat) .tooLarge
  let identity ← Parser.ofExcept (nextIdentity attributes (producerId, producerEpoch) identity)
  let records ← many framedRecord count.toInt.toNat
  return ⟨identity, firstTimestamp, records⟩

/-- One batch of a record set.
Source: `record_batch.rs`, `decode_v2_record_set` (the loop over the batches). Kind: D -/
def readBatch (identity : Option (Int64 × Int16)) : Decoder EncodedBatch := do
  let remaining ← get
  reject (remaining.length < 12) .incomplete
  let _baseOffset ← Decoder.i64
  let batchLen ← Decoder.i32
  reject (batchLen < 49) .invalid
  let batch ← Decoder.take batchLen.toInt.toNat
  Parser.ofExcept (whole .invalid (batchFields identity batch) batch)

/-- The batches seen so far and the identity they carry, with one more. -/
def nextBatch (seen : List EncodedBatch × Option (Int64 × Int16)) :
    Decoder (List EncodedBatch × Option (Int64 × Int16)) := do
  let batch ← readBatch seen.2
  return (seen.1 ++ [batch], batch.identity)

/-- The batches of a record set, with the identity they carry.
Source: `record_batch.rs`, `decode_v2_record_set` (the loop over the batches). Kind: D -/
def readBatches (bytes : Bytes) :
    Except Error ((List EncodedBatch × Option (Int64 × Int16)) × Bytes) :=
  (whileMore nextBatch ([], none)).run bytes

/-- The records of a batch, with absolute timestamps. -/
def EncodedBatch.data (batch : EncodedBatch) : List RecordData :=
  batch.records.map fun record =>
    ⟨saturatingAdd batch.firstTimestamp record.timestampDelta, record.key, record.value⟩

/-- Source: `record_batch.rs`, `decode_v2_record_set`. Kind: D -/
def decodeV2RecordSet (bytes : Bytes) : Except Error DecodedRecordBatch :=
  if bytes.isEmpty then .error .invalid
  else do
    let ((batches, identity), _) ← readBatches bytes
    return ⟨batches.flatMap EncodedBatch.data, identity⟩

/-- Source: `record_batch.rs`, `legacy_optional_bytes`. Kind: D -/
def legacyOptionalBytes : Decoder (Option Bytes) := do
  let length ← Decoder.i32
  if length = -1 then return none
  else
    reject (length < 0) .invalid
    return some (← Decoder.take length.toInt.toNat)

/-- The fields at the cursor.
Source: `record_batch.rs`, `decode_legacy_message_set` (the loop). Kind: D -/
def legacyRecord (magic : UInt8) : Decoder RecordData := do
  let timestampMs ← if magic = 1 then Decoder.i64 else pure 0
  let key ← legacyOptionalBytes
  let value ← legacyOptionalBytes
  return ⟨timestampMs, key, value⟩

/-- A legacy message. Its length has been checked to cover the six bytes before the cursor.
Source: `record_batch.rs`, `decode_legacy_message_set` (the loop). Kind: D -/
def legacyFields (message : Bytes) : Decoder RecordData := do
  let expectedCrc ← Decoder.i32
  reject (crc32Ieee (message.drop 4) ≠ expectedCrc.toUInt32) .checksum
  let magic ← Parser.byte .incomplete
  reject (1 < magic) .unsupportedVersion
  let attributes ← Parser.byte .incomplete
  reject (attributes &&& 0x07 ≠ 0) .unsupportedVersion
  legacyRecord magic

/-- Source: `record_batch.rs`, `decode_legacy_message_set` (the loop). Kind: D -/
def readLegacyMessage : Decoder RecordData := do
  let _offset ← Decoder.i64
  let messageSize ← Decoder.i32
  reject (messageSize < 14) .invalid
  let message ← Decoder.take messageSize.toInt.toNat
  Parser.ofExcept (whole .invalid (legacyFields message) message)

/-- Source: `record_batch.rs`, `decode_legacy_message_set`. Kind: D -/
def decodeLegacyMessageSet (bytes : Bytes) : Except Error (List RecordData) := do
  let (records, _) ←
    (whileMore
      (fun records => do
        let record ← readLegacyMessage
        return records ++ [record])
      []).run bytes
  return records

/-- The format is detected by the magic byte, at offset 16 in both layouts.
Source: `record_batch.rs`, `decode_record_batches_with_identity`. Kind: D -/
def decodeRecordBatchesWithIdentity (bytes : Bytes) : Except Error DecodedRecordBatch :=
  if bytes.isEmpty then .error .invalid
  else match (bytes[16]? : Option UInt8) with
    | some 2 => decodeV2RecordSet bytes
    | some 0 | some 1 => do
        let records ← decodeLegacyMessageSet bytes
        return ⟨records, none⟩
    | _ => .error .unsupportedVersion

/-- Source: `record_batch.rs`, `decode_record_batches`. Kind: D -/
def decodeRecordBatches (bytes : Bytes) : Except Error (List RecordData) := do
  let decoded ← decodeRecordBatchesWithIdentity bytes
  return decoded.records

/-- The offset deltas stored in the records of a set, which decoding drops. -/
def storedOffsetDeltas (bytes : Bytes) : Except Error (List Int32) := do
  let ((batches, _), _) ← readBatches bytes
  return batches.flatMap fun batch => batch.records.map EncodedRecord.offsetDelta

/-! ## What is written -/

/-- The length field of an optional byte string. -/
def optionalLen : Option Bytes → Int32
  | some value => Int32.ofNat value.length
  | none => -1

/-- A value whose length fits an `i32`. -/
def Writable (field : Option Bytes) : Prop := ∀ value, field = some value → value.length < 2 ^ 31

/-- Null can be written. -/
theorem writable_none : Writable none := by
  intro value h
  cases h

/-- The body of a record. -/
def recordBody (baseOffset : Int) (firstTimestamp : Int64) (record : Record) : Bytes :=
  [0] ++ (putVarlong (saturatingSub record.timestampMs firstTimestamp) ++
    (putVarint (Int32.ofInt (record.offset - baseOffset)) ++
      ((putVarint (optionalLen record.key) ++ record.key.getD []) ++
        ((putVarint (optionalLen record.value) ++ record.value.getD []) ++ putVarint 0))))

/-- A record framed by its length. -/
def recordField (baseOffset : Int) (firstTimestamp : Int64) (record : Record) : Bytes :=
  putVarint (Int32.ofNat (recordBody baseOffset firstTimestamp record).length) ++
    recordBody baseOffset firstTimestamp record

/-- The timestamp the deltas are against. -/
def firstTimestamp (records : List Record) : Int64 :=
  (records.head?.map Record.timestampMs).getD 0

/-- The checksummed part of the batch of these records. -/
def recordsCovered (baseOffset : Int) (records : List Record) : Bytes :=
  coveredBytes (firstTimestamp records)
    ((records.map Record.timestampMs).max?.getD (firstTimestamp records)) records.length
    (records.flatMap (recordField baseOffset (firstTimestamp records)))

/-- The batch of these records after its length field. -/
def recordsBody (baseOffset : Int) (records : List Record) : Bytes :=
  batchBody (crc32c (recordsCovered baseOffset records)) (recordsCovered baseOffset records)

/-- The batch of these records. -/
def batchBytes (baseOffset : Int) (records : List Record) : Bytes :=
  i64Bytes (Int64.ofInt baseOffset) ++
    i32Bytes (Int32.ofNat (recordsBody baseOffset records).length) ++ recordsBody baseOffset records

/-- A key or a value is written behind its length, if that is an `i32`. -/
theorem prints_optionalBytes (field : Option Bytes) :
    Prints (writeOptionalBytes field) (Writable field)
      (putVarint (optionalLen field) ++ field.getD []) := by
  rcases field with _ | value
  · refine (Prints.put _).congr ?_ (List.append_nil _).symm
    exact ⟨fun _ => writable_none, fun _ => trivial⟩
  · refine ((Prints.refuse _).seq ((Prints.put _).andThen (Prints.put value))).congr ?_ rfl
    rw [and_true, Nat.not_lt]
    refine ⟨?_, fun h => Nat.le_sub_one_of_lt (h value rfl)⟩
    rintro h _ ⟨⟩
    omega

/-- A record body is written if its key and value are. -/
theorem prints_recordBody (baseOffset : Int) (firstTimestamp : Int64) (record : Record) :
    Prints (encodeRecordBody baseOffset firstTimestamp record)
      (Writable record.key ∧ Writable record.value)
      (recordBody baseOffset firstTimestamp record) := by
  unfold encodeRecordBody
  refine (Prints.put [0]).andThen ((Prints.put _).andThen ((Prints.put _).andThen ?_))
  refine (prints_optionalBytes record.key).seq ?_
  exact ((prints_optionalBytes record.value).seq (Prints.put _)).congr (by rw [and_true]) rfl

/-- A framed record is written if its key and value are. -/
theorem prints_record (baseOffset : Int) (firstTimestamp : Int64) (record : Record) :
    Prints (encodeRecord baseOffset firstTimestamp record)
      (Writable record.key ∧ Writable record.value)
      (recordField baseOffset firstTimestamp record) := by
  have hbody := prints_recordBody baseOffset firstTimestamp record
  have hframed : Prints (encodeRecord baseOffset firstTimestamp record) _ _ :=
    hbody.nested ((Prints.put _).andThen (Prints.put _))
  exact hframed.congr (by rw [and_true]) rfl

/-- What the checksum covers begins after nine bytes. -/
theorem drop_batchBody (crc : UInt32) (covered : Bytes) :
    (batchBody crc covered).drop 9 = covered := by
  unfold batchBody
  exact List.drop_left' (by simp)

/-- Before the checksum stand the leader epoch and the magic byte. -/
theorem take_batchBody (crc : UInt32) (covered : Bytes) :
    (batchBody crc covered).take 5 = i32Bytes (-1) ++ [2] := by
  unfold batchBody
  rw [List.append_assoc]
  exact List.take_left' (by simp)

/-- Epoch, magic byte and checksum take nine bytes. -/
@[simp] theorem length_batchBody (crc : UInt32) (covered : Bytes) :
    (batchBody crc covered).length = 9 + covered.length := by
  simp only [batchBody, List.length_append, length_i32Bytes, length_u32Bytes, List.length_cons,
    List.length_nil]

/-- The header fields behind the length take 49 bytes. -/
theorem length_recordsBody (baseOffset : Int) (records : List Record) :
    (recordsBody baseOffset records).length =
      49 + (records.flatMap (recordField baseOffset (firstTimestamp records))).length := by
  simp only [recordsBody, length_batchBody, recordsCovered, coveredBytes, List.length_append,
    length_i16Bytes, length_i32Bytes, length_i64Bytes]
  omega

/-- The size of a batch: a header of 61 bytes and the framed records. -/
theorem length_batchBytes (baseOffset : Int) (records : List Record) :
    (batchBytes baseOffset records).length =
      61 + (records.flatMap (recordField baseOffset (firstTimestamp records))).length := by
  rw [batchBytes, List.length_append, List.length_append, length_i64Bytes, length_i32Bytes,
    length_recordsBody]
  omega

/-- Key and value are no longer than the record they are in. -/
theorem length_getD_le_recordField {baseOffset : Int} {firstTimestamp : Int64} {record : Record} :
    (record.key.getD []).length ≤ (recordField baseOffset firstTimestamp record).length ∧
      (record.value.getD []).length ≤ (recordField baseOffset firstTimestamp record).length := by
  simp only [recordField, recordBody, List.length_append]
  omega

/-- A record whose framing fits is written. -/
theorem writable_of_length {firstTimestamp : Int64} {record : Record}
    (h : (recordField baseOffset firstTimestamp record).length < 2 ^ 31) :
    Writable record.key ∧ Writable record.value := by
  obtain ⟨hkey, hvalue⟩ := @length_getD_le_recordField baseOffset firstTimestamp record
  constructor
  · intro key heq
    rw [heq, Option.getD_some] at hkey
    omega
  · intro value heq
    rw [heq, Option.getD_some] at hvalue
    omega

/-- A record is no longer than all records together. -/
theorem length_recordField_le {baseOffset : Int} {firstTimestamp : Int64} {records : List Record}
    {record : Record} (h : record ∈ records) :
    (recordField baseOffset firstTimestamp record).length ≤
      (records.flatMap (recordField baseOffset firstTimestamp)).length := by
  obtain ⟨before, after, rfl⟩ := List.append_of_mem h
  simp only [List.flatMap_append, List.flatMap_cons, List.length_append]
  omega

/-- **Encoding** succeeds on a non-empty list of records whose batch fits a frame. -/
theorem encodeRecordBatch_eq_ok {bytes : Bytes} :
    encodeRecordBatch baseOffset records = .ok bytes ↔
      records ≠ [] ∧ records.length ≤ maxRecords ∧
        (batchBytes baseOffset records).length ≤ maxFrameLen ∧
        bytes = batchBytes baseOffset records := by
  rcases records with _ | ⟨first, others⟩
  · simp [encodeRecordBatch]
  · have hprints := Prints.each (prints_record baseOffset first.timestampMs) (first :: others)
    unfold encodeRecordBatch
    by_cases hlen : maxRecords < (first :: others).length
    · simp only [hlen, if_true, reduceCtorEq, false_iff]
      rintro ⟨-, hle, -⟩
      omega
    · simp only [hlen, if_false]
      rcases hrun : (each (first :: others) (encodeRecord baseOffset first.timestampMs)).run []
        with error | r
      · -- a record that is not writable alone makes the batch too long
        simp only [bind, Except.bind, reduceCtorEq, false_iff]
        rintro ⟨-, -, hfits, -⟩
        rw [length_batchBytes] at hfits
        have hwritable : ∀ record ∈ first :: others,
            Writable record.key ∧ Writable record.value := by
          intro record hrecord
          have hle := @length_recordField_le baseOffset first.timestampMs _ _ hrecord
          have hsum := hle.trans (Nat.le_of_add_left_le hfits)
          exact writable_of_length (Nat.lt_of_le_of_lt hsum (by decide))
        rw [(hprints [] _).mpr ⟨hwritable, rfl⟩] at hrun
        cases hrun
      · obtain ⟨-, rfl⟩ := (hprints [] r).mp hrun
        simp only [bind, Except.bind, take_batchBody, drop_batchBody]
        change (if maxFrameLen < (batchBytes baseOffset (first :: others)).length then
          Except.error Error.tooLarge else .ok (batchBytes baseOffset (first :: others))) = _ ↔ _
        by_cases hfits : maxFrameLen < (batchBytes baseOffset (first :: others)).length
        · simp only [hfits, if_true, reduceCtorEq, false_iff]
          rintro ⟨-, -, hle, -⟩
          omega
        · simp only [hfits, if_false, Except.ok.injEq]
          refine ⟨fun h => ⟨List.cons_ne_nil _ _, by omega, by omega, h.symm⟩, ?_⟩
          rintro ⟨-, -, -, rfl⟩
          rfl

/-- Otherwise the batch, or a field of it, is too large. -/
theorem encodeRecordBatch_error {x : Error} (hne : records ≠ [])
    (hlen : records.length ≤ maxRecords) (h : encodeRecordBatch baseOffset records = .error x) :
    x = .tooLarge := by
  obtain ⟨first, others, rfl⟩ := List.exists_cons_of_ne_nil hne
  have hfield : ∀ field, FailsOnly (writeOptionalBytes field) Error.tooLarge := by
    rintro (_ | value)
    · exact FailsOnly.put _
    · exact FailsOnly.refuse.seq fun _ => (FailsOnly.put _).seq fun _ => FailsOnly.put _
  have hrecord : ∀ record, FailsOnly (encodeRecord baseOffset first.timestampMs record)
      Error.tooLarge := by
    intro record
    refine FailsOnly.nested ?_ fun _ => (FailsOnly.put _).seq fun _ => FailsOnly.put _
    refine (FailsOnly.put _).seq fun _ => (FailsOnly.put _).seq fun _ => (FailsOnly.put _).seq ?_
    exact fun _ => (hfield _).seq fun _ => (hfield _).seq fun _ => FailsOnly.put _
  unfold encodeRecordBatch at h
  simp only [if_neg (Nat.not_lt.mpr hlen)] at h
  rcases hrun : (each (first :: others) (encodeRecord baseOffset first.timestampMs)).run []
    with y | r
  · rw [hrun] at h
    cases h
    exact FailsOnly.each (fun record _ => hrecord record) [] x hrun
  · rw [hrun] at h
    simp only [bind, Except.bind] at h
    split at h
    · cases h
      rfl
    · cases h

/-! ## Reading it back -/

/-- A batch is read exactly if its length frames a body whose fields take all of it. -/
theorem run_readBatch_ok {identity : Option (Int64 × Int16)} {input rest : Bytes}
    {batch : EncodedBatch} :
    (readBatch identity).run input = .ok (batch, rest) ↔
      ∃ (baseOffset : Int64) (body : Bytes), 49 ≤ body.length ∧ body.length < 2 ^ 31 ∧
        whole .invalid (batchFields identity body) body = .ok batch ∧
        input = i64Bytes baseOffset ++ (i32Bytes (Int32.ofNat body.length) ++ (body ++ rest)) := by
  unfold readBatch
  simp only [run_bind_ok, run_get_ok, run_reject_ok, run_i64_ok, run_i32_ok, run_decoderTake_ok,
    run_ofExcept_ok]
  constructor
  · rintro ⟨_, _, ⟨rfl, rfl⟩, -, _, ⟨-, rfl⟩, baseOffset, _, rfl, len, _, rfl, -, _, ⟨hlen, rfl⟩,
      body, _, ⟨hbody, rfl⟩, hwhole, rfl⟩
    obtain ⟨hmin, hmax, rfl⟩ := (i32_size_iff (by decide)).mp ⟨hlen, hbody⟩
    exact ⟨baseOffset, body, Int.ofNat_le.mp hmin, hmax, hwhole, rfl⟩
  · rintro ⟨baseOffset, body, hmin, hmax, hwhole, rfl⟩
    obtain ⟨hlen, hbody⟩ := (@i32_size_iff _ 49 _ (by decide)).mpr
      ⟨Int.ofNat_le.mpr hmin, hmax, rfl⟩
    refine ⟨_, _, ⟨rfl, rfl⟩, (), _, ⟨?_, rfl⟩, baseOffset, _, rfl, _, _, rfl, (), _, ⟨hlen, rfl⟩,
      body, rest, ⟨hbody, rfl⟩, hwhole, rfl⟩
    simp only [List.length_append, length_i64Bytes, length_i32Bytes]
    omega

/-- A batch takes at least a byte, so the loop over batches ends. -/
theorem consumes_readBatch (identity : Option (Int64 × Int16)) : Consumes (readBatch identity) := by
  intro input batch rest h
  obtain ⟨baseOffset, body, -, -, -, rfl⟩ := run_readBatch_ok.mp h
  simp only [List.length_append, length_i64Bytes]
  omega

/-- Every round of the loop over batches takes at least a byte. -/
theorem consumes_nextBatch (seen : List EncodedBatch × Option (Int64 × Int16)) :
    Consumes (nextBatch seen) :=
  (consumes_readBatch seen.2).bind_pure _

/-- Every round of the loop over legacy messages takes at least a byte. -/
theorem consumes_readLegacyMessage : Consumes readLegacyMessage := by
  intro input record rest hrun
  obtain ⟨offset, _, hoffset, hrun⟩ := run_bind_ok.mp hrun
  obtain ⟨size, _, hsize, hrun⟩ := run_bind_ok.mp hrun
  obtain ⟨_, _, hreject, hrun⟩ := run_bind_ok.mp hrun
  obtain ⟨message, _, hmessage, hrun⟩ := run_bind_ok.mp hrun
  obtain ⟨-, rfl⟩ := run_ofExcept_ok.mp hrun
  obtain ⟨-, rfl⟩ := run_take_ok.mp hmessage
  obtain ⟨-, rfl⟩ := run_reject_ok.mp hreject
  rw [run_i64_ok.mp hoffset, run_i32_ok.mp hsize]
  simp only [List.length_append, length_i64Bytes]
  omega

/-- A key or a value is read back behind its length. -/
theorem reads_optionalBytes {field : Option Bytes} (h : Writable field) :
    Reads (readOptionalBytes (optionalLen field)) (field.getD []) field := by
  rcases field with _ | value
  · exact Reads.pure none
  · obtain ⟨hneg, hnull, hval⟩ := i32_ofNat (h value rfl)
    unfold readOptionalBytes optionalLen
    rw [if_neg hnull, if_pos (Int32.not_lt.mp hneg)]
    exact (reads_take hval.symm).map some

/-- What the decoder reads of a record. -/
def encodedRecord (baseOffset : Int) (firstTimestamp : Int64) (record : Record) : EncodedRecord :=
  ⟨saturatingSub record.timestampMs firstTimestamp, Int32.ofInt (record.offset - baseOffset),
    record.key, record.value⟩

/-- A record body is read back, with its deltas. -/
theorem reads_recordFields {baseOffset : Int} {firstTimestamp : Int64} {record : Record}
    (h : Writable record.key ∧ Writable record.value) :
    Reads recordFields (recordBody baseOffset firstTimestamp record)
      (encodedRecord baseOffset firstTimestamp record) := by
  unfold recordFields recordBody
  simp only [List.append_assoc]
  refine (reads_i8 0).bind ((reads_varlong _).bind ((reads_varint _).bind ?_))
  refine (reads_varint _).bind ((reads_optionalBytes h.1).bind ?_)
  refine (reads_varint _).bind ((reads_optionalBytes h.2).bind ?_)
  exact (reads_varint 0).bind_end ((Reads.reject _ (by decide)).bind_nil
    ((Reads.pure []).bind_nil (Reads.pure _)))

/-- A framed record is read back, with its deltas. -/
theorem reads_framedRecord {firstTimestamp : Int64} {record : Record}
    (h : (recordField baseOffset firstTimestamp record).length < 2 ^ 31) :
    Reads framedRecord (recordField baseOffset firstTimestamp record)
      (encodedRecord baseOffset firstTimestamp record) := by
  have hbody : (recordBody baseOffset firstTimestamp record).length < 2 ^ 31 := by
    rw [recordField, List.length_append] at h
    omega
  have hfields := (@reads_recordFields baseOffset firstTimestamp record
    (writable_of_length h)).whole .invalid
  unfold recordField
  generalize recordBody baseOffset firstTimestamp record = body at hbody hfields ⊢
  obtain ⟨hneg, -, hval⟩ := i32_ofNat hbody
  unfold framedRecord
  exact (reads_varint _).bind ((Reads.reject _ hneg).bind_nil
    ((reads_take hval.symm).bind_end (Reads.ofExcept hfields)))

/-- What the decoder reads of a batch. -/
def encodedBatch (baseOffset : Int) (records : List Record) : EncodedBatch :=
  ⟨none, firstTimestamp records, records.map (encodedRecord baseOffset (firstTimestamp records))⟩

/-- A checksum is written the same signed or unsigned. -/
theorem i32Bytes_toInt32 (v : UInt32) : i32Bytes v.toInt32 = u32Bytes v := rfl

/-- The body of a batch, under a checksum that matches the bytes it is checked against. -/
theorem reads_batchFields {batch : Bytes} {crc : UInt32} (hcrc : crc32c (batch.drop 9) = crc)
    (hlen : records.length ≤ maxRecords) (hfits : (batchBytes baseOffset records).length < 2 ^ 31) :
    Reads (batchFields none batch) (batchBody crc (recordsCovered baseOffset records))
      (encodedBatch baseOffset records) := by
  obtain ⟨hneg, -, hval⟩ := i32_ofNat (Nat.lt_of_le_of_lt hlen (by decide))
  have hrecords : Reads (many framedRecord records.length)
      (records.flatMap (recordField baseOffset (firstTimestamp records)))
      (records.map (encodedRecord baseOffset (firstTimestamp records))) := by
    refine Reads.many fun record hrecord => reads_framedRecord ?_
    rw [length_batchBytes] at hfits
    have hle := @length_recordField_le baseOffset (firstTimestamp records) _ _ hrecord
    omega
  have hpass : ¬ crc32c (batch.drop 9) ≠ crc.toInt32.toUInt32 := by
    rw [UInt32.toUInt32_toInt32]
    exact not_not.mpr hcrc
  unfold batchFields batchBody
  rw [← i32Bytes_toInt32]
  simp only [recordsCovered, coveredBytes, List.append_assoc]
  refine (reads_i32 _).bind ((reads_i8 2).bind ((Reads.reject _ (by decide)).bind_nil ?_))
  refine (reads_i32 _).bind ((Reads.reject _ hpass).bind_nil ?_)
  refine (reads_i16 0).bind ((Reads.reject _ (by decide)).bind_nil ?_)
  refine (reads_i32 _).bind ((reads_i64 _).bind ((reads_i64 _).bind ?_))
  refine (reads_i64 _).bind ((reads_i16 _).bind ((reads_i32 _).bind ((reads_i32 _).bind ?_)))
  refine (Reads.reject _ ?_).bind_nil ((Reads.ofExcept rfl).bind_nil ?_)
  · rw [hval]
    exact not_or.mpr ⟨hneg, Nat.not_lt.mpr hlen⟩
  · rw [hval]
    exact hrecords.bind_end (Reads.pure _)

/-- The batches of an encoded batch. -/
theorem readBatches_batchBytes (hlen : records.length ≤ maxRecords)
    (hfits : (batchBytes baseOffset records).length < 2 ^ 31) :
    readBatches (batchBytes baseOffset records) =
      .ok (([encodedBatch baseOffset records], none), []) := by
  have hbody : (recordsBody baseOffset records).length < 2 ^ 31 := by
    rw [length_batchBytes] at hfits
    rw [length_recordsBody]
    omega
  have hcrc : crc32c ((recordsBody baseOffset records).drop 9) =
      crc32c (recordsCovered baseOffset records) := by
    rw [recordsBody, drop_batchBody]
  have hreads := reads_batchFields hcrc hlen hfits
  rw [← recordsBody] at hreads
  have hwhole := hreads.whole .invalid
  have hbatch : (readBatch none).run (batchBytes baseOffset records) =
      .ok (encodedBatch baseOffset records, []) := by
    refine run_readBatch_ok.mpr ⟨Int64.ofInt baseOffset, recordsBody baseOffset records, ?_, hbody,
      hwhole, ?_⟩
    · rw [length_recordsBody]
      omega
    · rw [List.append_nil, batchBytes, List.append_assoc]
  have hnext : (nextBatch ([], none)).run (batchBytes baseOffset records) =
      .ok (([encodedBatch baseOffset records], none), []) :=
    run_bind_ok.mpr ⟨_, [], hbatch, run_pure_ok.mpr ⟨rfl, rfl⟩⟩
  exact run_whileMore_once consumes_nextBatch hnext

/-- The magic byte of an encoded batch. -/
theorem getElem?_batchBytes (baseOffset : Int) (records : List Record) :
    (batchBytes baseOffset records)[16]? = some 2 := by
  have hsplit : batchBytes baseOffset records =
      (i64Bytes (Int64.ofInt baseOffset) ++
        i32Bytes (Int32.ofNat (recordsBody baseOffset records).length) ++ i32Bytes (-1)) ++
      (2 :: (u32Bytes (crc32c (recordsCovered baseOffset records)) ++
        recordsCovered baseOffset records)) := by
    simp only [batchBytes, recordsBody, batchBody, List.append_assoc, List.cons_append,
      List.nil_append]
  rw [hsplit, List.getElem?_append_right (by simp)]
  simp

/-- A written batch is decoded to its records, up to saturated timestamps. -/
theorem decodeRecordBatchesWithIdentity_batchBytes (hlen : records.length ≤ maxRecords)
    (hfits : (batchBytes baseOffset records).length < 2 ^ 31) :
    decodeRecordBatchesWithIdentity (batchBytes baseOffset records) =
      .ok ⟨records.map fun record => ⟨saturatingAdd (firstTimestamp records)
        (saturatingSub record.timestampMs (firstTimestamp records)), record.key, record.value⟩,
        none⟩ := by
  have hne : (batchBytes baseOffset records).isEmpty = false := by
    rw [List.isEmpty_eq_false_iff, ← List.length_pos_iff, length_batchBytes]
    omega
  unfold decodeRecordBatchesWithIdentity decodeV2RecordSet
  rw [hne, getElem?_batchBytes, readBatches_batchBytes hlen hfits]
  simp [bind, Except.bind, pure, Except.pure, EncodedBatch.data, encodedBatch, encodedRecord]

/-- **Round trip.** Decoding an encoded batch gives the timestamps, keys and values of the records
in order and no producer, and the offset deltas stored in it lead from the base offset back to the
records' offsets. -/
theorem encodeRecordBatch_roundTrip (baseOffset : Int) (records : List Record) (bytes : Bytes)
    (hne : records ≠ []) (hlen : records.length ≤ maxRecords)
    (hoffsets : ∀ record ∈ records, |record.offset - baseOffset| < 2 ^ 31)
    (htimestamps : ∀ first, records.head? = some first → ∀ record ∈ records,
      -2 ^ 63 ≤ record.timestampMs.toInt - first.timestampMs.toInt ∧
        record.timestampMs.toInt - first.timestampMs.toInt < 2 ^ 63)
    (h : encodeRecordBatch baseOffset records = .ok bytes) :
    decodeRecordBatchesWithIdentity bytes = .ok ⟨records.map Record.data, none⟩ ∧
      ∃ deltas, storedOffsetDeltas bytes = .ok deltas ∧
        deltas.map (fun delta => baseOffset + delta.toInt) = records.map Record.offset := by
  obtain ⟨-, -, hfits, rfl⟩ := encodeRecordBatch_eq_ok.mp h
  have hfits' : (batchBytes baseOffset records).length < 2 ^ 31 :=
    Nat.lt_of_le_of_lt hfits (by decide)
  obtain ⟨first, hfirst⟩ := Option.isSome_iff_exists.mp (List.isSome_head?.mpr hne)
  have hstart : firstTimestamp records = first.timestampMs := by rw [firstTimestamp, hfirst]; rfl
  constructor
  · rw [decodeRecordBatchesWithIdentity_batchBytes hlen hfits', hstart]
    congr 2
    refine List.map_congr_left fun record hrecord => ?_
    obtain ⟨hmin, hmax⟩ := htimestamps first hfirst record hrecord
    rw [saturatingAdd_saturatingSub hmin hmax]
    rfl
  · refine ⟨_, by rw [storedOffsetDeltas, readBatches_batchBytes hlen hfits']; rfl, ?_⟩
    rw [List.flatMap_singleton, encodedBatch, List.map_map, List.map_map]
    refine List.map_congr_left fun record hrecord => ?_
    have hdelta := abs_lt.mp (hoffsets record hrecord)
    have hread : (Int32.ofInt (record.offset - baseOffset)).toInt = record.offset - baseOffset :=
      Int32.toInt_ofInt_of_le (Int.le_of_lt hdelta.1) hdelta.2
    show baseOffset + (Int32.ofInt (record.offset - baseOffset)).toInt = record.offset
    omega

/-- Two records, one of them without a key and with an empty value. -/
theorem encodeRecordBatch_roundTrip_two :
    ∃ bytes, encodeRecordBatch 7 [⟨7, 1000, some [97], some [1, 2]⟩, ⟨9, 990, none, some []⟩] =
      .ok bytes ∧
      decodeRecordBatchesWithIdentity bytes =
        .ok ⟨[⟨1000, some [97], some [1, 2]⟩, ⟨990, none, some []⟩], none⟩ ∧
      ∃ deltas, storedOffsetDeltas bytes = .ok deltas ∧
        deltas.map (fun delta => 7 + delta.toInt) = [7, 9] := by
  have h : encodeRecordBatch 7 [⟨7, 1000, some [97], some [1, 2]⟩, ⟨9, 990, none, some []⟩] =
      .ok _ := encodeRecordBatch_eq_ok.mpr ⟨by decide, by decide, by decide +kernel, rfl⟩
  refine ⟨_, h, encodeRecordBatch_roundTrip 7 _ _ (by decide) (by decide) (by decide) ?_ h⟩
  rintro _ ⟨⟩
  decide

end CharlotteBroker.Wire
