import CharlotteBroker.Lib.Slices
import CharlotteBroker.Wire.RecordBatch

/-!
# Record sets as hostile bytes

The decoders of `codec.rs` and `record_batch.rs` as the machine runs them: over a slice and an
offset, with every index, slice, shift, sum and reservation an operation that panics out of its
range.

* Each decoder here refines the parser of the same name: it answers what the parser answers, from
  every offset of every slice (`Reader.Refines`), and so it neither panics nor runs on.
* What an unchecked index relies on is a check made before it: the smallest length of a batch or of
  a message. It is used where the refinement lemma meets the index.
* A loop over a record set ends because each of its steps reads at least the length fields
  (`consumes_nextBatch`, `consumes_readLegacyMessage`).
-/

namespace CharlotteBroker.Wire.Hostile

open Lib Lib.Reader CharlotteBroker.Core

/-- Reads fields from one slice. Source: `codec.rs`, `Decoder`. Kind: D -/
abbrev Decoder : Type → Type := Reader Error

/-! ## Fields -/

namespace Decoder

/-- Source: `codec.rs`, `Decoder::take`. Kind: D -/
def take (len : ℕ) : Decoder Bytes := Reader.take .invalid .incomplete len

/-- Source: `codec.rs`, `Decoder::i8`. Kind: D -/
def i8 : Decoder Int8 := do
  return (← Reader.byte .invalid .incomplete).toInt8

/-- Source: `codec.rs`, `Decoder::i16`. Kind: D -/
def i16 : Decoder Int16 := do
  return Int16.ofBitVec (← Reader.bits .invalid .incomplete 2)

/-- Source: `codec.rs`, `Decoder::i32`. Kind: D -/
def i32 : Decoder Int32 := do
  return Int32.ofBitVec (← Reader.bits .invalid .incomplete 4)

/-- Source: `codec.rs`, `Decoder::i64`. Kind: D -/
def i64 : Decoder Int64 := do
  return Int64.ofBitVec (← Reader.bits .invalid .incomplete 8)

/-- A string length that is not null.
Source: `codec.rs`, the tail of `string_bytes` and `nullable_string_bytes`. Kind: D -/
def stringOf (len : Int16) : Decoder Bytes := do
  reject (len < 0) .invalid
  reject (maxStringLen < len.toInt.toNat) .tooLarge
  take len.toInt.toNat

/-- Source: `codec.rs`, `Decoder::string_bytes`. Kind: D -/
def stringBytes : Decoder Bytes := do
  stringOf (← i16)

/-- Source: `codec.rs`, `Decoder::nullable_string_bytes`. Kind: D -/
def nullableStringBytes : Decoder (Option Bytes) := do
  let len ← i16
  if len = -1 then return none
  else return some (← stringOf len)

/-- Source: `codec.rs`, `Decoder::bytes`. Kind: D -/
def bytes : Decoder (Option Bytes) := do
  let len ← i32
  if len = -1 then return none
  else
    reject (len < 0) .invalid
    reject (maxFrameLen < len.toInt.toNat) .tooLarge
    return some (← take len.toInt.toNat)

/-- Source: `codec.rs`, the tail of `array_len` and `nullable_array_len`. Kind: D -/
def arrayLenOf (len : Int32) : Decoder ℕ := do
  reject (len < 0) .invalid
  reject (maxArrayLen < len.toInt.toNat) .tooLarge
  return len.toInt.toNat

/-- Source: `codec.rs`, `Decoder::array_len`. Kind: D -/
def arrayLen : Decoder ℕ := do
  arrayLenOf (← i32)

/-- Source: `codec.rs`, `Decoder::nullable_array_len`. Kind: D -/
def nullableArrayLen : Decoder (Option ℕ) := do
  let len ← i32
  if len = -1 then return none
  else return some (← arrayLenOf len)

/-- A counted loop that fills a vector with room for as many elements of the given size, or for one
per byte that is left.
Source: `request.rs`, `Vec::with_capacity(count.min(decoder.remaining()))` and the loop. Kind: D -/
def items {α : Type} (size : ℕ) (item : Decoder α) (count : ℕ) : Decoder (List α) := do
  let left ← remaining
  lift (Checked.withCapacity size (min count left))
  many item count

/-- An array: the count, and that many elements, in order.
Source: `request.rs`, the counted `for` loops. Kind: D -/
def array {α : Type} (size : ℕ) (item : Decoder α) : Decoder (List α) := do
  items size item (← arrayLen)

end Decoder

/-- Source: `codec.rs`, `read_varint`. Kind: D -/
def readVarint : Decoder Int32 := do
  let raw := (← readUvarint .incomplete .invalid 5).toUInt32
  return Int32.ofBitVec (← unzigzag raw.toBitVec)

/-- Source: `codec.rs`, `read_varlong`. Kind: D -/
def readVarlong : Decoder Int64 := do
  let raw ← readUvarint .incomplete .invalid 10
  return Int64.ofBitVec (← unzigzag raw.toBitVec)

section Fields

/-- A length field of four bytes is below `2 ^ 31`. -/
theorem i32_toNat_lt (len : Int32) : len.toInt.toNat < 2 ^ 31 := by
  have hmax := len.toInt_lt
  omega

/-- A length field of two bytes is below `2 ^ 15`. -/
theorem i16_toNat_lt (len : Int16) : len.toInt.toNat < 2 ^ 15 := by
  have hmax := len.toInt_lt
  omega

/-- As many bytes as an `i32` says are taken without overflow. -/
theorem refines_take_i32 (len : Int32) :
    Refines (Decoder.take len.toInt.toNat) (Wire.Decoder.take len.toInt.toNat) :=
  refines_take _ _ (Nat.lt_trans (i32_toNat_lt len) (by decide))

theorem refines_i8 : Refines Decoder.i8 Wire.Decoder.i8 :=
  (refines_byte _ _).bind fun _ => Refines.pure _

theorem refines_i16 : Refines Decoder.i16 Wire.Decoder.i16 :=
  (refines_bits _ _ (by decide)).bind fun _ => Refines.pure _

theorem refines_i32 : Refines Decoder.i32 Wire.Decoder.i32 :=
  (refines_bits _ _ (by decide)).bind fun _ => Refines.pure _

theorem refines_i64 : Refines Decoder.i64 Wire.Decoder.i64 :=
  (refines_bits _ _ (by decide)).bind fun _ => Refines.pure _

/-- The guards before the bytes of a string keep its length from overflowing. -/
theorem refines_stringOf (len : Int16) :
    Refines (Decoder.stringOf len) (Wire.Decoder.stringOf len) :=
  Refines.reject fun _ => Refines.reject fun _ =>
    refines_take _ _ (Nat.lt_trans (i16_toNat_lt len) (by decide))

theorem refines_stringBytes : Refines Decoder.stringBytes Wire.Decoder.stringBytes :=
  refines_i16.bind refines_stringOf

theorem refines_nullableStringBytes :
    Refines Decoder.nullableStringBytes Wire.Decoder.nullableStringBytes :=
  refines_i16.bind fun len =>
    Refines.ite (fun _ => Refines.pure none) fun _ =>
      (refines_stringOf len).bind fun value => Refines.pure (some value)

theorem refines_bytes : Refines Decoder.bytes Wire.Decoder.bytes :=
  refines_i32.bind fun len =>
    Refines.ite (fun _ => Refines.pure none) fun _ =>
      Refines.reject fun _ => Refines.reject fun _ =>
        (refines_take_i32 len).bind fun value => Refines.pure (some value)

theorem refines_arrayLenOf (len : Int32) :
    Refines (Decoder.arrayLenOf len) (Wire.Decoder.arrayLenOf len) :=
  Refines.reject fun _ => Refines.reject fun _ => Refines.pure _

theorem refines_arrayLen : Refines Decoder.arrayLen Wire.Decoder.arrayLen :=
  refines_i32.bind refines_arrayLenOf

theorem refines_nullableArrayLen : Refines Decoder.nullableArrayLen Wire.Decoder.nullableArrayLen :=
  refines_i32.bind fun len =>
    Refines.ite (fun _ => Refines.pure none) fun _ =>
      (refines_arrayLenOf len).bind fun count => Refines.pure (some count)

theorem refines_readVarint : Refines readVarint Wire.readVarint :=
  (refines_readUvarint _ _ (by decide)).bind fun raw =>
    (refines_unzigzag (by decide) raw.toUInt32.toBitVec).bind fun value => Refines.pure _

theorem refines_readVarlong : Refines readVarlong Wire.readVarlong :=
  (refines_readUvarint _ _ (by decide)).bind fun raw =>
    (refines_unzigzag (by decide) raw.toBitVec).bind fun value => Refines.pure _

end Fields

/-! ## Records of a batch -/

/-- Source: `record_batch.rs`, `read_optional_bytes`. Kind: D -/
def readOptionalBytes (len : Int32) : Decoder (Option Bytes) := do
  if len = -1 then return none
  else if 0 ≤ len then return some (← Decoder.take len.toInt.toNat)
  else lift (Checked.fail .invalid)

/-- Source: `record_batch.rs`, `decode_v2_record_set` (the loop over the headers). Kind: D -/
def skipHeader : Decoder Unit := do
  let keyLen ← readVarint
  reject (keyLen < 0) .invalid
  let _ ← Decoder.take keyLen.toInt.toNat
  let valueLen ← readVarint
  if 0 ≤ valueLen then
    let _ ← Decoder.take valueLen.toInt.toNat
    return ()
  else reject (valueLen ≠ -1) .invalid

/-- The body of a record.
Source: `record_batch.rs`, `decode_v2_record_set` (the loop over the records). Kind: D -/
def recordFields : Decoder EncodedRecord := do
  let _attributes ← Decoder.i8
  let timestampDelta ← readVarlong
  let offsetDelta ← readVarint
  let keyLen ← readVarint
  let key ← readOptionalBytes keyLen
  let valueLen ← readVarint
  let value ← readOptionalBytes valueLen
  let headers ← readVarint
  reject (headers < 0 ∨ maxArrayLen < headers.toInt.toNat) .invalid
  let _ ← many skipHeader headers.toInt.toNat
  return ⟨timestampDelta, offsetDelta, key, value⟩

/-- A record framed by its length.
Source: `record_batch.rs`, `decode_v2_record_set` (the loop over the records). Kind: D -/
def framedRecord : Decoder EncodedRecord := do
  let len ← readVarint
  reject (len < 0) .invalid
  let body ← Decoder.take len.toInt.toNat
  lift (whole .invalid recordFields body)

/-- A negative length other than null is refused before anything is taken. -/
theorem refines_readOptionalBytes (len : Int32) :
    Refines (readOptionalBytes len) (Wire.readOptionalBytes len) :=
  Refines.ite (fun _ => Refines.pure none) fun _ =>
    Refines.ite (fun _ => (refines_take_i32 len).bind fun value => Refines.pure (some value))
      fun _ => Refines.fail _

/-- Both lengths of a record header are looked at before they are used. -/
theorem refines_skipHeader : Refines skipHeader Wire.skipHeader :=
  refines_readVarint.bind fun keyLen => Refines.reject fun _ =>
    (refines_take_i32 keyLen).bind fun _ => refines_readVarint.bind fun valueLen =>
      Refines.ite (fun _ => (refines_take_i32 valueLen).bind fun _ => Refines.pure ())
        fun _ => refines_reject _ _

theorem refines_recordFields : Refines recordFields Wire.recordFields :=
  refines_i8.bind fun _ => refines_readVarlong.bind fun _ => refines_readVarint.bind fun _ =>
    refines_readVarint.bind fun keyLen => (refines_readOptionalBytes keyLen).bind fun _ =>
      refines_readVarint.bind fun valueLen => (refines_readOptionalBytes valueLen).bind fun _ =>
        refines_readVarint.bind fun _ => Refines.reject fun _ =>
          (refines_skipHeader.many _).bind fun _ => Refines.pure _

/-- A slice taken by an `i32` length is small enough to be read on its own. -/
theorem yields_take_i32 (len : Int32) :
    Parser.Yields (Wire.Decoder.take len.toInt.toNat) (fun bytes =>
      bytes.length = len.toInt.toNat ∧ bytes.length < 2 ^ 63) := by
  intro input bytes rest hrun
  have hlen := yields_take _ _ _ _ _ hrun
  have hlt := i32_toNat_lt len
  exact ⟨hlen, by omega⟩

theorem refines_framedRecord : Refines framedRecord Wire.framedRecord :=
  refines_readVarint.bind fun len => Refines.reject fun _ =>
    (refines_take_i32 len).bind_of (yields_take_i32 len) fun _ hbody =>
      Refines.lift (refines_recordFields.whole _ hbody.2)

/-! ## Batches -/

/-- The body of a batch.
Source: `record_batch.rs`, `decode_v2_record_set` (the loop over the batches). Kind: D -/
def batchFields (identity : Option (Int64 × Int16)) (batch : Bytes) : Decoder EncodedBatch := do
  let _partitionLeaderEpoch ← Decoder.i32
  let magic ← Decoder.i8
  reject (magic ≠ 2) .unsupportedVersion
  let expectedCrc ← Decoder.i32
  let covered ← lift (Checked.sliceFrom batch 9)
  reject (crc32c covered ≠ expectedCrc.toUInt32) .checksum
  let attributes ← Decoder.i16
  reject (attributes &&& 0x07 ≠ 0 ∨ attributes &&& 0x20 ≠ 0) .unsupportedVersion
  let _lastOffsetDelta ← Decoder.i32
  let firstTimestamp ← Decoder.i64
  let _maxTimestamp ← Decoder.i64
  let producerId ← Decoder.i64
  let producerEpoch ← Decoder.i16
  let _baseSequence ← Decoder.i32
  let count ← Decoder.i32
  reject (count < 0 ∨ maxRecords < count.toInt.toNat) .tooLarge
  let identity ←
    lift (Checked.answer (nextIdentity attributes (producerId, producerEpoch) identity))
  let records ← many framedRecord count.toInt.toNat
  return ⟨identity, firstTimestamp, records⟩

/-- One batch of a record set.
Source: `record_batch.rs`, `decode_v2_record_set` (the loop over the batches). Kind: D -/
def readBatch (identity : Option (Int64 × Int16)) : Decoder EncodedBatch := do
  let left ← remaining
  reject (left < 12) .incomplete
  let _baseOffset ← Decoder.i64
  let batchLen ← Decoder.i32
  reject (batchLen < 49) .invalid
  let batch ← Decoder.take batchLen.toInt.toNat
  lift (whole .invalid (batchFields identity batch) batch)

/-- The batches seen so far and the identity they carry, with one more. -/
def nextBatch (seen : List EncodedBatch × Option (Int64 × Int16)) :
    Decoder (List EncodedBatch × Option (Int64 × Int16)) := do
  let batch ← readBatch seen.2
  return (seen.1 ++ [batch], batch.identity)

/-- Source: `record_batch.rs`, `decode_v2_record_set`. Kind: D -/
def decodeV2RecordSet (bytes : Bytes) : Checked Error DecodedRecordBatch :=
  if bytes.isEmpty then Checked.fail .invalid
  else do
    let (batches, identity) ← front (whileMore nextBatch ([], none)) bytes
    return ⟨batches.flatMap EncodedBatch.data, identity⟩

/-- The checksum is over what follows the first nine bytes, which every batch has. -/
theorem refines_batchFields (identity : Option (Int64 × Int16)) {batch : Bytes}
    (h : 9 ≤ batch.length) :
    Refines (batchFields identity batch) (Wire.batchFields identity batch) :=
  refines_i32.bind fun _ => refines_i8.bind fun _ => Refines.reject fun _ =>
    refines_i32.bind fun _ => Refines.step (Checked.sliceFrom_of_le h) <| Refines.reject fun _ =>
      refines_i16.bind fun _ => Refines.reject fun _ => refines_i32.bind fun _ =>
        refines_i64.bind fun _ => refines_i64.bind fun _ => refines_i64.bind fun _ =>
          refines_i16.bind fun _ => refines_i32.bind fun _ => refines_i32.bind fun _ =>
            Refines.reject fun _ => (Refines.lift rfl).bind fun _ =>
              (refines_framedRecord.many _).bind fun _ => Refines.pure _

theorem refines_readBatch (identity : Option (Int64 × Int16)) :
    Refines (readBatch identity) (Wire.readBatch identity) := by
  refine Refines.remaining fun _ => Refines.reject fun _ => refines_i64.bind fun _ =>
    refines_i32.bind fun batchLen => Refines.reject fun hlen => ?_
  refine (refines_take_i32 batchLen).bind_of (yields_take_i32 batchLen) fun batch hbatch => ?_
  have hmin : ¬ batchLen.toInt < 49 := by simpa [Int32.lt_iff_toInt_lt] using hlen
  refine Refines.lift ((refines_batchFields identity ?_).whole _ hbatch.2)
  omega

theorem refines_nextBatch (seen : List EncodedBatch × Option (Int64 × Int16)) :
    Refines (nextBatch seen) (Wire.nextBatch seen) :=
  (refines_readBatch seen.2).bind fun _ => Refines.pure _

/-- Decoding a v2 set comes to the parser's answer, without a panic. -/
theorem decodeV2RecordSet_answers {bytes : Bytes} (hfits : bytes.length < 2 ^ 63) :
    decodeV2RecordSet bytes = Checked.answer (Wire.decodeV2RecordSet bytes) := by
  have hloop := Refines.whileMore refines_nextBatch consumes_nextBatch ([], none)
  unfold decodeV2RecordSet Wire.decodeV2RecordSet readBatches
  rw [hloop.front hfits]
  by_cases hempty : bytes.isEmpty = true
  · rw [if_pos hempty, if_pos hempty]
    rfl
  · rw [if_neg hempty, if_neg hempty]
    rcases (Parser.whileMore Wire.nextBatch ([], none)).run bytes with error | ⟨seen, rest⟩
    · rfl
    · rfl

/-! ## Legacy message sets -/

/-- The next bytes at the cursor, whose end is summed up unchecked.
Source: `record_batch.rs`, `message.get(cursor..end).ok_or(Error::Incomplete)?`. Kind: D -/
def legacyTake (len : ℕ) : Decoder Bytes := do
  let cursor ← get
  let last ← lift (Checked.add cursor.offset len)
  let value ← lift (Checked.okOr (Checked.get? cursor.bytes cursor.offset last) .incomplete)
  set { cursor with offset := last }
  return value

/-- Source: `record_batch.rs`, `legacy_optional_bytes`. Kind: D -/
def legacyOptionalBytes : Decoder (Option Bytes) := do
  let field ← legacyTake 4
  let field ← lift (Checked.toArray .invalid 4 field)
  let length := Int32.ofBitVec (BitVec.ofNat 32 (beValue field))
  if length = -1 then return none
  else
    reject (length < 0) .invalid
    return some (← legacyTake length.toInt.toNat)

/-- Source: `record_batch.rs`, `decode_legacy_message_set` (the timestamp). Kind: D -/
def legacyI64 : Decoder Int64 := do
  let field ← legacyTake 8
  let field ← lift (Checked.toArray .invalid 8 field)
  return Int64.ofBitVec (BitVec.ofNat 64 (beValue field))

/-- The fields at the cursor.
Source: `record_batch.rs`, `decode_legacy_message_set` (the loop). Kind: D -/
def legacyRecord (magic : UInt8) : Decoder RecordData := do
  let timestampMs ← if magic = 1 then legacyI64 else pure 0
  let key ← legacyOptionalBytes
  let value ← legacyOptionalBytes
  return ⟨timestampMs, key, value⟩

/-- A legacy message: the fields at fixed places, and those from the cursor on.
Source: `record_batch.rs`, `decode_legacy_message_set` (the loop). Kind: D -/
def legacyFields (message : Bytes) : Checked Error RecordData := do
  let head ← Checked.slice message 0 4
  let head ← Checked.toArray .invalid 4 head
  let covered ← Checked.sliceFrom message 4
  Checked.reject (crc32Ieee covered ≠ UInt32.ofBitVec (BitVec.ofNat 32 (beValue head))) .checksum
  let magic ← Checked.index message 4
  Checked.reject (1 < magic) .unsupportedVersion
  let attributes ← Checked.index message 5
  Checked.reject (attributes &&& 0x07 ≠ 0) .unsupportedVersion
  wholeFrom .invalid (legacyRecord magic) message 6

/-- Source: `record_batch.rs`, `decode_legacy_message_set` (the loop). Kind: D -/
def readLegacyMessage : Decoder RecordData := do
  let _offset ← Decoder.i64
  let messageSize ← Decoder.i32
  reject (messageSize < 14) .invalid
  let message ← Decoder.take messageSize.toInt.toNat
  lift (legacyFields message)

/-- The records seen so far, with one more. -/
def nextLegacy (records : List RecordData) : Decoder (List RecordData) := do
  let record ← readLegacyMessage
  return records ++ [record]

/-- Source: `record_batch.rs`, `decode_legacy_message_set`. Kind: D -/
def decodeLegacyMessageSet (bytes : Bytes) : Checked Error (List RecordData) :=
  front (whileMore nextLegacy []) bytes

/-- The cursor is inside a slice, so a sum with an `i32` length does not overflow. -/
theorem refines_legacyTake {len : ℕ} (h : len < 2 ^ 63) :
    Refines (legacyTake len) (Wire.Decoder.take len) := by
  intro bytes offset hfits hle
  have hsum : offset + len < 2 ^ 64 := by omega
  have hsame : (legacyTake len).run ⟨bytes, offset⟩ = (Decoder.take len).run ⟨bytes, offset⟩ := by
    refine Eq.trans ?_ (run_take _ _ hsum).symm
    have hrun : (legacyTake len).run ⟨bytes, offset⟩ =
        (lift (Checked.add offset len) >>= fun last => do
          let value ← lift (Checked.okOr (Checked.get? bytes offset last) .incomplete)
          set (Cursor.mk bytes last)
          return value : Decoder Bytes).run ⟨bytes, offset⟩ := rfl
    rw [hrun, Checked.add_of_lt hsum]
    rfl
  have htake := refines_take (ε := Error) .invalid .incomplete h bytes offset hfits hle
  unfold Agree at htake ⊢
  rw [hsame]
  exact htake

/-- An `i32` is four bytes taken together. -/
theorem i32_eq_take : Wire.Decoder.i32 =
    Wire.Decoder.take 4 >>= fun field =>
      pure (Int32.ofBitVec (BitVec.ofNat 32 (beValue field))) :=
  bits_bind_eq_take _ 4 Int32.ofBitVec

/-- An `i64` is eight bytes taken together. -/
theorem i64_eq_take : Wire.Decoder.i64 =
    Wire.Decoder.take 8 >>= fun field =>
      pure (Int64.ofBitVec (BitVec.ofNat 64 (beValue field))) :=
  bits_bind_eq_take _ 8 Int64.ofBitVec

theorem refines_legacyOptionalBytes : Refines legacyOptionalBytes Wire.legacyOptionalBytes := by
  unfold Wire.legacyOptionalBytes
  rw [i32_eq_take, bind_assoc]
  simp only [pure_bind]
  refine (refines_legacyTake (by decide)).bind_of (yields_take _ 4) fun field hlen => ?_
  refine Refines.step (Checked.toArray_of_length hlen) (Refines.ite (fun _ => Refines.pure none) ?_)
  intro _
  refine Refines.reject fun _ => (refines_legacyTake ?_).bind fun value => Refines.pure (some value)
  exact Nat.lt_trans (i32_toNat_lt _) (by decide)

theorem refines_legacyI64 : Refines legacyI64 Wire.Decoder.i64 := by
  rw [i64_eq_take]
  exact (refines_legacyTake (by decide)).bind_of (yields_take _ 8) fun field hlen =>
    Refines.step (Checked.toArray_of_length hlen) (Refines.pure _)

theorem refines_legacyRecord (magic : UInt8) :
    Refines (legacyRecord magic) (Wire.legacyRecord magic) := by
  have hfields (timestampMs : Int64) :=
    refines_legacyOptionalBytes.bind fun key => refines_legacyOptionalBytes.bind fun value =>
      Refines.pure (ε := Error) (RecordData.mk timestampMs key value)
  exact Refines.ite (fun _ => refines_legacyI64.bind hfields) fun _ =>
    (Refines.pure 0).bind hfields

/-- The first four bytes of a message are its checksum. -/
theorem run_i32_take {message : Bytes} (h : 4 ≤ message.length) :
    Wire.Decoder.i32.run message =
      .ok (Int32.ofBitVec (BitVec.ofNat 32 (beValue (message.take 4))), message.drop 4) := by
  have htake : (Wire.Decoder.take 4).run message = .ok (message.take 4, message.drop 4) := if_pos h
  rw [i32_eq_take, StateT.run_bind, htake]
  rfl

/-- The indices of a message are below its smallest length. -/
theorem legacyFields_answers {message : Bytes} (hmin : 14 ≤ message.length)
    (hfits : message.length < 2 ^ 63) :
    legacyFields message =
      Checked.answer (Parser.whole .invalid (Wire.legacyFields message) message) := by
  have hhead : (message.take 4).length = 4 := List.length_take_of_le (by omega)
  unfold legacyFields Wire.legacyFields Parser.whole
  rw [Checked.slice_of_le (Nat.zero_le 4) (by omega), Checked.sliceFrom_of_le (by omega),
    Checked.index_of_lt (show 4 < message.length by omega),
    Checked.index_of_lt (show 5 < message.length by omega)]
  simp only [pure_bind, List.drop_zero, Checked.toArray_of_length hhead]
  rw [Parser.run_bind_of_ok (run_i32_take (by omega))]
  refine reject_bind_answers fun _ => ?_
  rw [Parser.run_bind_of_ok (run_byte_drop _ (show 4 < message.length by omega))]
  refine reject_bind_answers fun _ => ?_
  rw [Parser.run_bind_of_ok (run_byte_drop _ (show 5 < message.length by omega))]
  refine reject_bind_answers fun _ => ?_
  exact (refines_legacyRecord message[4]).wholeFrom .invalid hfits (by omega)

theorem refines_readLegacyMessage : Refines readLegacyMessage Wire.readLegacyMessage := by
  refine refines_i64.bind fun _ => refines_i32.bind fun size => Refines.reject fun hsize => ?_
  refine (refines_take_i32 size).bind_of (yields_take_i32 size) fun message hmessage => ?_
  have hmin : ¬ size.toInt < 14 := by simpa [Int32.lt_iff_toInt_lt] using hsize
  exact Refines.lift (legacyFields_answers (by omega) hmessage.2)

theorem refines_nextLegacy (records : List RecordData) :
    Refines (nextLegacy records) (Wire.readLegacyMessage >>= fun record =>
      pure (records ++ [record])) :=
  refines_readLegacyMessage.bind fun _ => Refines.pure _

/-- Decoding a legacy set comes to the parser's answer, without a panic. -/
theorem decodeLegacyMessageSet_answers {bytes : Bytes} (hfits : bytes.length < 2 ^ 63) :
    decodeLegacyMessageSet bytes = Checked.answer (Wire.decodeLegacyMessageSet bytes) := by
  have hloop := Refines.whileMore refines_nextLegacy
    (fun _ => consumes_readLegacyMessage.bind_pure _) []
  exact hloop.front hfits

/-! ## Record sets -/

/-- The format is detected by the magic byte, at offset 16 in both layouts.
Source: `record_batch.rs`, `decode_record_batches_with_identity`. Kind: D -/
def decodeRecordBatchesWithIdentity (bytes : Bytes) : Checked Error DecodedRecordBatch :=
  if bytes.isEmpty then Checked.fail .invalid
  else match (bytes[16]? : Option UInt8) with
    | some 2 => decodeV2RecordSet bytes
    | some 0 | some 1 => do
        let records ← decodeLegacyMessageSet bytes
        return ⟨records, none⟩
    | _ => Checked.fail .unsupportedVersion

/-- Decoding a record set comes to the parser's answer, without a panic. -/
theorem decodeRecordBatchesWithIdentity_answers {bytes : Bytes} (hfits : bytes.length < 2 ^ 63) :
    decodeRecordBatchesWithIdentity bytes =
      Checked.answer (Wire.decodeRecordBatchesWithIdentity bytes) := by
  unfold decodeRecordBatchesWithIdentity Wire.decodeRecordBatchesWithIdentity
  rw [decodeV2RecordSet_answers hfits, decodeLegacyMessageSet_answers hfits, Checked.answer_map]
  by_cases hempty : bytes.isEmpty = true
  · rw [if_pos hempty, if_pos hempty]
    rfl
  · rw [if_neg hempty, if_neg hempty]
    generalize (bytes[16]? : Option UInt8) = magic
    rcases magic with _ | magic
    · rfl
    by_cases hv2 : magic = 2
    · rw [hv2]
      rfl
    by_cases hv0 : magic = 0
    · rw [hv0]
      rfl
    by_cases hv1 : magic = 1
    · rw [hv1]
      rfl
    simp [hv2, hv0, hv1, Checked.fail]

end CharlotteBroker.Wire.Hostile
