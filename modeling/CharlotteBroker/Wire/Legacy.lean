import CharlotteBroker.Wire.RecordBatch

/-!
# The grammar of legacy message sets

A legacy message set is a sequence of messages of the formats v0 and v1, which may be mixed. The
grammar is given by its derivations: a `LegacyMessage` holds what is free in a message, and carries
the two conditions on it, that it is not compressed and that its size fits the size field. The
magic byte, the size and the checksum are functions of the rest.

* `recognizes_readLegacyMessage`: the step of the decoder accepts exactly the messages.
* `decodeRecordBatches_legacy_iff`: the decoder accepts exactly the sequences of messages.
-/

namespace CharlotteBroker.Wire

open Lib Lib.Parser CharlotteBroker.Core

/-! ## Messages -/

/-- The magic byte: v1 has a timestamp, v0 has none. -/
def legacyMagic : Option Int64 → UInt8
  | some _ => 1
  | none => 0

def timestampField : Option Int64 → Bytes
  | some timestamp => i64Bytes timestamp
  | none => []

/-- The part of a message that its checksum covers. -/
def legacyContent (attributes : UInt8) (timestamp : Option Int64) (key value : Option Bytes) :
    Bytes :=
  legacyMagic timestamp :: attributes ::
    (timestampField timestamp ++ (nullableBytesField key ++ nullableBytesField value))

/-- A message, of the format v1 if it has a timestamp and of v0 otherwise. -/
structure LegacyMessage where
  offset : Int64
  attributes : UInt8
  timestamp : Option Int64
  key : Option Bytes
  value : Option Bytes
  uncompressed : attributes &&& 0x07 = 0
  fits : 4 + (legacyContent attributes timestamp key value).length < 2 ^ 31

namespace LegacyMessage

/-- The covered part. -/
def content (message : LegacyMessage) : Bytes :=
  legacyContent message.attributes message.timestamp message.key message.value

/-- The checksum and what it covers. -/
def body (message : LegacyMessage) : Bytes :=
  u32Bytes (crc32Ieee message.content) ++ message.content

/-- The bytes of a message in the set: the offset, the size and the body. -/
def bytes (message : LegacyMessage) : Bytes :=
  i64Bytes message.offset ++ (i32Bytes (Int32.ofNat message.body.length) ++ message.body)

/-- The record of a message. -/
def data (message : LegacyMessage) : RecordData :=
  ⟨message.timestamp.getD 0, message.key, message.value⟩

end LegacyMessage

/-! ## Fields -/

/-- A key or a value of a legacy message is null or any bytes of an `i32` length. -/
theorem exact_legacyOptionalBytes : Exact legacyOptionalBytes nullableBytesField Writable := by
  intro input field rest
  unfold legacyOptionalBytes
  simp only [run_bind_ok, run_i32_ok]
  constructor
  · rintro ⟨len, middle, rfl, hread⟩
    split at hread
    · next hnull =>
        obtain ⟨rfl, rfl⟩ := run_pure_ok.mp hread
        exact ⟨writable_none, by rw [hnull]; rfl⟩
    · simp only [run_bind_ok, run_reject_ok, run_decoderTake_ok, run_pure_ok] at hread
      obtain ⟨-, _, ⟨hneg, rfl⟩, value, _, ⟨hlen, rfl⟩, rfl, rfl⟩ := hread
      refine ⟨?_, ?_⟩
      · rintro _ ⟨⟩
        have hmax := len.toInt_lt
        omega
      · rw [nullableBytesField, bytesField, hlen, i32_ofNat_toNat hneg, List.append_assoc]
  · rintro ⟨hwritable, rfl⟩
    rcases field with _ | value
    · exact ⟨-1, rest, rfl, by rw [if_pos rfl]; rfl⟩
    · obtain ⟨hneg, hnull, hval⟩ := i32_ofNat (hwritable value rfl)
      refine ⟨_, value ++ rest, by rw [nullableBytesField, bytesField, List.append_assoc], ?_⟩
      rw [if_neg hnull]
      simp only [run_bind_ok, run_reject_ok, run_decoderTake_ok, run_pure_ok]
      exact ⟨(), _, ⟨hneg, rfl⟩, value, rest, ⟨hval.symm, rfl⟩, rfl, rfl⟩

/-- The parts of a message behind its checksum, one by one. -/
theorem legacyContent_append (attributes : UInt8) (timestamp : Option Int64)
    (key value : Option Bytes) (rest : Bytes) :
    legacyContent attributes timestamp key value ++ rest =
      legacyMagic timestamp :: attributes :: (timestampField timestamp ++
        (nullableBytesField key ++ (nullableBytesField value ++ rest))) := by
  simp only [legacyContent, List.cons_append, List.append_assoc]

/-- A written message has magic byte zero or one. -/
theorem legacyMagic_le_one (timestamp : Option Int64) : ¬ 1 < legacyMagic timestamp := by
  rcases timestamp with _ | timestamp
  · show ¬ (1 : UInt8) < 0
    decide
  · show ¬ (1 : UInt8) < 1
    decide

/-- The fields from the timestamp on. -/
theorem run_legacyRecord_ok {magic : UInt8} (hmagic : ¬ 1 < magic) {input rest : Bytes}
    {record : RecordData} :
    (legacyRecord magic).run input = .ok (record, rest) ↔
      ∃ timestamp key value, magic = legacyMagic timestamp ∧ Writable key ∧ Writable value ∧
        record = ⟨timestamp.getD 0, key, value⟩ ∧ input = timestampField timestamp ++
          (nullableBytesField key ++ (nullableBytesField value ++ rest)) := by
  unfold legacyRecord
  by_cases hone : magic = 1
  · simp only [if_pos hone, run_bind_ok, run_i64_ok, run_pure_ok, exact_legacyOptionalBytes _ _ _]
    constructor
    · rintro ⟨timestamp, _, rfl, key, _, ⟨hkey, rfl⟩, value, _, ⟨hvalue, rfl⟩, rfl, rfl⟩
      exact ⟨some timestamp, key, value, hone, hkey, hvalue, rfl, rfl⟩
    · rintro ⟨timestamp, key, value, hversion, hkey, hvalue, rfl, rfl⟩
      rcases timestamp with _ | timestamp
      · rw [hone] at hversion
        cases hversion
      · exact ⟨timestamp, _, rfl, key, _, ⟨hkey, rfl⟩, value, _, ⟨hvalue, rfl⟩, rfl, rfl⟩
  · have hzero : magic = 0 := by
      rw [UInt8.lt_iff_toNat_lt] at hmagic
      rw [← UInt8.toNat_inj] at hone ⊢
      have honeNat : (1 : UInt8).toNat = 1 := rfl
      have hzeroNat : (0 : UInt8).toNat = 0 := rfl
      omega
    simp only [if_neg hone, run_bind_ok, run_pure_ok, exact_legacyOptionalBytes _ _ _]
    constructor
    · rintro ⟨_, _, ⟨rfl, rfl⟩, key, _, ⟨hkey, rfl⟩, value, _, ⟨hvalue, rfl⟩, rfl, rfl⟩
      exact ⟨none, key, value, hzero, hkey, hvalue, rfl, rfl⟩
    · rintro ⟨timestamp, key, value, hversion, hkey, hvalue, rfl, rfl⟩
      rcases timestamp with _ | timestamp
      · exact ⟨0, _, ⟨rfl, rfl⟩, key, _, ⟨hkey, rfl⟩, value, _, ⟨hvalue, rfl⟩, rfl, rfl⟩
      · exact absurd hversion hone

/-! ## The decoder accepts the grammar -/

/-- The fields of a message are read if checksum, compression and lengths are right. -/
theorem run_legacyFields_ok {message input rest : Bytes} {record : RecordData} :
    (legacyFields message).run input = .ok (record, rest) ↔
      ∃ (crc : Int32) (attributes : UInt8) (timestamp : Option Int64) (key value : Option Bytes),
        crc32Ieee (message.drop 4) = crc.toUInt32 ∧ attributes &&& 0x07 = 0 ∧ Writable key ∧
          Writable value ∧ record = ⟨timestamp.getD 0, key, value⟩ ∧
          input = i32Bytes crc ++ (legacyContent attributes timestamp key value ++ rest) := by
  unfold legacyFields
  simp only [run_bind_ok, run_i32_ok, run_reject_ok, run_byte_ok, ne_eq, not_not]
  constructor
  · rintro ⟨crc, _, rfl, _, _, ⟨hcrc, rfl⟩, magic, _, rfl, _, _, ⟨hmagic, rfl⟩, attributes, _, rfl,
      _, _, ⟨hattributes, rfl⟩, htail⟩
    obtain ⟨timestamp, key, value, rfl, hkey, hvalue, rfl, rfl⟩ :=
      (run_legacyRecord_ok hmagic).mp htail
    refine ⟨crc, attributes, timestamp, key, value, hcrc, hattributes, hkey, hvalue, rfl, ?_⟩
    rw [legacyContent_append]
  · rintro ⟨crc, attributes, timestamp, key, value, hcrc, hattributes, hkey, hvalue, rfl, rfl⟩
    have hmagic := legacyMagic_le_one timestamp
    refine ⟨crc, _, rfl, (), _, ⟨hcrc, rfl⟩, legacyMagic timestamp, _, legacyContent_append .., (), _,
      ⟨hmagic, rfl⟩, attributes, _, rfl, (), _, ⟨hattributes, rfl⟩, ?_⟩
    exact (run_legacyRecord_ok hmagic).mpr ⟨timestamp, key, value, rfl, hkey, hvalue, rfl, rfl⟩

/-- A message body that is all read is its checksum and its content. -/
theorem whole_legacyFields_ok {body : Bytes} {record : RecordData} :
    whole .invalid (legacyFields body) body = .ok record ↔
      ∃ (attributes : UInt8) (timestamp : Option Int64) (key value : Option Bytes),
        attributes &&& 0x07 = 0 ∧ Writable key ∧ Writable value ∧
          record = ⟨timestamp.getD 0, key, value⟩ ∧
          body = u32Bytes (crc32Ieee (legacyContent attributes timestamp key value)) ++
            legacyContent attributes timestamp key value := by
  rw [whole_eq_ok, run_legacyFields_ok]
  constructor
  · rintro ⟨crc, attributes, timestamp, key, value, hcrc, hattributes, hkey, hvalue, hrecord, hbody⟩
    refine ⟨attributes, timestamp, key, value, hattributes, hkey, hvalue, hrecord, ?_⟩
    rw [List.append_nil] at hbody
    rw [hbody, List.drop_left' (length_i32Bytes crc)] at hcrc
    rw [hcrc, hbody]
    rfl
  · rintro ⟨attributes, timestamp, key, value, hattributes, hkey, hvalue, hrecord, hbody⟩
    refine ⟨(crc32Ieee (legacyContent attributes timestamp key value)).toInt32, attributes, timestamp,
      key, value, ?_, hattributes, hkey, hvalue, hrecord, ?_⟩
    · rw [hbody, List.drop_left' (length_u32Bytes _)]
      rfl
    · rw [hbody, List.append_nil]
      rfl

/-- A nullable field takes four bytes and its own. -/
theorem length_nullableBytesField (field : Option Bytes) :
    (nullableBytesField field).length = 4 + (field.getD []).length := by
  rcases field with _ | value
  · rfl
  · simp [nullableBytesField, bytesField]

namespace LegacyMessage

/-- The size of a message body. -/
theorem length_body (message : LegacyMessage) :
    message.body.length = 14 + (timestampField message.timestamp).length +
      (message.key.getD []).length + (message.value.getD []).length := by
  simp only [body, content, legacyContent, List.length_append, List.length_cons, length_u32Bytes,
    length_nullableBytesField]
  omega

/-- A message body has an `i32` length. -/
theorem length_body_lt (message : LegacyMessage) : message.body.length < 2 ^ 31 := by
  have hfits := message.fits
  rw [body, List.length_append, length_u32Bytes]
  exact hfits

end LegacyMessage

/-- Null or a short field can be written. -/
theorem writable_of_length_lt {field : Option Bytes} (h : (field.getD []).length < 2 ^ 31) :
    Writable field := by
  rintro value rfl
  exact h

/-- **One message.** The step of the decoder accepts exactly the messages. -/
theorem recognizes_readLegacyMessage :
    Recognizes readLegacyMessage LegacyMessage.bytes LegacyMessage.data := by
  intro input record rest
  unfold readLegacyMessage
  simp only [run_bind_ok, run_i64_ok, run_i32_ok, run_reject_ok, run_decoderTake_ok,
    run_ofExcept_ok, whole_legacyFields_ok]
  constructor
  · rintro ⟨offset, _, rfl, size, _, rfl, _, _, ⟨hmin, rfl⟩, body, _, ⟨hlen, rfl⟩,
      ⟨attributes, timestamp, key, value, hattributes, hkey, hvalue, rfl, rfl⟩, rfl⟩
    obtain ⟨-, hmax, rfl⟩ := (i32_size_iff (by decide)).mp ⟨hmin, hlen⟩
    have hfits : 4 + (legacyContent attributes timestamp key value).length < 2 ^ 31 := by
      rwa [List.length_append, length_u32Bytes] at hmax
    refine ⟨⟨offset, attributes, timestamp, key, value, hattributes, hfits⟩, rfl, ?_⟩
    simp only [LegacyMessage.bytes, LegacyMessage.body, LegacyMessage.content, List.append_assoc]
  · rintro ⟨message, rfl, rfl⟩
    have hlen := message.length_body
    have hmax := message.length_body_lt
    obtain ⟨hsize, hbody⟩ := (@i32_size_iff _ 14 message.body.length (by decide)).mpr
      ⟨Int.ofNat_le.mpr (show 14 ≤ message.body.length by omega), hmax, rfl⟩
    refine ⟨message.offset, _, ?_, _, _, rfl, (), _, ⟨hsize, rfl⟩, message.body, rest, ⟨hbody, rfl⟩,
      ⟨message.attributes, message.timestamp, message.key, message.value, message.uncompressed, ?_, ?_,
        rfl, rfl⟩, rfl⟩
    · simp only [LegacyMessage.bytes, List.append_assoc]
    · exact writable_of_length_lt (by omega)
    · exact writable_of_length_lt (by omega)

/-! ## Message sets -/

/-- The decoder of message sets is a loop that collects messages. -/
theorem decodeLegacyMessageSet_eq (bytes : Bytes) :
    decodeLegacyMessageSet bytes =
      ((whileMore (collect readLegacyMessage) []).run bytes).map Prod.fst := by
  unfold decodeLegacyMessageSet
  change (whileMore (collect readLegacyMessage) []).run bytes >>= _ = _
  rcases (whileMore (collect readLegacyMessage) []).run bytes with error | read
  · rfl
  · rfl

/-- The sets that are decoded are the messages written one after the other. -/
theorem decodeLegacyMessageSet_iff {bytes : Bytes} {records : List RecordData} :
    decodeLegacyMessageSet bytes = .ok records ↔
      ∃ messages : List LegacyMessage, bytes = messages.flatMap LegacyMessage.bytes ∧
        records = messages.map LegacyMessage.data := by
  have hloop := fun rest => @Recognizes.whileMore_collect _ _ _ _ _ _ recognizes_readLegacyMessage
    consumes_readLegacyMessage [] records bytes rest
  rw [decodeLegacyMessageSet_eq]
  constructor
  · intro h
    rcases hrun : (whileMore (collect readLegacyMessage) []).run bytes with error | ⟨read, rest⟩
    · rw [hrun] at h
      cases h
    · rw [hrun] at h
      cases h
      obtain ⟨messages, hrecords, hbytes, -⟩ := (hloop rest).mp hrun
      exact ⟨messages, hbytes, hrecords⟩
  · rintro ⟨messages, hbytes, hrecords⟩
    rw [(hloop []).mpr ⟨messages, hrecords, hbytes, rfl⟩]
    rfl

/-- Magic byte zero or one chooses the legacy decoder. -/
theorem decodeRecordBatches_legacy {bytes : Bytes}
    (hmagic : bytes[16]? = some 0 ∨ bytes[16]? = some 1) :
    decodeRecordBatches bytes = decodeLegacyMessageSet bytes := by
  have hne : bytes.isEmpty = false := by
    rcases bytes with _ | ⟨b, bytes⟩
    · simp at hmagic
    · rfl
  have hlegacy : decodeRecordBatchesWithIdentity bytes =
      (decodeLegacyMessageSet bytes).map (⟨·, none⟩) := by
    unfold decodeRecordBatchesWithIdentity
    rw [hne]
    rcases hmagic with h | h
    · rw [h]
      rfl
    · rw [h]
      rfl
  rw [decodeRecordBatches, hlegacy]
  rcases decodeLegacyMessageSet bytes with error | records
  · rfl
  · rfl

/-- **Legacy message sets.** On a byte string that is taken for one, the decoder returns records
exactly if the string is a sequence of messages, and then it returns their records in order. -/
theorem decodeRecordBatches_legacy_iff (bytes : Bytes) (records : List RecordData)
    (hmagic : bytes[16]? = some 0 ∨ bytes[16]? = some 1) :
    decodeRecordBatches bytes = .ok records ↔
      ∃ messages : List LegacyMessage, bytes = messages.flatMap LegacyMessage.bytes ∧
        records = messages.map LegacyMessage.data := by
  rw [decodeRecordBatches_legacy hmagic, decodeLegacyMessageSet_iff]

/-- A message of each format: a timestamp and a key in v1, neither in v0. -/
def mixedMessages : List LegacyMessage :=
  [⟨0, 0, some 1234, some [107], some [118], by decide, by decide⟩,
    ⟨1, 0x08, none, none, some [], by decide, by decide⟩]

/-- Messages of both formats in one set. -/
theorem decodeRecordBatches_legacy_mixed :
    decodeRecordBatches (mixedMessages.flatMap LegacyMessage.bytes) =
      .ok [⟨1234, some [107], some [118]⟩, ⟨0, none, some []⟩] :=
  (decodeRecordBatches_legacy_iff _ _ (by decide)).mpr ⟨mixedMessages, rfl, rfl⟩

end CharlotteBroker.Wire
