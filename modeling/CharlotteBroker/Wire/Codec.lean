import CharlotteBroker.Lib.Varint
import CharlotteBroker.Wire.Protocol

/-!
# Fields of the wire format

The encoder, the decoder and the varint helpers of `codec.rs`.

* A `Decoder` is a parser: what the source keeps as a slice and an offset is here the bytes still
  to be read. An `Encoder` is a printer over the bytes written so far.
* Each field kind has one spelling, given by a function (`i16Bytes`, `stringField`, ...), and two
  laws against it: the decoder is exact, the encoder prints it.
* `response` is the frame around an encoded body; its length prefix is patched in at the end.

The source's assertion on the payload length in `finish` exists in debug builds only and is not
part of the model.
-/

namespace CharlotteBroker.Wire

open Lib Lib.Parser Lib.Printer CharlotteBroker.Core

variable {input rest : Bytes} {correlationId : Int32}

/-- Reads fields from one frame. Source: `codec.rs`, `Decoder`. Kind: D -/
abbrev Decoder : Type → Type := Parser Error

/-- Builds the body of a response. Source: `codec.rs`, `Encoder`. Kind: D -/
abbrev Encoder : Type → Type := Printer Error

/-! ## Spellings -/

/-- `i8 as u8`. -/
def i8Bytes (value : Int8) : Bytes := [value.toUInt8]

/-- `i16::to_be_bytes`. -/
def i16Bytes (value : Int16) : Bytes := beBytes 2 value.toBitVec.toNat

/-- `i32::to_be_bytes`. -/
def i32Bytes (value : Int32) : Bytes := beBytes 4 value.toBitVec.toNat

/-- `i64::to_be_bytes`. -/
def i64Bytes (value : Int64) : Bytes := beBytes 8 value.toBitVec.toNat

/-- `u32::to_be_bytes`. -/
def u32Bytes (value : UInt32) : Bytes := beBytes 4 value.toNat

@[simp] theorem length_i8Bytes (value : Int8) : (i8Bytes value).length = 1 := rfl
@[simp] theorem length_i16Bytes (value : Int16) : (i16Bytes value).length = 2 := length_beBytes _ _
@[simp] theorem length_i32Bytes (value : Int32) : (i32Bytes value).length = 4 := length_beBytes _ _
@[simp] theorem length_i64Bytes (value : Int64) : (i64Bytes value).length = 8 := length_beBytes _ _
@[simp] theorem length_u32Bytes (value : UInt32) : (u32Bytes value).length = 4 := length_beBytes _ _

/-- `bool` as an `i8`. -/
def boolField (value : Bool) : Bytes := i8Bytes (if value then 1 else 0)

/-- A string: its length as an `i16`, then its bytes. -/
def stringField (value : Bytes) : Bytes := i16Bytes (Int16.ofNat value.length) ++ value

/-- A nullable string: length `-1` stands for null. -/
def nullableStringField : Option Bytes → Bytes
  | some value => stringField value
  | none => i16Bytes (-1)

/-- A byte field: its length as an `i32`, then its bytes. -/
def bytesField (value : Bytes) : Bytes := i32Bytes (Int32.ofNat value.length) ++ value

/-- A nullable byte field. -/
def nullableBytesField : Option Bytes → Bytes
  | some value => bytesField value
  | none => i32Bytes (-1)

/-- The element count of an array. -/
def arrayLenField (len : ℕ) : Bytes := i32Bytes (Int32.ofNat len)

/-- An array: its element count, then the elements. -/
def arrayField {α : Type} (item : α → Bytes) (items : List α) : Bytes :=
  arrayLenField items.length ++ items.flatMap item

/-! ## Decoding -/

namespace Decoder

/-- Source: `codec.rs`, `Decoder::take`. Kind: D -/
def take (len : ℕ) : Decoder Bytes := Parser.take .incomplete len

/-- Source: `codec.rs`, `Decoder::i8`. Kind: D -/
def i8 : Decoder Int8 := do
  return (← Parser.byte .incomplete).toInt8

/-- Source: `codec.rs`, `Decoder::i16`. Kind: D -/
def i16 : Decoder Int16 := do
  return Int16.ofBitVec (← Parser.bits .incomplete 2)

/-- Source: `codec.rs`, `Decoder::i32`. Kind: D -/
def i32 : Decoder Int32 := do
  return Int32.ofBitVec (← Parser.bits .incomplete 4)

/-- Source: `codec.rs`, `Decoder::i64`. Kind: D -/
def i64 : Decoder Int64 := do
  return Int64.ofBitVec (← Parser.bits .incomplete 8)

/-- A string length that is not null.
Source: `codec.rs`, the tail of `string_bytes` and `nullable_string_bytes`. Kind: D -/
def stringOf (len : Int16) : Decoder Bytes := do
  reject (len < 0) .invalid
  reject (maxStringLen < len.toInt.toNat) .tooLarge
  take len.toInt.toNat

/-- Source: `codec.rs`, `Decoder::string_bytes`. Kind: D -/
def stringBytes : Decoder Bytes := do
  stringOf (← i16)

/-- Source: `codec.rs`, `Decoder::nullable_string_bytes`. Kind: D -/
def nullableStringBytes : Decoder (Option Bytes) := do
  let len ← i16
  if len = -1 then return none
  else return some (← stringOf len)

/-- Source: `codec.rs`, `Decoder::bytes`. Kind: D -/
def bytes : Decoder (Option Bytes) := do
  let len ← i32
  if len = -1 then return none
  else
    reject (len < 0) .invalid
    reject (maxFrameLen < len.toInt.toNat) .tooLarge
    return some (← take len.toInt.toNat)

/-- Source: `codec.rs`, the tail of `array_len` and `nullable_array_len`. Kind: D -/
def arrayLenOf (len : Int32) : Decoder ℕ := do
  reject (len < 0) .invalid
  reject (maxArrayLen < len.toInt.toNat) .tooLarge
  return len.toInt.toNat

/-- Source: `codec.rs`, `Decoder::array_len`. Kind: D -/
def arrayLen : Decoder ℕ := do
  arrayLenOf (← i32)

/-- Source: `codec.rs`, `Decoder::nullable_array_len`. Kind: D -/
def nullableArrayLen : Decoder (Option ℕ) := do
  let len ← i32
  if len = -1 then return none
  else return some (← arrayLenOf len)

/-- An array: the count, and that many elements, in order.
Source: `request.rs`, the counted `for` loops. Kind: D -/
def array {α : Type} (item : Decoder α) : Decoder (List α) := do
  many item (← arrayLen)

end Decoder

/-! ## Encoding -/

namespace Encoder

/-- Source: `codec.rs`, `Encoder::i8`. Kind: D -/
def i8 (value : Int8) : Encoder Unit := put (i8Bytes value)

/-- Source: `codec.rs`, `Encoder::i16`. Kind: D -/
def i16 (value : Int16) : Encoder Unit := put (i16Bytes value)

/-- Source: `codec.rs`, `Encoder::i32`. Kind: D -/
def i32 (value : Int32) : Encoder Unit := put (i32Bytes value)

/-- Source: `codec.rs`, `Encoder::i64`. Kind: D -/
def i64 (value : Int64) : Encoder Unit := put (i64Bytes value)

/-- Source: `codec.rs`, `Encoder::bool`. Kind: D -/
def bool (value : Bool) : Encoder Unit := i8 (if value then 1 else 0)

/-- Source: `codec.rs`, `Encoder::string`. Kind: D -/
def string (value : Bytes) : Encoder Unit := do
  refuse (maxStringLen < value.length ∨ 2 ^ 15 - 1 < value.length) .tooLarge
  i16 (Int16.ofNat value.length)
  put value

/-- Source: `codec.rs`, `Encoder::nullable_string`. Kind: D -/
def nullableString : Option Bytes → Encoder Unit
  | some value => string value
  | none => i16 (-1)

/-- Source: `codec.rs`, `Encoder::bytes`. Kind: D -/
def bytes (value : Bytes) : Encoder Unit := do
  refuse (maxFrameLen < value.length ∨ 2 ^ 31 - 1 < value.length) .tooLarge
  i32 (Int32.ofNat value.length)
  put value

/-- Source: `codec.rs`, `Encoder::array_len`. Kind: D -/
def arrayLen (len : ℕ) : Encoder Unit := do
  refuse (maxArrayLen < len ∨ 2 ^ 31 - 1 < len) .tooLarge
  i32 (Int32.ofNat len)

/-- Source: `codec.rs`, `Encoder::nullable_array_len`. Kind: D -/
def nullableArrayLen : Option ℕ → Encoder Unit
  | some len => arrayLen len
  | none => i32 (-1)

/-- An array: the count, and every element, in order.
Source: `response.rs`, `array_len` followed by a `for`. Kind: D -/
def array {α : Type} (items : List α) (item : α → Encoder Unit) : Encoder Unit := do
  arrayLen items.length
  each items item

/-- Patches the length prefix of a frame. Source: `codec.rs`, `Encoder::finish`. Kind: D -/
def finish (bytes : Bytes) : Bytes :=
  i32Bytes (Int32.ofNat (bytes.length - 4)) ++ bytes.drop 4

/-- A response frame: the correlation id, then the body.
Source: `codec.rs`, `Encoder::response`, and the closing `Ok(encoder.finish())`. Kind: D -/
def response (correlationId : Int32) (body : Encoder Unit) : Except Error Bytes := do
  let ((), bytes) ← body.run (i32Bytes 0 ++ i32Bytes correlationId)
  return finish bytes

end Encoder

/-! ## Varints -/

/-- Source: `codec.rs`, `put_uvarint`: a `u64` has at most ten groups. Kind: D -/
def putUvarint (value : UInt64) : Bytes := uvarintBytes 9 value.toNat

/-- Source: `codec.rs`, `put_varint`. Kind: D -/
def putVarint (value : Int32) : Bytes :=
  putUvarint (UInt32.ofBitVec (zigzag value.toBitVec)).toUInt64

/-- Source: `codec.rs`, `put_varlong`. Kind: D -/
def putVarlong (value : Int64) : Bytes := putUvarint (UInt64.ofBitVec (zigzag value.toBitVec))

/-- Source: `codec.rs`, `read_varint`. Kind: D -/
def readVarint : Decoder Int32 := do
  let raw := (← readUvarint .incomplete .invalid 5).toUInt32
  return Int32.ofBitVec (unzigzag raw.toBitVec)

/-- Source: `codec.rs`, `read_varlong`. Kind: D -/
def readVarlong : Decoder Int64 := do
  let raw ← readUvarint .incomplete .invalid 10
  return Int64.ofBitVec (unzigzag raw.toBitVec)

/-! ## The decoder is exact -/

/-- What is read as an `i8` is its byte. -/
theorem run_i8_ok {v : Int8} :
    Decoder.i8.run input = .ok (v, rest) ↔ input = i8Bytes v ++ rest := by
  unfold Decoder.i8
  simp only [run_bind_ok, run_byte_ok, run_pure_ok]
  constructor
  · rintro ⟨b, middle, rfl, rfl, rfl⟩
    rfl
  · rintro rfl
    exact ⟨v.toUInt8, rest, rfl, rfl, rfl⟩

/-- What is read as an `i16` is its two bytes, most significant first. -/
theorem run_i16_ok {v : Int16} :
    Decoder.i16.run input = .ok (v, rest) ↔ input = i16Bytes v ++ rest := by
  unfold Decoder.i16
  simp only [run_bind_ok, run_bits_ok, run_pure_ok]
  constructor
  · rintro ⟨b, middle, rfl, rfl, rfl⟩
    rfl
  · rintro rfl
    exact ⟨v.toBitVec, rest, rfl, rfl, rfl⟩

/-- What is read as an `i32` is its four bytes. -/
theorem run_i32_ok {v : Int32} :
    Decoder.i32.run input = .ok (v, rest) ↔ input = i32Bytes v ++ rest := by
  unfold Decoder.i32
  simp only [run_bind_ok, run_bits_ok, run_pure_ok]
  constructor
  · rintro ⟨b, middle, rfl, rfl, rfl⟩
    rfl
  · rintro rfl
    exact ⟨v.toBitVec, rest, rfl, rfl, rfl⟩

/-- What is read as an `i64` is its eight bytes. -/
theorem run_i64_ok {v : Int64} :
    Decoder.i64.run input = .ok (v, rest) ↔ input = i64Bytes v ++ rest := by
  unfold Decoder.i64
  simp only [run_bind_ok, run_bits_ok, run_pure_ok]
  constructor
  · rintro ⟨b, middle, rfl, rfl, rfl⟩
    rfl
  · rintro rfl
    exact ⟨v.toBitVec, rest, rfl, rfl, rfl⟩

/-- As many bytes as were asked for are taken, or none. -/
theorem run_decoderTake_ok {len : ℕ} {v : Bytes} :
    (Decoder.take len).run input = .ok (v, rest) ↔ v.length = len ∧ input = v ++ rest :=
  run_take_ok

/-- A length that fits is written as itself. -/
theorem i16_ofNat {n : ℕ} (h : n < 2 ^ 15) :
    ¬ Int16.ofNat n < 0 ∧ Int16.ofNat n ≠ -1 ∧ (Int16.ofNat n).toInt.toNat = n := by
  have hval := Int16.toInt_ofNat_of_lt h
  refine ⟨?_, ?_, by rw [hval, Int.toNat_natCast]⟩
  · rw [Int16.lt_iff_toInt_lt, hval]
    exact fun hneg => absurd hneg (by simp)
  · intro heq
    have hneg := congrArg Int16.toInt heq
    rw [hval] at hneg
    exact absurd hneg (by simp)

/-- A length below `2 ^ 31` is not mistaken for a negative one or for null. -/
theorem i32_ofNat {n : ℕ} (h : n < 2 ^ 31) :
    ¬ Int32.ofNat n < 0 ∧ Int32.ofNat n ≠ -1 ∧ (Int32.ofNat n).toInt.toNat = n := by
  have hval := Int32.toInt_ofNat_of_lt h
  refine ⟨?_, ?_, by rw [hval, Int.toNat_natCast]⟩
  · rw [Int32.lt_iff_toInt_lt, hval]
    exact fun hneg => absurd hneg (by simp)
  · intro heq
    have hneg := congrArg Int32.toInt heq
    rw [hval] at hneg
    exact absurd hneg (by simp)

/-- A length that is not negative is the one written for it. -/
theorem i16_ofNat_toNat {len : Int16} (h : ¬ len < 0) : Int16.ofNat len.toInt.toNat = len := by
  rw [Int16.lt_iff_toInt_lt] at h
  have h0 : 0 ≤ len.toInt := by simpa using h
  have hlt := len.toInt_lt
  rw [← Int16.toInt_inj, Int16.toInt_ofNat_of_lt (by omega), Int.toNat_of_nonneg h0]

/-- A length that is not negative is the number it stands for. -/
theorem i32_ofNat_toNat {len : Int32} (h : ¬ len < 0) : Int32.ofNat len.toInt.toNat = len := by
  rw [Int32.lt_iff_toInt_lt] at h
  have h0 : 0 ≤ len.toInt := by simpa using h
  have hlt := len.toInt_lt
  rw [← Int32.toInt_inj, Int32.toInt_ofNat_of_lt (by omega), Int.toNat_of_nonneg h0]

/-- A size field that has passed its lower bound, and the length it stands for. -/
theorem i32_size_iff {size min : Int32} {n : ℕ} (hmin : 0 ≤ min.toInt) :
    ¬ size < min ∧ n = size.toInt.toNat ↔
      min.toInt ≤ n ∧ n < 2 ^ 31 ∧ size = Int32.ofNat n := by
  rw [Int32.lt_iff_toInt_lt]
  constructor
  · rintro ⟨hle, rfl⟩
    have hmax := size.toInt_lt
    have hneg : ¬ size < 0 := by
      rw [Int32.lt_iff_toInt_lt, Int32.toInt_zero]
      omega
    exact ⟨by omega, by omega, (i32_ofNat_toNat hneg).symm⟩
  · rintro ⟨hle, hmax, rfl⟩
    rw [Int32.toInt_ofNat_of_lt hmax]
    exact ⟨by omega, by rw [Int.toNat_natCast]⟩

/-- Behind its length a string is taken as it stands, up to the bound. -/
theorem run_stringOf_ok {len : Int16} {v : Bytes} :
    (Decoder.stringOf len).run input = .ok (v, rest) ↔
      v.length ≤ maxStringLen ∧ len = Int16.ofNat v.length ∧ input = v ++ rest := by
  unfold Decoder.stringOf
  simp only [run_bind_ok, run_reject_ok, run_decoderTake_ok]
  constructor
  · rintro ⟨-, middle, ⟨hneg, rfl⟩, -, middle', ⟨hlong, rfl⟩, hlen, rfl⟩
    rw [hlen]
    exact ⟨Nat.le_of_not_lt hlong, (i16_ofNat_toNat hneg).symm, rfl⟩
  · rintro ⟨hlong, rfl, rfl⟩
    obtain ⟨hneg, -, hval⟩ := i16_ofNat (Nat.lt_of_le_of_lt hlong (by decide))
    rw [hval]
    exact ⟨(), _, ⟨hneg, rfl⟩, (), _, ⟨Nat.not_lt.mpr hlong, rfl⟩, rfl, rfl⟩

/-- The strings that are read are those within the bound. -/
theorem exact_string :
    Exact Decoder.stringBytes stringField (fun v => v.length ≤ maxStringLen) := by
  intro input v rest
  unfold Decoder.stringBytes
  simp only [run_bind_ok, run_i16_ok, run_stringOf_ok]
  constructor
  · rintro ⟨len, middle, rfl, hlong, rfl, rfl⟩
    exact ⟨hlong, by rw [stringField, List.append_assoc]⟩
  · rintro ⟨hlong, rfl⟩
    exact ⟨_, _, by rw [stringField, List.append_assoc], hlong, rfl, rfl⟩

/-- A nullable string is null or within the bound. -/
theorem exact_nullableString :
    Exact Decoder.nullableStringBytes nullableStringField
      (fun v => ∀ value, v = some value → value.length ≤ maxStringLen) := by
  intro input v rest
  unfold Decoder.nullableStringBytes
  simp only [run_bind_ok, run_i16_ok]
  constructor
  · rintro ⟨len, middle, rfl, hread⟩
    split at hread
    · next hnull =>
        obtain ⟨rfl, rfl⟩ := run_pure_ok.mp hread
        exact ⟨fun _ h => (nomatch h), by rw [hnull]; rfl⟩
    · obtain ⟨value, middle', hvalue, hread⟩ := run_bind_ok.mp hread
      obtain ⟨rfl, rfl⟩ := run_pure_ok.mp hread
      obtain ⟨hlong, rfl, rfl⟩ := run_stringOf_ok.mp hvalue
      refine ⟨?_, by rw [nullableStringField, stringField, List.append_assoc]⟩
      rintro _ ⟨⟩
      exact hlong
  · rintro ⟨hvalid, rfl⟩
    rcases v with _ | value
    · exact ⟨-1, rest, rfl, by rw [if_pos rfl]; rfl⟩
    · have hlong := hvalid value rfl
      obtain ⟨-, hnull, -⟩ := i16_ofNat (Nat.lt_of_le_of_lt hlong (by decide))
      refine ⟨_, value ++ rest, by rw [nullableStringField, stringField, List.append_assoc], ?_⟩
      rw [if_neg hnull]
      exact run_bind_ok.mpr ⟨value, rest, run_stringOf_ok.mpr ⟨hlong, rfl, rfl⟩, rfl⟩

/-- Nullable bytes are null or no longer than a frame. -/
theorem exact_bytes :
    Exact Decoder.bytes nullableBytesField
      (fun v => ∀ value, v = some value → value.length ≤ maxFrameLen) := by
  intro input v rest
  unfold Decoder.bytes
  simp only [run_bind_ok, run_i32_ok]
  constructor
  · rintro ⟨len, middle, rfl, hread⟩
    split at hread
    · next hnull =>
        obtain ⟨rfl, rfl⟩ := run_pure_ok.mp hread
        exact ⟨fun _ h => (nomatch h), by rw [hnull]; rfl⟩
    · simp only [run_bind_ok, run_reject_ok, run_decoderTake_ok, run_pure_ok] at hread
      obtain ⟨-, middle, ⟨hneg, rfl⟩, -, middle', ⟨hlong, rfl⟩, value, middle'', ⟨hlen, rfl⟩, rfl,
        rfl⟩ := hread
      refine ⟨?_, ?_⟩
      · rintro _ ⟨⟩
        rw [hlen]
        exact Nat.le_of_not_lt hlong
      · rw [nullableBytesField, bytesField, hlen, i32_ofNat_toNat hneg, List.append_assoc]
  · rintro ⟨hvalid, rfl⟩
    rcases v with _ | value
    · exact ⟨-1, rest, rfl, by rw [if_pos rfl]; rfl⟩
    · have hlong := hvalid value rfl
      obtain ⟨hneg, hnull, hval⟩ := i32_ofNat (Nat.lt_of_le_of_lt hlong (by decide))
      refine ⟨_, value ++ rest, by rw [nullableBytesField, bytesField, List.append_assoc], ?_⟩
      rw [if_neg hnull]
      simp only [run_bind_ok, run_reject_ok, run_decoderTake_ok, run_pure_ok]
      exact ⟨(), _, ⟨hneg, rfl⟩, (), _, ⟨by rw [hval]; exact Nat.not_lt.mpr hlong, rfl⟩, value,
        rest, ⟨hval.symm, rfl⟩, rfl, rfl⟩

/-- An array length is accepted up to the bound and takes nothing more. -/
theorem run_arrayLenOf_ok {len : Int32} {n : ℕ} :
    (Decoder.arrayLenOf len).run input = .ok (n, rest) ↔
      n ≤ maxArrayLen ∧ len = Int32.ofNat n ∧ input = rest := by
  unfold Decoder.arrayLenOf
  simp only [run_bind_ok, run_reject_ok, run_pure_ok]
  constructor
  · rintro ⟨-, middle, ⟨hneg, rfl⟩, -, middle', ⟨hlong, rfl⟩, rfl, rfl⟩
    exact ⟨Nat.le_of_not_lt hlong, (i32_ofNat_toNat hneg).symm, rfl⟩
  · rintro ⟨hlong, rfl, rfl⟩
    obtain ⟨hneg, -, hval⟩ := i32_ofNat (Nat.lt_of_le_of_lt hlong (by decide))
    exact ⟨(), _, ⟨hneg, rfl⟩, (), _, ⟨by rw [hval]; exact Nat.not_lt.mpr hlong, rfl⟩, hval, rfl⟩

/-- The array lengths that are read are those within the bound. -/
theorem exact_arrayLen :
    Exact Decoder.arrayLen arrayLenField (fun n => n ≤ maxArrayLen) := by
  intro input n rest
  unfold Decoder.arrayLen
  simp only [run_bind_ok, run_i32_ok, run_arrayLenOf_ok]
  constructor
  · rintro ⟨len, middle, rfl, hlong, rfl, rfl⟩
    exact ⟨hlong, rfl⟩
  · rintro ⟨hlong, rfl⟩
    exact ⟨_, rest, rfl, hlong, rfl, rfl⟩

/-- A nullable array length is null or within the bound. -/
theorem exact_nullableArrayLen :
    Exact Decoder.nullableArrayLen
      (fun n => match n with
        | some n => arrayLenField n
        | none => i32Bytes (-1))
      (fun v => ∀ n, v = some n → n ≤ maxArrayLen) := by
  intro input v rest
  unfold Decoder.nullableArrayLen
  simp only [run_bind_ok, run_i32_ok]
  constructor
  · rintro ⟨len, middle, rfl, hread⟩
    split at hread
    · next hnull =>
        obtain ⟨rfl, rfl⟩ := run_pure_ok.mp hread
        exact ⟨fun _ h => (nomatch h), by rw [hnull]⟩
    · obtain ⟨n, middle', hn, hread⟩ := run_bind_ok.mp hread
      obtain ⟨rfl, rfl⟩ := run_pure_ok.mp hread
      obtain ⟨hlong, rfl, rfl⟩ := run_arrayLenOf_ok.mp hn
      refine ⟨?_, rfl⟩
      rintro _ ⟨⟩
      exact hlong
  · rintro ⟨hvalid, rfl⟩
    rcases v with _ | n
    · exact ⟨-1, rest, rfl, by rw [if_pos rfl]; rfl⟩
    · have hlong := hvalid n rfl
      obtain ⟨-, hnull, -⟩ := i32_ofNat (Nat.lt_of_le_of_lt hlong (by decide))
      refine ⟨_, rest, rfl, ?_⟩
      rw [if_neg hnull]
      exact run_bind_ok.mpr ⟨n, rest, run_arrayLenOf_ok.mpr ⟨hlong, rfl, rfl⟩, rfl⟩

/-- **Arrays are exact** when their elements are. -/
theorem exact_array {α : Type} {item : Decoder α} {s : α → Bytes} {V : α → Prop}
    (h : Exact item s V) :
    Exact (Decoder.array item) (arrayField s)
      (fun items => items.length ≤ maxArrayLen ∧ ∀ a ∈ items, V a) := by
  intro input items rest
  unfold Decoder.array
  simp only [run_bind_ok, exact_arrayLen _ _ _, h.many _ _ _ _]
  constructor
  · rintro ⟨n, middle, ⟨hlong, rfl⟩, ⟨rfl, hall⟩, rfl⟩
    exact ⟨⟨hlong, hall⟩, by rw [arrayField, List.append_assoc]⟩
  · rintro ⟨⟨hlong, hall⟩, rfl⟩
    exact ⟨_, _, ⟨hlong, by rw [arrayField, List.append_assoc]⟩, ⟨rfl, hall⟩, rfl⟩

/-! ## The encoder prints the same spellings -/

theorem prints_i16 (v : Int16) : Prints (Encoder.i16 v) True (i16Bytes v) := Prints.put _

theorem prints_i32 (v : Int32) : Prints (Encoder.i32 v) True (i32Bytes v) := Prints.put _

theorem prints_i64 (v : Int64) : Prints (Encoder.i64 v) True (i64Bytes v) := Prints.put _

theorem prints_bool (v : Bool) : Prints (Encoder.bool v) True (boolField v) := Prints.put _

/-- A string is written if it is within the bound. -/
theorem prints_string (v : Bytes) :
    Prints (Encoder.string v) (v.length ≤ maxStringLen) (stringField v) := by
  refine ((Prints.refuse _).seq ((prints_i16 _).andThen (Prints.put v))).congr ?_ rfl
  have hmax : maxStringLen = 8192 := rfl
  rw [and_true]
  omega

theorem prints_nullableString_none :
    Prints (Encoder.nullableString none) True (nullableStringField none) := Prints.put _

/-- Bytes are written if they are no longer than a frame. -/
theorem prints_bytes (v : Bytes) :
    Prints (Encoder.bytes v) (v.length ≤ maxFrameLen) (bytesField v) := by
  refine ((Prints.refuse _).seq ((prints_i32 _).andThen (Prints.put v))).congr ?_ rfl
  have hmax : maxFrameLen = 1048576 := rfl
  rw [and_true]
  omega

/-- An array length is written if it is within the bound. -/
theorem prints_arrayLen (n : ℕ) :
    Prints (Encoder.arrayLen n) (n ≤ maxArrayLen) (arrayLenField n) := by
  refine ((Prints.refuse _).seq (prints_i32 _)).congr ?_ rfl
  have hmax : maxArrayLen = 16384 := rfl
  rw [and_true]
  omega

/-- An array is written if its length is within the bound and all its items are written. -/
theorem prints_array {α : Type} {item : α → Encoder Unit} {s : α → Bytes} {V : α → Prop}
    (h : ∀ a, Prints (item a) (V a) (s a)) (items : List α) :
    Prints (Encoder.array items item)
      (items.length ≤ maxArrayLen ∧ ∀ a ∈ items, V a) (arrayField s items) :=
  (prints_arrayLen _).seq (Prints.each h items)

/-- A response frame: the payload's length, the correlation id and the body. -/
def responseFrame (correlationId : Int32) (body : Bytes) : Bytes :=
  i32Bytes (Int32.ofNat (4 + body.length)) ++ (i32Bytes correlationId ++ body)

/-- **A response** is encoded exactly when its body is. -/
theorem response_eq_ok {body : Encoder Unit} {V : Prop} {w frame : Bytes} (h : Prints body V w) :
    Encoder.response correlationId body = .ok frame ↔ V ∧
      frame = responseFrame correlationId w := by
  have hfinish : Encoder.finish (i32Bytes 0 ++ i32Bytes correlationId ++ w) =
      responseFrame correlationId w := by
    have hpayload : (i32Bytes 0 ++ i32Bytes correlationId ++ w).length - 4 = 4 + w.length := by
      simp only [List.length_append, length_i32Bytes]
      omega
    rw [Encoder.finish, hpayload, List.append_assoc]
    exact congrArg _ (List.drop_left' (length_i32Bytes 0))
  unfold Encoder.response
  rcases hrun : body.run (i32Bytes 0 ++ i32Bytes correlationId) with error | r
  · simp only [bind, Except.bind, reduceCtorEq, false_iff]
    rintro ⟨hV, -⟩
    rw [(h _ _).mpr ⟨hV, rfl⟩] at hrun
    cases hrun
  · obtain ⟨hV, rfl⟩ := (h _ _).mp hrun
    simp only [bind, Except.bind, pure, Except.pure, Except.ok.injEq, hfinish, hV, true_and]
    exact eq_comm

/-- A body of fixed size always is. -/
theorem response_eq_ok_of_fixed {body : Encoder Unit} {w frame : Bytes} (h : Prints body True w) :
    Encoder.response correlationId body = .ok frame ↔ frame = responseFrame correlationId w := by
  rw [response_eq_ok h, true_and]

/-! ## The encoder fails on what is too large -/

/-- A string fails as too large or not at all. -/
theorem failsOnly_string (v : Bytes) : FailsOnly (Encoder.string v) Error.tooLarge :=
  FailsOnly.refuse.seq fun _ => (FailsOnly.put _).seq fun _ => FailsOnly.put _

/-- Bytes fail as too large or not at all. -/
theorem failsOnly_bytes (v : Bytes) : FailsOnly (Encoder.bytes v) Error.tooLarge :=
  FailsOnly.refuse.seq fun _ => (FailsOnly.put _).seq fun _ => FailsOnly.put _

/-- An array fails as too large, if its items do. -/
theorem failsOnly_array {α : Type} {item : α → Encoder Unit} {items : List α}
    (h : ∀ a ∈ items, FailsOnly (item a) Error.tooLarge) :
    FailsOnly (Encoder.array items item) Error.tooLarge :=
  (FailsOnly.refuse.seq fun _ => FailsOnly.put _).seq fun _ => FailsOnly.each h

/-- A response fails as its body does. -/
theorem response_error {body : Encoder Unit} {error x : Error} (h : FailsOnly body error)
    (hx : Encoder.response correlationId body = .error x) :
    x = error := by
  unfold Encoder.response at hx
  rcases hrun : body.run (i32Bytes 0 ++ i32Bytes correlationId) with y | r
  · rw [hrun] at hx
    cases hx
    exact h _ x hrun
  · rw [hrun] at hx
    cases hx

/-! ## Fields read back -/

theorem reads_i8 (v : Int8) : Reads Decoder.i8 (i8Bytes v) v := fun _ => run_i8_ok.mpr rfl

theorem reads_i16 (v : Int16) : Reads Decoder.i16 (i16Bytes v) v := fun _ => run_i16_ok.mpr rfl

theorem reads_i32 (v : Int32) : Reads Decoder.i32 (i32Bytes v) v := fun _ => run_i32_ok.mpr rfl

theorem reads_i64 (v : Int64) : Reads Decoder.i64 (i64Bytes v) v := fun _ => run_i64_ok.mpr rfl

/-- Bytes of the length asked for are read back. -/
theorem reads_take {n : ℕ} {bytes : Bytes} (h : bytes.length = n) :
    Reads (Decoder.take n) bytes bytes :=
  fun _ => run_decoderTake_ok.mpr ⟨h, rfl⟩

/-- A varlong is read back. -/
theorem reads_varlong (v : Int64) : Reads readVarlong (putVarlong v) v := by
  have hraw : Reads (readUvarint Error.incomplete .invalid 10) (putVarlong v)
      (UInt64.ofBitVec (zigzag v.toBitVec)) :=
    reads_uvarint _ _ (by decide) (Nat.lt_of_lt_of_le (UInt64.toNat_lt _) (by decide))
  have hread := hraw.map fun raw => Int64.ofBitVec (unzigzag raw.toBitVec)
  rw [UInt64.toBitVec_ofBitVec, unzigzag_zigzag] at hread
  exact hread

/-- Five groups of seven bits are enough for a zigzagged `i32`. -/
theorem zigzag_lt_five_groups (v : Int32) :
    (UInt32.ofBitVec (zigzag v.toBitVec)).toUInt64.toNat < 128 ^ 5 := by
  rw [UInt32.toNat_toUInt64]
  exact Nat.lt_of_lt_of_le (UInt32.toNat_lt _) (by decide)

/-- A varint is read back. -/
theorem reads_varint (v : Int32) : Reads readVarint (putVarint v) v := by
  have hsmall := zigzag_lt_five_groups v
  have hraw : Reads (readUvarint Error.incomplete .invalid 5) (putVarint v)
      (UInt32.ofBitVec (zigzag v.toBitVec)).toUInt64 := by
    unfold putVarint putUvarint
    rw [uvarintBytes_of_lt (show 4 ≤ 9 by decide) hsmall]
    exact reads_uvarint _ _ (by decide) hsmall
  have hread := hraw.map fun raw => Int32.ofBitVec (unzigzag raw.toUInt32.toBitVec)
  rw [UInt32.toUInt32_toUInt64, UInt32.toBitVec_ofBitVec, unzigzag_zigzag] at hread
  exact hread

/-! ## Varints read back -/

/-- The writing loop: the bound on the number of groups never cuts it short. -/
theorem putUvarint_eq (value : UInt64) :
    putUvarint value =
      if 0x80 ≤ value then (value.toUInt8 ||| 0x80) :: putUvarint (value >>> 7)
      else [value.toUInt8] := by
  have hshift : (value >>> 7).toNat = value.toNat / 128 := by
    rw [UInt64.toNat_shiftRight]
    exact Nat.shiftRight_eq_div_pow _ 7
  have hrest : putUvarint (value >>> 7) = uvarintBytes 8 (value.toNat / 128) := by
    have hlt := value.toNat_lt
    rw [putUvarint, hshift]
    exact uvarintBytes_of_lt (by decide) (by omega)
  have hmore : 0x80 ≤ value ↔ 128 ≤ value.toNat := UInt64.le_iff_toNat_le
  rw [hrest]
  simp only [hmore]
  rfl

/-- A number takes at most one byte for each group of seven bits. -/
theorem length_putUvarint_le (more : ℕ) {value : UInt64} (h : value.toNat < 128 ^ (more + 1)) :
    (putUvarint value).length ≤ more + 1 := by
  induction more generalizing value with
  | zero =>
      have hlast : ¬ 0x80 ≤ value := by
        rw [UInt64.le_iff_toNat_le]
        exact Nat.not_le.mpr h
      rw [putUvarint_eq, if_neg hlast]
      exact Nat.le_refl 1
  | succ more ih =>
      rw [putUvarint_eq]
      split
      · have hnext : (value >>> 7).toNat < 128 ^ (more + 1) := by
          rw [UInt64.toNat_shiftRight]
          exact (Nat.shiftRight_eq_div_pow _ 7).trans_lt (Nat.div_lt_of_lt_mul (by omega))
        rw [List.length_cons]
        exact Nat.succ_le_succ (ih hnext)
      · exact Nat.le_add_left 1 _

/-- **Varints round-trip** over the whole range of both types: they are no longer than their
reader allows, and are read back from the front of any string, which is left at what follows. -/
theorem varints_roundTrip (x : Int32) (y : Int64) (s : Bytes) :
    (putVarint x).length ≤ 5 ∧ (putVarlong y).length ≤ 10 ∧
      readVarint.run (putVarint x ++ s) = .ok (x, s) ∧
      readVarlong.run (putVarlong y ++ s) = .ok (y, s) := by
  refine ⟨length_putUvarint_le 4 ?_, length_putUvarint_le 9 ?_, reads_varint x s,
    reads_varlong y s⟩
  · exact zigzag_lt_five_groups x
  · exact Nat.lt_of_lt_of_le (UInt64.toNat_lt _) (by decide)

end CharlotteBroker.Wire
