import CharlotteBroker.Lib.Crc
import CharlotteBroker.Wire.Concatenation

/-!
# Short corruption of a record set

The checksum of a batch covers everything after the checksum field itself. A change within four
consecutive bytes of that part changes the checksum (`crc32_burst_ne`, an instance of the burst
theorem for checks of 32 bits).

That the decoder reports it is a matter of order. The length field, the magic byte and the stored
checksum lie before the covered part, so the changed batch is framed as before and passes the
checks up to the checksum (`whole_batchFields_changed`); and the batches before it are read as
before (`run_whileMore_changed`).

* `corruption_detected`: a short change in the covered part of a batch of an accepted set is always
  reported.
-/

namespace CharlotteBroker.Wire

open Lib Lib.Parser CharlotteBroker.Core

variable {seen last : List EncodedBatch × Option (Int64 × Int16)}
  {identity : Option (Int64 × Int16)}

/-! ## The checksum -/

/-- The test for the low bit, on bit vectors. -/
theorem low_bit_iff (crc : UInt32) : crc &&& 1 ≠ 0 ↔ crc.toBitVec.getLsbD 0 = true := by
  have hbits : (crc &&& 1).toBitVec =
      BitVec.setWidth 32 (BitVec.ofBool (crc.toBitVec.getLsbD 0)) := by
    rw [UInt32.toBitVec_and]
    exact BitVec.and_one_eq_setWidth_ofBool_getLsbD
  rw [ne_eq, ← UInt32.toBitVec_inj, hbits]
  cases crc.toBitVec.getLsbD 0 with
  | false => decide
  | true => decide

/-- One bit of the source's checksum is one step of the register. -/
theorem toBitVec_crcBit (polynomial crc : UInt32) :
    (crcBit polynomial crc).toBitVec = crcStep polynomial.toBitVec crc.toBitVec := by
  unfold crcBit crcStep
  simp only [low_bit_iff]
  split
  · rfl
  · rfl

/-- Several bits are as many steps of the register. -/
theorem toBitVec_crcBits (polynomial crc : UInt32) (count : ℕ) :
    (Nat.repeat (crcBit polynomial) count crc).toBitVec =
      crcShift polynomial.toBitVec count crc.toBitVec := by
  induction count with
  | zero => rfl
  | succ count ih => rw [crcShift_succ, ← ih, ← toBitVec_crcBit]; rfl

/-- The checksum is the register after the bytes, inverted. -/
theorem toBitVec_crc32 (polynomial : UInt32) (bytes : Bytes) :
    (crc32 polynomial bytes).toBitVec =
      ~~~ crcRun polynomial.toBitVec (BitVec.allOnes 32) bytes := by
  have hfold : ∀ crc : UInt32,
      (bytes.foldl (fun crc byte => Nat.repeat (crcBit polynomial) 8 (crc ^^^ byte.toUInt32))
        crc).toBitVec = crcRun polynomial.toBitVec crc.toBitVec bytes := by
    induction bytes with
    | nil => exact fun crc => rfl
    | cons byte bytes ih =>
        intro crc
        rw [List.foldl_cons, ih, toBitVec_crcBits]
        rfl
  exact congrArg (~~~ ·) (hfold _)

/-- Two strings that differ within four consecutive bytes have different checksums. -/
theorem crc32_burst_ne {polynomial : UInt32} (hpoly : polynomial.toBitVec.msb = true)
    {before burst burst' after : Bytes} (hshort : burst.length ≤ 4)
    (hlen : burst'.length = burst.length) (hne : burst' ≠ burst) :
    crc32 polynomial (before ++ (burst' ++ after)) ≠
      crc32 polynomial (before ++ (burst ++ after)) := by
  rw [ne_eq, ← UInt32.toBitVec_inj, toBitVec_crc32, toBitVec_crc32, BitVec.not_inj]
  exact crcRun_burst_ne hpoly _ (by omega) hlen hne

/-! ## Batches as they are framed -/

/-- A batch of a record set: its base offset, and the body that its length field frames. The
body is long enough for the header of a batch and short enough for the field. -/
structure BatchFrame where
  baseOffset : Int64
  body : Bytes
  le_length : 49 ≤ body.length
  length_lt : body.length < 2 ^ 31

namespace BatchFrame

/-- The base offset and the length field. -/
def head (frame : BatchFrame) : Bytes :=
  i64Bytes frame.baseOffset ++ i32Bytes (Int32.ofNat frame.body.length)

/-- The bytes of a batch in the set. -/
def bytes (frame : BatchFrame) : Bytes := frame.head ++ frame.body

/-- Where the part begins that the checksum covers: after the base offset, the length, the leader
epoch, the magic byte and the checksum. -/
def coveredStart : ℕ := 8 + 4 + 4 + 1 + 4

/-- The batch with another body of the same length. -/
def withBody (frame : BatchFrame) (body : Bytes) (h : body.length = frame.body.length) :
    BatchFrame where
  baseOffset := frame.baseOffset
  body := body
  le_length := h ▸ frame.le_length
  length_lt := h ▸ frame.length_lt

/-- Another body of the same length has the same head. -/
theorem head_withBody (frame : BatchFrame) {body : Bytes} (h : body.length = frame.body.length) :
    (frame.withBody body h).head = frame.head := by
  unfold head withBody
  rw [h]

/-- Base offset and length take twelve bytes. -/
theorem length_head (frame : BatchFrame) : frame.head.length = 12 := by
  simp only [head, List.length_append, length_i64Bytes, length_i32Bytes]

/-- A framed batch takes twelve bytes and its body. -/
theorem length_bytes (frame : BatchFrame) : frame.bytes.length = 12 + frame.body.length := by
  rw [bytes, List.length_append, length_head]

/-- A framed batch is not empty. -/
theorem bytes_append_ne_nil (frame : BatchFrame) (rest : Bytes) : frame.bytes ++ rest ≠ [] := by
  intro h
  have hlen := congrArg List.length h
  rw [List.length_append, length_bytes, List.length_nil] at hlen
  omega

end BatchFrame

/-- The decoder takes a batch as it is framed. -/
theorem run_readBatch_frame (identity : Option (Int64 × Int16)) (frame : BatchFrame)
    (rest : Bytes) :
    (readBatch identity).run (frame.bytes ++ rest) =
      (whole .invalid (batchFields identity frame.body) frame.body).map (·, rest) := by
  obtain ⟨-, -, hval⟩ := i32_ofNat frame.length_lt
  have hmin := frame.le_length
  have hlong : ¬ (frame.bytes ++ rest).length < 12 := by
    rw [List.length_append, frame.length_bytes]
    omega
  have hlen : ¬ Int32.ofNat frame.body.length < 49 := by
    rw [Int32.lt_iff_toInt_lt, Int32.toInt_ofNat_of_lt frame.length_lt]
    have h : ¬ (frame.body.length : Int) < 49 := by omega
    exact h
  unfold readBatch
  rw [run_bind_of_ok (run_get_ok.mpr ⟨rfl, rfl⟩),
    run_bind_of_ok (run_reject_neg _ _ hlong)]
  rw [BatchFrame.bytes, BatchFrame.head, List.append_assoc, List.append_assoc,
    run_bind_of_ok (reads_i64 frame.baseOffset _), run_bind_of_ok (reads_i32 _ _),
    run_bind_of_ok (run_reject_neg _ _ hlen), run_bind_of_ok (reads_take hval.symm rest)]
  rcases whole .invalid (batchFields identity frame.body) frame.body with error | batch
  · rfl
  · rfl

/-- A round of the loop reads one framed batch and leaves the rest. -/
theorem run_nextBatch_frame_ok {next : List EncodedBatch × Option (Int64 × Int16)}
    {frame : BatchFrame} {rest left : Bytes} :
    (nextBatch seen).run (frame.bytes ++ rest) = .ok (next, left) ↔
      ∃ batch, whole .invalid (batchFields seen.2 frame.body) frame.body = .ok batch ∧
        next = (seen.1 ++ [batch], batch.identity) ∧ left = rest := by
  unfold nextBatch
  simp only [run_bind_ok, run_pure_ok, run_readBatch_frame]
  generalize whole .invalid (batchFields seen.2 frame.body) frame.body = result
  rcases result with error | batch
  · simp [Except.map]
  · simp [Except.map, eq_comm, and_comm]

/-- A set that the loop reads to its end is a sequence of batches. -/
theorem exists_frames_of_run {input rest : Bytes}
    (h : (whileMore nextBatch seen).run input = .ok (last, rest)) :
    ∃ frames : List BatchFrame, input = frames.flatMap BatchFrame.bytes := by
  induction seen, input using whileMore_induction consumes_nextBatch with
  | hnil seen => exact ⟨[], rfl⟩
  | hcons seen b input ih =>
      rw [whileMore_cons consumes_nextBatch] at h
      obtain ⟨next, middle, hnext, hrun⟩ := run_bind_ok.mp h
      obtain ⟨frames, hframes⟩ := ih next middle hnext hrun
      obtain ⟨batch, left, hbatch, hpure⟩ := run_bind_ok.mp hnext
      obtain ⟨-, rfl⟩ := run_pure_ok.mp hpure
      obtain ⟨baseOffset, body, hmin, hmax, -, hinput⟩ := run_readBatch_ok.mp hbatch
      refine ⟨⟨baseOffset, body, hmin, hmax⟩ :: frames, ?_⟩
      rw [hinput, List.flatMap_cons, ← hframes, BatchFrame.bytes, BatchFrame.head]
      simp only [List.append_assoc]

/-! ## A batch that has been changed -/

/-- A batch with the same fields before the covered part, which has another checksum. -/
structure Changed (frame frame' : BatchFrame) : Prop where
  header : frame'.body.take 9 = frame.body.take 9
  crc : crc32c (frame'.body.drop 9) ≠ crc32c (frame.body.drop 9)

/-- Up to four bytes exchanged under the checksum change the batch. -/
theorem changed_of_window {frame : BatchFrame} {lead window window' tail : Bytes}
    (hbody : frame.body = lead ++ (window ++ tail)) (hlead : 9 ≤ lead.length)
    (hshort : window.length ≤ 4) (hlen : window'.length = window.length) (hne : window' ≠ window)
    (hlen' : (lead ++ (window' ++ tail)).length = frame.body.length) :
    Changed frame (frame.withBody (lead ++ (window' ++ tail)) hlen') where
  header := by
    rw [hbody]
    exact (List.take_append_of_le_length hlead).trans (List.take_append_of_le_length hlead).symm
  crc := by
    rw [hbody, List.drop_append_of_le_length hlead]
    show crc32c ((lead ++ (window' ++ tail)).drop 9) ≠ _
    rw [List.drop_append_of_le_length hlead]
    exact crc32_burst_ne (by decide) hshort hlen hne

/-- A batch of version two with another checksum is refused for it. -/
theorem run_batchFields_checksum {batch covered : Bytes} {epoch crc : Int32} {magic : Int8}
    (hmagic : ¬ magic ≠ 2) (hcrc : crc32c (batch.drop 9) ≠ crc.toUInt32) :
    (batchFields identity batch).run
      (i32Bytes epoch ++ (i8Bytes magic ++ (i32Bytes crc ++ covered))) = .error .checksum := by
  unfold batchFields
  rw [run_bind_of_ok (reads_i32 epoch _), run_bind_of_ok (reads_i8 magic _),
    run_bind_of_ok (run_reject_neg _ _ hmagic), run_bind_of_ok (reads_i32 crc _)]
  exact run_bind_of_error (run_reject_pos _ _ hcrc)

/-- The checksum is the first thing that is wrong with a changed batch. -/
theorem whole_batchFields_changed {frame frame' : BatchFrame} (hchanged : Changed frame frame')
    {batch : EncodedBatch}
    (h : whole .invalid (batchFields identity frame.body) frame.body = .ok batch) :
    whole .invalid (batchFields identity frame'.body) frame'.body = .error .checksum := by
  obtain ⟨epoch, _, hepoch, hrun⟩ := run_bind_ok.mp (whole_eq_ok.mp h)
  obtain ⟨magic, _, hmagic, hrun⟩ := run_bind_ok.mp hrun
  obtain ⟨_, _, hcheck, hrun⟩ := run_bind_ok.mp hrun
  obtain ⟨htwo, rfl⟩ := run_reject_ok.mp hcheck
  obtain ⟨crc, covered, hcrc, hrun⟩ := run_bind_ok.mp hrun
  obtain ⟨_, _, hcheck, -⟩ := run_bind_ok.mp hrun
  obtain ⟨hsum, -⟩ := run_reject_ok.mp hcheck
  rw [run_i8_ok.mp hmagic, run_i32_ok.mp hcrc] at hepoch
  -- the fields before the covered part are those of the batch that was accepted
  have hheader : frame'.body.take 9 = i32Bytes epoch ++ (i8Bytes magic ++ i32Bytes crc) := by
    rw [hchanged.header, run_i32_ok.mp hepoch, ← List.append_assoc (i8Bytes magic),
      ← List.append_assoc]
    exact List.take_left' (by simp)
  have hbody : frame'.body =
      i32Bytes epoch ++ (i8Bytes magic ++ (i32Bytes crc ++ frame'.body.drop 9)) := by
    rw [← List.append_assoc (i8Bytes magic), ← List.append_assoc, ← hheader, List.take_append_drop]
  have hsum' : crc32c (frame'.body.drop 9) ≠ crc.toUInt32 := by
    rw [← not_not.mp hsum]
    exact hchanged.crc
  have herror : (batchFields identity frame'.body).run frame'.body = .error .checksum := by
    conv_lhs => arg 2; rw [hbody]
    exact run_batchFields_checksum htwo hsum'
  unfold whole
  rw [herror]
  rfl

/-! ## A set that has been changed -/

/-- The loop reads the batches before a changed one as before, and reports the changed one. -/
theorem run_whileMore_changed {frame frame' : BatchFrame} (hchanged : Changed frame frame')
    (before : List BatchFrame) (after : Bytes) {rest : Bytes}
    (h : (whileMore nextBatch seen).run (before.flatMap BatchFrame.bytes ++ (frame.bytes ++ after)) =
      .ok (last, rest)) :
    (whileMore nextBatch seen).run (before.flatMap BatchFrame.bytes ++ (frame'.bytes ++ after)) =
      .error .checksum := by
  induction before generalizing seen with
  | nil =>
      rw [List.flatMap_nil, List.nil_append] at h ⊢
      rw [whileMore_of_ne_nil consumes_nextBatch _ (frame.bytes_append_ne_nil _)] at h
      rw [whileMore_of_ne_nil consumes_nextBatch _ (frame'.bytes_append_ne_nil _)]
      obtain ⟨_, _, hnext, -⟩ := run_bind_ok.mp h
      obtain ⟨batch, hwhole, -, -⟩ := run_nextBatch_frame_ok.mp hnext
      have herror : (readBatch seen.2).run (frame'.bytes ++ after) = .error .checksum := by
        rw [run_readBatch_frame, whole_batchFields_changed hchanged hwhole]
        rfl
      exact run_bind_of_error (run_bind_of_error herror)
  | cons first before ih =>
      rw [List.flatMap_cons, List.append_assoc] at h ⊢
      rw [whileMore_of_ne_nil consumes_nextBatch _ (first.bytes_append_ne_nil _)] at h ⊢
      obtain ⟨next, _, hnext, hrun⟩ := run_bind_ok.mp h
      obtain ⟨batch, hwhole, hbatch, rfl⟩ := run_nextBatch_frame_ok.mp hnext
      rw [run_bind_of_ok (run_nextBatch_frame_ok.mpr ⟨batch, hwhole, hbatch, rfl⟩)]
      exact ih hrun

/-- Four bytes cut out of a string. -/
theorem exists_window {bytes : Bytes} {k : ℕ} (h : k + 4 ≤ bytes.length) :
    ∃ lead window tail, bytes = lead ++ (window ++ tail) ∧ lead.length = k ∧ window.length = 4 := by
  refine ⟨bytes.take k, (bytes.drop k).take 4, (bytes.drop k).drop 4, ?_, ?_, ?_⟩
  · rw [List.take_append_drop, List.take_append_drop]
  · rw [List.length_take]
    omega
  · rw [List.length_take, List.length_drop]
    omega

/-- A string that agrees with `before ++ window ++ after` outside the window is that string with
another window. -/
theorem eq_append_of_agree {modified before window after : Bytes}
    (hlen : modified.length = (before ++ (window ++ after)).length)
    (hagree : ∀ i, i < before.length ∨ before.length + window.length ≤ i →
      modified[i]? = (before ++ (window ++ after))[i]?) :
    ∃ window', window'.length = window.length ∧ modified = before ++ (window' ++ after) := by
  have hbefore : modified.take before.length = before := by
    apply List.ext_getElem?
    intro i
    rw [List.getElem?_take]
    split
    · next hi => rw [hagree i (.inl hi), List.getElem?_append_left hi]
    · next hi => rw [List.getElem?_eq_none (Nat.le_of_not_lt hi)]
  have hafter : modified.drop (before.length + window.length) = after := by
    apply List.ext_getElem?
    intro i
    rw [List.getElem?_drop, hagree _ (.inr (by omega)), List.getElem?_append_right (by omega),
      List.getElem?_append_right (by omega)]
    exact congrArg (after[·]?) (by omega)
  refine ⟨(modified.drop before.length).take window.length, ?_, ?_⟩
  · simp only [List.length_append] at hlen
    rw [List.length_take, List.length_drop]
    omega
  · conv_lhs => rw [← List.take_append_drop before.length modified, hbefore,
      ← List.take_append_drop window.length (modified.drop before.length), List.drop_drop, hafter]

/-- The four bytes from `start` on lie in the covered part of one of the batches of the set. -/
def CoveredWindow (recordSet : Bytes) (start : ℕ) : Prop :=
  ∃ (before : List BatchFrame) (batch : BatchFrame) (after : List BatchFrame),
    recordSet = (before ++ batch :: after).flatMap BatchFrame.bytes ∧
      (before.flatMap BatchFrame.bytes).length + BatchFrame.coveredStart ≤ start ∧
      start + 4 ≤ (before.flatMap BatchFrame.bytes).length + batch.bytes.length

/-- The magic byte of the set lies before every covered part. -/
theorem CoveredWindow.magic_lt {recordSet : Bytes} {start : ℕ} (h : CoveredWindow recordSet start) :
    16 < start := by
  obtain ⟨before, batch, after, -, hlo, -⟩ := h
  have hstart : BatchFrame.coveredStart = 21 := rfl
  omega

/-- One or more bytes of the set are changed, all of them among the four from `start` on. -/
structure ChangesWithin (recordSet modified : Bytes) (start : ℕ) : Prop where
  length_eq : modified.length = recordSet.length
  ne : modified ≠ recordSet
  agree : ∀ i, i < start ∨ start + 4 ≤ i → modified[i]? = recordSet[i]?

/-- A change within a covered window is a changed batch. -/
theorem exists_changed {recordSet modified : Bytes} {start : ℕ}
    (hcovered : CoveredWindow recordSet start) (hchange : ChangesWithin recordSet modified start) :
    ∃ (before : List BatchFrame) (frame frame' : BatchFrame) (after : Bytes),
      Changed frame frame' ∧
        recordSet = before.flatMap BatchFrame.bytes ++ (frame.bytes ++ after) ∧
        modified = before.flatMap BatchFrame.bytes ++ (frame'.bytes ++ after) := by
  obtain ⟨before, batch, after, hset, hlo, hhi⟩ := hcovered
  have hstart : BatchFrame.coveredStart = 12 + 9 := rfl
  rw [batch.length_bytes] at hhi
  rw [List.flatMap_append, List.flatMap_cons] at hset
  -- the window is cut out of the body of its batch
  obtain ⟨lead, window, tail, hbody, hlead, hwindow⟩ := @exists_window batch.body
    (start - (before.flatMap BatchFrame.bytes).length - 12) (by omega)
  have hsplit : recordSet = before.flatMap BatchFrame.bytes ++ (batch.head ++ lead) ++
      (window ++ (tail ++ after.flatMap BatchFrame.bytes)) := by
    rw [hset, BatchFrame.bytes, hbody]
    simp only [List.append_assoc]
  have hfront : (before.flatMap BatchFrame.bytes ++ (batch.head ++ lead)).length = start := by
    rw [List.length_append, List.length_append, batch.length_head]
    omega
  -- so the change is another window in its place
  obtain ⟨window', hlen, hmodified⟩ := eq_append_of_agree (hsplit ▸ hchange.length_eq)
    (by rw [hfront, hwindow, ← hsplit]; exact hchange.agree)
  have hne : window' ≠ window := by
    rintro rfl
    exact hchange.ne (hmodified.trans hsplit.symm)
  have hlen' : (lead ++ (window' ++ tail)).length = batch.body.length := by
    simp only [hbody, List.length_append, hlen]
  refine ⟨before, batch, batch.withBody _ hlen', after.flatMap BatchFrame.bytes,
    changed_of_window hbody (by omega) (by omega) hlen hne hlen', hset, ?_⟩
  rw [hmodified, BatchFrame.bytes, batch.head_withBody, BatchFrame.withBody]
  simp only [List.append_assoc]

/-- **Short corruption is detected.** A v2 record set that the decoder accepts is a sequence of
batches; and whatever is changed within four consecutive bytes of the part that the checksum of one
of them covers, the decoder reports the checksum. -/
theorem corruption_detected (recordSet : Bytes) (decoded : DecodedRecordBatch)
    (hmagic : recordSet[16]? = some 2)
    (h : decodeRecordBatchesWithIdentity recordSet = .ok decoded) :
    (∃ frames : List BatchFrame, recordSet = frames.flatMap BatchFrame.bytes) ∧
      ∀ (modified : Bytes) (start : ℕ), CoveredWindow recordSet start →
        ChangesWithin recordSet modified start →
        decodeRecordBatchesWithIdentity modified = .error .checksum := by
  obtain ⟨batches, hread, -⟩ := readBatches_of_decoded hmagic h
  refine ⟨exists_frames_of_run hread, fun modified start hcovered hchange => ?_⟩
  have hmagic' : modified[16]? = some 2 := by
    rw [hchange.agree 16 (.inl hcovered.magic_lt), hmagic]
  obtain ⟨before, frame, frame', after, hchanged, rfl, rfl⟩ := exists_changed hcovered hchange
  rw [decodeRecordBatchesWithIdentity_v2 hmagic', readBatches,
    run_whileMore_changed hchanged before after hread]
  rfl

/-- The batch of `producerBatch` as it is framed. -/
def producerFrame (attributes : Int16) (producer : Int64 × Int16) : BatchFrame where
  baseOffset := 0
  body := (producerBatch attributes producer).drop 12
  le_length := by simp [producerBatch, batchBody]
  length_lt := by simp [producerBatch, batchBody]

/-- Two batches in a row. -/
def twoBatches : Bytes := producerBatch 0 (-1, -1) ++ producerBatch 0x10 (7, 2)

/-- A byte changed in the record of the second of two batches. -/
theorem corruption_detected_second :
    decodeRecordBatchesWithIdentity twoBatches =
        .ok ⟨[⟨0, none, some [97]⟩, ⟨0, none, some [97]⟩], some (7, 2)⟩ ∧
      decodeRecordBatchesWithIdentity (twoBatches.set 131 0xff) = .error .checksum := by
  have haccepted : decodeRecordBatchesWithIdentity twoBatches =
      .ok ⟨[⟨0, none, some [97]⟩, ⟨0, none, some [97]⟩], some (7, 2)⟩ := by decide +kernel
  have hcovered : CoveredWindow twoBatches 130 :=
    ⟨[producerFrame 0 (-1, -1)], producerFrame 0x10 (7, 2), [], by decide +kernel,
      by decide +kernel, by decide +kernel⟩
  have hchange : ChangesWithin twoBatches (twoBatches.set 131 0xff) 130 := by
    refine ⟨List.length_set, by decide +kernel, fun i hi => ?_⟩
    exact List.getElem?_set_ne (by omega)
  exact ⟨haccepted, (corruption_detected _ _ (by decide +kernel) haccepted).2 _ _ hcovered hchange⟩

end CharlotteBroker.Wire
