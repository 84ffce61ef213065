import CharlotteBroker.Core.Windows
import CharlotteBroker.Wire.ReadBack

/-!
# The offset range of a fetched batch

A batch's header declares the offsets it spans: a base offset and the delta of the last record. Both
are read back from the bytes of a fetch response (`batchAt`, `batchRange`) and compared with the
records of the window (`DeclaresRange`).

`encode_record_batch` takes the delta from the number of records, while it takes each record's own
delta from the stored offset. The two agree exactly when the window has no holes
(`declaresRange_iff`), which a read-committed fetch does not ensure (`not_declaresRange_hole`).
-/

namespace CharlotteBroker.Wire

open Lib Lib.Parser CharlotteBroker.Core

variable {topic : Topic (FetchPartitionResult (List Record))}
  {partition : FetchPartitionResult (List Record)} {response : FetchResponse (List Record)}

/-- The offsets a batch header declares. -/
structure OffsetRange where
  baseOffset : Int64
  lastOffsetDelta : Int32
  deriving DecidableEq, Repr

/-- The header of a batch as far as its last offset delta. -/
def readRange : Decoder OffsetRange := do
  let baseOffset ← Decoder.i64
  let _batchLength ← Decoder.i32
  let _partitionLeaderEpoch ← Decoder.i32
  let _magic ← Decoder.i8
  let _crc ← Decoder.i32
  let _attributes ← Decoder.i16
  let lastOffsetDelta ← Decoder.i32
  return ⟨baseOffset, lastOffsetDelta⟩

/-- The range the first batch of a record set declares. -/
def batchRange (records : Bytes) : Option OffsetRange :=
  match readRange.run records with
  | .ok (range, _) => some range
  | .error _ => none

/-- A fetch response, after its length and its correlation id. -/
def readFetchFrame : Decoder (FetchResponse Bytes) := do
  let _length ← Decoder.i32
  let _correlationId ← Decoder.i32
  readFetch

/-- The record set of the `j`-th partition of the `i`-th topic of a fetch response. -/
def recordsAt (response : FetchResponse Bytes) (i j : ℕ) : Option Bytes := do
  let topic ← response.topics[i]?
  let partition ← topic.partitions[j]?
  return partition.records

/-- The record set at this place of a frame. -/
def batchAt (frame : Bytes) (i j : ℕ) : Option Bytes :=
  match readFetchFrame.run frame with
  | .ok (response, _) => recordsAt response i j
  | .error _ => none

/-- The batch at this place declares the range of the records: it is based at the offset of the
first, and base and last delta give the offset of the last. -/
def DeclaresRange (frame : Bytes) (i j : ℕ) (records : List Record) : Prop :=
  ∃ batch range first last, batchAt frame i j = some batch ∧ batchRange batch = some range ∧
    records.head? = some first ∧ records.getLast? = some last ∧
    range.baseOffset = Int64.ofInt first.offset ∧
    range.baseOffset + range.lastOffsetDelta.toInt64 = Int64.ofInt last.offset ∧
    first.offset + range.lastOffsetDelta.toInt = last.offset

/-! ## What is declared -/

/-- A written batch declares its base offset and its last offset delta. -/
theorem batchRange_batchBytes (baseOffset : Int) (records : List Record) :
    batchRange (batchBytes baseOffset records) =
      some ⟨Int64.ofInt baseOffset, Int32.ofNat (records.length - 1)⟩ := by
  unfold batchRange batchBytes recordsBody batchBody recordsCovered coveredBytes
  simp only [List.append_assoc]
  have hreads : ∀ (length : Int32) (crc : UInt32) (rest : Bytes), readRange.run
      (i64Bytes (Int64.ofInt baseOffset) ++ (i32Bytes length ++ (i32Bytes (-1) ++ ([2] ++
        (u32Bytes crc ++ (i16Bytes 0 ++ (i32Bytes (Int32.ofNat (records.length - 1)) ++
          rest))))))) =
      .ok (⟨Int64.ofInt baseOffset, Int32.ofNat (records.length - 1)⟩, rest) := by
    intro length crc rest
    have hcrc : u32Bytes crc = i32Bytes crc.toInt32 := rfl
    have hrange : Reads readRange (i64Bytes (Int64.ofInt baseOffset) ++ (i32Bytes length ++
        (i32Bytes (-1) ++ (i8Bytes 2 ++ (i32Bytes crc.toInt32 ++ (i16Bytes 0 ++
          i32Bytes (Int32.ofNat (records.length - 1)))))))) _ :=
      (reads_i64 _).bind ((reads_i32 _).bind ((reads_i32 _).bind ((reads_i8 _).bind
        ((reads_i32 _).bind ((reads_i16 _).bind ((reads_i32 _).bind_end (Reads.pure _)))))))
    have hrun := hrange rest
    simp only [List.append_assoc] at hrun
    rw [hcrc]
    exact hrun
  rw [hreads]

/-- A fetch response that fits is read back. -/
theorem reads_fetchFrame {correlationId : Int32} {response : FetchResponse (List Record)}
    (h : response.topics.length ≤ maxArrayLen ∧
      ∀ topic ∈ response.topics, TopicFits FetchPartitionResult.Fits topic) :
    Reads readFetchFrame (responseFrame correlationId (fetchBody response.onWire))
      response.onWire := by
  unfold responseFrame readFetchFrame
  exact (reads_i32 _).bind ((reads_i32 _).bind (reads_fetch h))

/-- At a place of the response stand the records of that place. -/
theorem recordsAt_onWire {i j : ℕ} (htopic : response.topics[i]? = some topic)
    (hpartition : topic.partitions[j]? = some partition) :
    recordsAt response.onWire i j = some (recordSet partition.records) := by
  simp [recordsAt, FetchResponse.onWire, htopic, hpartition, FetchPartitionResult.mapRecords]

/-- The batch at a place of a frame is that of the response read from it. -/
theorem batchAt_of_run {frame rest : Bytes} {response : FetchResponse Bytes}
    (h : readFetchFrame.run frame = .ok (response, rest)) (i j : ℕ) :
    batchAt frame i j = recordsAt response i j := by
  rw [batchAt, h]

/-- The batch at a place of an encoded response holds the records of that place. -/
theorem batchAt_of_encodeFetch {correlationId : Int32} {frame : Bytes}
    (h : encodeFetch correlationId response = .ok frame) {i j : ℕ}
    (htopic : response.topics[i]? = some topic) (hpartition : topic.partitions[j]? = some partition) :
    batchAt frame i j = some (recordSet partition.records) := by
  obtain ⟨hfits, hframe⟩ := encodeFetch_eq_ok.mp h
  have hreads := @reads_fetchFrame correlationId response hfits
  rw [← hframe] at hreads
  have hrun := hreads []
  rw [List.append_nil] at hrun
  rw [batchAt_of_run hrun, recordsAt_onWire htopic hpartition]

/-- The last offset delta of a batch within the bound does not wrap around. -/
theorem toInt_lastOffsetDelta {records : List Record} (hlen : records.length ≤ maxRecords) :
    (Int32.ofNat (records.length - 1)).toInt = ((records.length - 1 : ℕ) : Int) := by
  unfold maxRecords at hlen
  exact Int32.toInt_ofNat_of_lt (by omega)

/-- **When the header is right.** For every reachable log, every fetch of it that returns records
and every place of every response that carries them: the batch `encode_fetch` writes there declares
the range of the records exactly when no hidden batch lies between two records of the window. -/
theorem declaresRange_iff (limit : Option ℕ) (ops : List LogOp) (args : FetchArgs)
    {window : FetchWindow} {correlationId : Int32} {response : FetchResponse (List Record)}
    {frame : Bytes} {i j : ℕ} {topic : Topic (FetchPartitionResult (List Record))}
    {partition : FetchPartitionResult (List Record)}
    (hfetch : ((newLog limit).run ops).fetchWithIsolation args.offset args.maxRecords args.maxBytes
      args.readCommitted = .ok window) (hne : window.records ≠ [])
    (hencode : encodeFetch correlationId response = .ok frame)
    (htopic : response.topics[i]? = some topic)
    (hpartition : topic.partitions[j]? = some partition)
    (hrecords : partition.records = window.records) :
    DeclaresRange frame i j window.records ↔ ((newLog limit).run ops).Unbroken args := by
  set log := (newLog limit).run ops
  have hlog : log.WellFormed := PartitionLog.run_wellFormed (PartitionLog.wellFormed_newLog _) ops
  have htaken : window.records = log.taken args := by
    unfold PartitionLog.fetchWithIsolation at hfetch
    rw [PartitionLog.fetchInner_eq hlog] at hfetch
    split at hfetch
    · injection hfetch with hwindow
      rw [← hwindow]
      rfl
    · simp at hfetch
  obtain ⟨first, others, hcons⟩ := List.exists_cons_of_ne_nil hne
  obtain ⟨last, hlast⟩ := Option.isSome_iff_exists.mp (List.getLast?_isSome.mpr hne)
  have hfirst : window.records.head? = some first := by rw [hcons, List.head?_cons]
  have hfits := ((encodeFetch_eq_ok.mp hencode).1.2 topic (List.mem_of_getElem? htopic)).2.2
    partition (List.mem_of_getElem? hpartition)
  have hlen : window.records.length ≤ maxRecords := hrecords ▸ hfits.2.1
  have hbatch : batchAt frame i j = some (batchBytes first.offset window.records) := by
    rw [batchAt_of_encodeFetch hencode htopic hpartition, hrecords, hcons, recordSet]
  have hpos := List.length_pos_of_ne_nil hne
  have hcast : ((window.records.length - 1 : ℕ) : Int) = (window.records.length : Int) - 1 := by
    omega
  have hdelta := toInt_lastOffsetDelta hlen
  rw [← hlog.consecutive_iff_unbroken (htaken ▸ hfirst) (htaken ▸ hlast), ← htaken, ← hcast,
    ← hdelta]
  constructor
  · rintro ⟨batch, range, first', last', hat, hrange, hfirst', hlast', -, -, heq⟩
    rw [hbatch, Option.some.injEq] at hat
    rw [← hat, batchRange_batchBytes, Option.some.injEq] at hrange
    rw [hfirst, Option.some.injEq] at hfirst'
    rw [hlast, Option.some.injEq] at hlast'
    rw [← hrange, ← hfirst', ← hlast'] at heq
    exact heq
  · intro heq
    refine ⟨_, _, first, last, hbatch, batchRange_batchBytes _ _, hfirst, hlast, rfl, ?_, heq⟩
    rw [← heq, Int64.ofInt_add, Int64.ofInt_int32ToInt]

/-- A response with one partition. -/
def onePartition (records : List Record) : FetchResponse (List Record) :=
  ⟨0, [⟨[116], [⟨0, 0, 3, 1, none, records⟩]⟩]⟩

/-- The bytes of a response that is encoded. -/
def fetchBytes (records : List Record) : Bytes :=
  (encodeFetch 7 (onePartition records)).toOption.getD []

/-- A response with one partition is encoded to these bytes. -/
theorem encodeFetch_fetchBytes {records : List Record}
    (h : (encodeFetch 7 (onePartition records)).isOk = true) :
    encodeFetch 7 (onePartition records) = .ok (fetchBytes records) := by
  unfold fetchBytes
  rcases hencode : encodeFetch 7 (onePartition records) with error | frame
  · simp [hencode, Except.isOk, Except.toBool] at h
  · rfl

/-- Two plain batches and a pending one after them. -/
def pendingLast : List LogOp :=
  [.append [⟨1, none, some [97]⟩], .append [⟨2, none, some [98]⟩],
    .appendTransactional [⟨3, none, some [99]⟩] 7]

/-- The records of `pendingLast` that are visible to a read-committed reader. -/
def pendingLastRecords : List Record := [⟨0, 1, none, some [97]⟩, ⟨1, 2, none, some [98]⟩]

/-- A window that ends before the hidden batch has its range declared. -/
theorem declaresRange_pendingLast :
    DeclaresRange (fetchBytes pendingLastRecords) 0 0 pendingLastRecords :=
  (@declaresRange_iff none pendingLast ⟨0, 10, 1024, true⟩ ⟨3, 2, pendingLastRecords⟩ 7
    (onePartition pendingLastRecords) (fetchBytes pendingLastRecords) 0 0 _ _ (by decide +kernel)
    (by decide) (encodeFetch_fetchBytes (by decide +kernel)) rfl rfl rfl).mpr (by decide +kernel)

/-- A pending batch between two plain ones. -/
def pendingBetween : List LogOp :=
  [.append [⟨1, none, some [97]⟩], .appendTransactional [⟨2, none, some [98]⟩] 7,
    .append [⟨3, none, some [99]⟩]]

/-- The records of `pendingBetween` that are visible to a read-committed reader. -/
def pendingBetweenRecords : List Record := [⟨0, 1, none, some [97]⟩, ⟨2, 3, none, some [99]⟩]

/-- The window with the offsets 0 and 2 is declared to end at offset 1. -/
theorem not_declaresRange_hole :
    (PartitionLog.new.run pendingBetween).fetchWithIsolation 0 10 1024 true =
        .ok ⟨3, 1, pendingBetweenRecords⟩ ∧
      encodeFetch 7 (onePartition pendingBetweenRecords) =
        .ok (fetchBytes pendingBetweenRecords) ∧
      (batchAt (fetchBytes pendingBetweenRecords) 0 0).bind batchRange = some ⟨0, 1⟩ ∧
      ¬ DeclaresRange (fetchBytes pendingBetweenRecords) 0 0 pendingBetweenRecords := by
  have hrange : (batchAt (fetchBytes pendingBetweenRecords) 0 0).bind batchRange = some ⟨0, 1⟩ := by
    decide +kernel
  refine ⟨by decide +kernel, encodeFetch_fetchBytes (by decide +kernel), hrange, ?_⟩
  rintro ⟨batch, range, first, last, hat, hread, hfirst, hlast, -, -, heq⟩
  rw [hat, Option.bind_some, hread, Option.some.injEq] at hrange
  simp only [pendingBetweenRecords, List.head?_cons, Option.some.injEq] at hfirst
  simp only [pendingBetweenRecords, List.getLast?_cons_cons, List.getLast?_singleton,
    Option.some.injEq] at hlast
  rw [hrange, ← hfirst, ← hlast] at heq
  exact absurd heq (by decide)

end CharlotteBroker.Wire
