import CharlotteBroker.Core.Basic
import CharlotteBroker.Lib.Bisect

/-!
# The partition log

The append-only log of one partition, function by function as in `log.rs`.

* `append`, `appendData` and `appendTransactional` are one operation, `appendBatch`, with the
  transaction tag and the initial state of the new batch as arguments.
* `commitTransaction` is the resolution pass over the stored batches.
* `fetchInner` is the two-level loop with its labelled break (`Scan.stop`), entered at the batch
  the binary search `batchIndexFor` finds.
* `enforceRetention` is the eviction loop; the newest batch always stays.

Offsets are integers where the source has `i64`: an operation advances them by `maxAppendRecords` at
most, so that fewer than `2 ^ 53` operations do not overflow (`PartitionLog.nextOffset_run_lt`).
Operations return the log they leave behind together with their result.
-/

namespace CharlotteBroker.Core

open Lib

/-- Maximum records accepted in one atomic append. Source: `log.rs`. Kind: D -/
def maxAppendRecords : ℕ := 1024

/-- Per-record byte overhead charged against a fetch window's byte budget.
Source: `log.rs`. Kind: D -/
def recordOverheadBytes : ℕ := 32

/-- A record on its way into a log. The source's borrowed `RecordInput` has the same fields.
Source: `log.rs`, `RecordData`, `RecordInput`. Kind: D -/
structure RecordData where
  timestampMs : Int64
  key : Option Bytes
  value : Option Bytes
  deriving DecidableEq, Repr

/-- A stored record with its assigned offset. Source: `log.rs`, `Record`. Kind: D -/
structure Record where
  offset : Int
  timestampMs : Int64
  key : Option Bytes
  value : Option Bytes
  deriving DecidableEq, Repr

/-- The record without its offset. Source: `log.rs`, `From<Record> for RecordData`. Kind: D -/
def Record.data (record : Record) : RecordData := ⟨record.timestampMs, record.key, record.value⟩

/-- Result of a fetch. Source: `log.rs`, `FetchWindow`. Kind: D -/
structure FetchWindow where
  highWatermark : Int
  lastStableOffset : Int
  records : List Record
  deriving DecidableEq, Repr

/-- Source: `log.rs`, `BatchState`. Kind: D -/
inductive BatchState
  | pending
  | committed
  | aborted
  deriving DecidableEq, Repr

/-- One atomically appended batch. Source: `log.rs`, `StoredBatch`. Kind: D -/
structure StoredBatch where
  baseOffset : Int
  records : List Record
  transaction : Option Int
  state : BatchState
  deriving DecidableEq, Repr

/-- One partition's ordered record history. Source: `log.rs`, `PartitionLog`. Kind: D -/
structure PartitionLog where
  batches : List StoredBatch
  nextOffset : Int
  maxBytes : Option ℕ
  retainedBytes : ℕ
  deriving DecidableEq, Repr

/-- Approximate stored size of one record. Source: `log.rs`, `record_size`. Kind: D -/
def recordSize (record : Record) : ℕ :=
  recordOverheadBytes + (record.key.map List.length).getD 0 + (record.value.map List.length).getD 0

/-- Approximate stored size of one batch. Source: `log.rs`, `batch_size`. Kind: D -/
def batchSize (batch : StoredBatch) : ℕ := (batch.records.map recordSize).sum

/-- The offset after the last record of the batch. -/
def StoredBatch.endOffset (batch : StoredBatch) : Int := batch.baseOffset + batch.records.length

namespace PartitionLog

/-- An unbounded log whose first assigned offset is zero. Source: `log.rs`, `new`. Kind: D -/
def new : PartitionLog := ⟨[], 0, none, 0⟩

/-- A log that drops the oldest batches above `maxBytes`.
Source: `log.rs`, `with_max_bytes`. Kind: D -/
def withMaxBytes (maxBytes : ℕ) : PartitionLog := ⟨[], 0, some maxBytes, 0⟩

/-- The next offset that will be assigned. Source: `log.rs`, `high_watermark`. Kind: D -/
def highWatermark (log : PartitionLog) : Int := log.nextOffset

/-- The earliest offset retained by this log. Source: `log.rs`, `start_offset`. Kind: D -/
def startOffset (log : PartitionLog) : Int :=
  match log.batches.head? with
  | some batch => batch.baseOffset
  | none => log.nextOffset

/-- The eviction loop over the stored batches and the byte counter.
Source: `log.rs`, `enforce_retention` (the `while`). Kind: D -/
def evict (limit : ℕ) : List StoredBatch → ℕ → List StoredBatch × ℕ
  | removed :: next :: rest, retainedBytes =>
      if retainedBytes > limit then evict limit (next :: rest) (retainedBytes - batchSize removed)
      else (removed :: next :: rest, retainedBytes)
  | batches, retainedBytes => (batches, retainedBytes)

/-- Drops the oldest batches while the retained-byte budget is exceeded.
Source: `log.rs`, `enforce_retention`. Kind: D -/
def enforceRetention (log : PartitionLog) : PartitionLog :=
  match log.maxBytes with
  | none => log
  | some limit =>
      let kept := evict limit log.batches log.retainedBytes
      { log with batches := kept.1, retainedBytes := kept.2 }

end PartitionLog

/-- The inputs of an append with their assigned offsets.
Source: `log.rs`, `append` (the `for` over `inputs`). Kind: D -/
def assignOffsets (baseOffset : Int) (inputs : List RecordData) : List Record :=
  inputs.mapIdx fun index input =>
    { offset := baseOffset + index, timestampMs := input.timestampMs, key := input.key,
      value := input.value }

theorem length_assignOffsets (base : Int) (inputs : List RecordData) :
    (assignOffsets base inputs).length = inputs.length := by
  simp [assignOffsets]

/-- Assigning offsets changes nothing that a record says. -/
theorem data_assignOffsets (base : Int) (inputs : List RecordData) :
    (assignOffsets base inputs).map Record.data = inputs := by
  refine List.ext_getElem (by simp [assignOffsets]) fun i h h' => ?_
  simp [assignOffsets, Record.data]

namespace PartitionLog

/-- One atomic append of a batch tagged `transaction` and initially in `state`.
Source: `log.rs`, the common body of `append` and `append_transactional`. Kind: D -/
def appendBatch (log : PartitionLog) (inputs : List RecordData) (transaction : Option Int)
    (state : BatchState) : PartitionLog × Except LogError Int :=
  if inputs.isEmpty then (log, .error .emptyAppend)
  else if inputs.length > maxAppendRecords then (log, .error .tooManyRecords)
  else
    let baseOffset := log.nextOffset
    let records := assignOffsets baseOffset inputs
    let batch : StoredBatch := ⟨baseOffset, records, transaction, state⟩
    (enforceRetention
      { log with
        nextOffset := baseOffset + records.length
        retainedBytes := log.retainedBytes + batchSize batch
        batches := log.batches ++ [batch] },
      .ok baseOffset)

/-- Source: `log.rs`, `append`. Kind: D -/
def append (log : PartitionLog) (inputs : List RecordData) : PartitionLog × Except LogError Int :=
  log.appendBatch inputs none .committed

/-- Source: `log.rs`, `append_data`. Kind: D -/
def appendData (log : PartitionLog) (records : List RecordData) :
    PartitionLog × Except LogError Int :=
  log.append records

/-- Appends a batch belonging to a producer transaction.
Source: `log.rs`, `append_transactional`. Kind: D -/
def appendTransactional (log : PartitionLog) (records : List RecordData) (producerId : Int) :
    PartitionLog × Except LogError Int :=
  log.appendBatch records (some producerId) .pending

end PartitionLog

/-- The state a resolution with outcome `commit` writes. -/
def outcome (commit : Bool) : BatchState := if commit then .committed else .aborted

/-- What a resolution does to one batch: every batch of the producer takes the outcome.
Source: `log.rs`, `commit_transaction` (the loop body). Kind: D -/
def StoredBatch.resolve (producerId : Int) (commit : Bool) (batch : StoredBatch) : StoredBatch :=
  if batch.transaction = some producerId then { batch with state := outcome commit } else batch

namespace PartitionLog

/-- Commits or aborts all batches belonging to a producer in this log.
Source: `log.rs`, `commit_transaction`. Kind: D -/
def commitTransaction (log : PartitionLog) (producerId : Int) (commit : Bool) : PartitionLog :=
  { log with batches := log.batches.map (StoredBatch.resolve producerId commit) }

/-- Index of the last batch whose base offset is at or below `offset`.
Source: `log.rs`, `batch_index_for`. Kind: D -/
def batchIndexFor (log : PartitionLog) (offset : Int) : ℕ :=
  bisect (fun middle => (log.batches[middle]?).any fun batch => batch.baseOffset ≤ offset)
    log.batches.length 0 log.batches.length - 1

end PartitionLog

/-! ## Fetching -/

/-- Read-committed readers skip the batch.
Source: `log.rs`, `fetch_inner` (the isolation test). Kind: D -/
def StoredBatch.hiddenFrom (readCommitted : Bool) (batch : StoredBatch) : Bool :=
  readCommitted && batch.transaction.isSome && batch.state != .committed

/-- The arguments of a fetch. -/
structure FetchArgs where
  offset : Int
  maxRecords : ℕ
  maxBytes : ℕ
  readCommitted : Bool
  deriving DecidableEq, Repr

/-- The accumulators of the fetch loops: the records pushed so far and their size. -/
structure Scanned where
  records : List Record
  bytes : ℕ
  deriving DecidableEq, Repr

/-- How the inner loop over one batch ends: by running off the batch, or by `break 'batches`. -/
inductive Scan
  | next (scanned : Scanned)
  | stop (scanned : Scanned)
  deriving DecidableEq, Repr

/-- The inner loop of a fetch, over the records of one batch.
Source: `log.rs`, `fetch_inner` (`for record in &batch.records`). Kind: D -/
def scanBatch (args : FetchArgs) (batch : StoredBatch) : List Record → Scanned → Scan
  | [], scanned => .next scanned
  | record :: rest, scanned =>
      if record.offset < args.offset then scanBatch args batch rest scanned
      else if batch.hiddenFrom args.readCommitted then scanBatch args batch rest scanned
      else if scanned.records.length = args.maxRecords then .stop scanned
      else if !scanned.records.isEmpty && scanned.bytes + recordSize record > args.maxBytes then
        .stop scanned
      else
        scanBatch args batch rest
          ⟨scanned.records ++ [record], scanned.bytes + recordSize record⟩

/-- The outer loop of a fetch, over the batches from the found one on.
Source: `log.rs`, `fetch_inner` (`'batches: for batch in ..`). Kind: D -/
def scanBatches (args : FetchArgs) : List StoredBatch → Scanned → Scanned
  | [], scanned => scanned
  | batch :: rest, scanned =>
      match scanBatch args batch batch.records scanned with
      | .next scanned => scanBatches args rest scanned
      | .stop scanned => scanned

namespace PartitionLog

/-- The base offset of the first pending transactional batch, or the high watermark.
Source: `log.rs`, `fetch_inner` (`last_stable_offset`). Kind: D -/
def lastStableOffset (log : PartitionLog) : Int :=
  match log.batches.find? fun batch => batch.transaction.isSome && batch.state == .pending with
  | some batch => batch.baseOffset
  | none => log.nextOffset

/-- Source: `log.rs`, `fetch_inner`. Kind: D -/
def fetchInner (log : PartitionLog) (args : FetchArgs) : Except LogError FetchWindow :=
  if args.offset < log.startOffset || args.offset > log.nextOffset then .error .offsetOutOfRange
  else
    let scanned :=
      if args.maxRecords > 0 && args.offset < log.nextOffset then
        scanBatches args (log.batches.drop (log.batchIndexFor args.offset)) ⟨[], 0⟩
      else ⟨[], 0⟩
    .ok
      { highWatermark := log.nextOffset
        lastStableOffset := log.lastStableOffset
        records := scanned.records }

/-- Source: `log.rs`, `fetch`. Kind: D -/
def fetch (log : PartitionLog) (offset : Int) (maxRecords maxBytes : ℕ) :
    Except LogError FetchWindow :=
  log.fetchInner ⟨offset, maxRecords, maxBytes, false⟩

/-- Source: `log.rs`, `fetch_with_isolation`. Kind: D -/
def fetchWithIsolation (log : PartitionLog) (offset : Int) (maxRecords maxBytes : ℕ)
    (readCommitted : Bool) : Except LogError FetchWindow :=
  log.fetchInner ⟨offset, maxRecords, maxBytes, readCommitted⟩

/-- Reads the earliest or latest offset of this partition.
Source: `log.rs`, `list_offset`. Kind: D -/
def listOffset (log : PartitionLog) (earliest : Bool) : Int :=
  if earliest then log.startOffset else log.nextOffset

end PartitionLog

/-! ## Runs of log operations -/

/-- The operations that change a partition log. -/
inductive LogOp
  | append (inputs : List RecordData)
  | appendData (records : List RecordData)
  | appendTransactional (records : List RecordData) (producerId : Int)
  | commitTransaction (producerId : Int) (commit : Bool)
  deriving DecidableEq, Repr

/-- The log an operation leaves behind, whatever it returns. -/
def LogOp.apply (log : PartitionLog) : LogOp → PartitionLog
  | .append inputs => (log.append inputs).1
  | .appendData records => (log.appendData records).1
  | .appendTransactional records producerId => (log.appendTransactional records producerId).1
  | .commitTransaction producerId commit => log.commitTransaction producerId commit

/-- The log after a sequence of operations. -/
def PartitionLog.run (log : PartitionLog) (ops : List LogOp) : PartitionLog :=
  ops.foldl LogOp.apply log

@[simp] theorem PartitionLog.run_nil (log : PartitionLog) : log.run [] = log := rfl

@[simp] theorem PartitionLog.run_cons (log : PartitionLog) (op : LogOp) (ops : List LogOp) :
    log.run (op :: ops) = (op.apply log).run ops := rfl

theorem PartitionLog.run_append (log : PartitionLog) (ops ops' : List LogOp) :
    log.run (ops ++ ops') = (log.run ops).run ops' := by
  simp [PartitionLog.run, List.foldl_append]

/-- A log as the shards create it: empty, with or without a byte budget.
Source: `partition.rs`, `new_log`. Kind: D -/
def newLog (partitionMaxBytes : Option ℕ) : PartitionLog :=
  match partitionMaxBytes with
  | some maxBytes => .withMaxBytes maxBytes
  | none => .new

end CharlotteBroker.Core
