import CharlotteBroker.Core.Isolation
import CharlotteBroker.Lib.Suffix

/-!
# What retention keeps

A log with a byte budget evicts as it grows, with a running byte counter. The result is a function
of the whole append history (`Retains`): the stored batches are the longest suffix of every batch
ever appended that fits the budget, or the newest batch alone (`retained_longest_suffix`).

* The append history (`history`) is every batch a successful append created, with the state the
  resolutions have given it. No byte counter and no eviction occur in it.
* One operation keeps the relation between log and history (`LogOp.apply_retains`). For an append
  this is `Lib.keepWithin_append`: evictions made earlier stay justified as the history grows. For a
  resolution it is `Lib.keepWithin_map`, as batch sizes do not depend on batch states.
-/

namespace CharlotteBroker.Core

open Lib

variable {log : PartitionLog} {limit : ℕ}

/-! ## The append history -/

/-- The number of records in a history, which is the offset the next batch starts at. -/
def recordCount (history : List StoredBatch) : ℕ :=
  (history.map fun batch => batch.records.length).sum

/-- The history after an append: a batch of an accepted size is added at the end. -/
def extendHistory (history : List StoredBatch) (inputs : List RecordData)
    (transaction : Option Int) (state : BatchState) : List StoredBatch :=
  if inputs ≠ [] ∧ inputs.length ≤ maxAppendRecords then
    history ++
      [⟨recordCount history, assignOffsets (recordCount history) inputs, transaction, state⟩]
  else history

/-- What an operation does to the append history. -/
def LogOp.extend (history : List StoredBatch) : LogOp → List StoredBatch
  | .append inputs => extendHistory history inputs none .committed
  | .appendData records => extendHistory history records none .committed
  | .appendTransactional records producerId =>
      extendHistory history records (some producerId) .pending
  | .commitTransaction producerId commit =>
      history.map (StoredBatch.resolve producerId commit)

/-- Every batch appended by a sequence of operations, oldest first. -/
def history (ops : List LogOp) : List StoredBatch := ops.foldl LogOp.extend []

theorem history_append_singleton (ops : List LogOp) (op : LogOp) :
    history (ops ++ [op]) = op.extend (history ops) := by
  simp [history, List.foldl_append]

/-! ## The eviction loop -/

/-- With an exact byte counter the eviction loop keeps the longest suffix within the limit. -/
theorem evict_eq_keepWithin (limit : ℕ) (batches : List StoredBatch) :
    (PartitionLog.evict limit batches (batches.map batchSize).sum).1 =
      keepWithin batchSize limit batches := by
  fun_induction keepWithin batchSize limit batches with
  | case1 removed next rest hover ih =>
      have hcounter : ((removed :: next :: rest).map batchSize).sum - batchSize removed =
          ((next :: rest).map batchSize).sum := by
        rw [List.map_cons, List.sum_cons, Nat.add_sub_cancel_left]
      rw [PartitionLog.evict, if_pos hover, hcounter, ih]
  | case2 removed next rest hfits =>
      rw [PartitionLog.evict, if_neg hfits]
  | case3 batches hshort =>
      rcases batches with _ | ⟨removed, _ | ⟨next, rest⟩⟩
      · rfl
      · rfl
      · exact absurd rfl (hshort removed next rest)

/-- The batches an accepted append leaves behind. -/
theorem appendBatch_batches (hlimit : log.maxBytes = some limit)
    (hbytes : log.retainedBytes = (log.batches.map batchSize).sum) {inputs : List RecordData}
    (h : Appendable inputs) (transaction : Option Int) (state : BatchState) :
    (log.appendBatch inputs transaction state).1.batches =
      keepWithin batchSize limit
        (log.batches ++ [newBatch log inputs transaction state]) := by
  rw [← evict_eq_keepWithin]
  unfold PartitionLog.appendBatch
  rw [if_neg (by simpa using h.1), if_neg (Nat.not_lt.mpr h.2)]
  simp only [PartitionLog.enforceRetention, hlimit, hbytes, List.map_append, List.sum_append,
    List.map_cons, List.map_nil, List.sum_cons, List.sum_nil, Nat.add_zero]
  rfl

/-! ## Log and history -/

/-- The log is what a budget of `limit` bytes leaves of the history. -/
structure Retains (limit : ℕ) (log : PartitionLog) (history : List StoredBatch) : Prop where
  wellFormed : log.WellFormed
  maxBytes : log.maxBytes = some limit
  nextOffset : log.nextOffset = recordCount history
  batches : log.batches = keepWithin batchSize limit history
  below : ∀ batch ∈ history, batch.baseOffset < log.nextOffset

theorem Retains.appendBatch {history : List StoredBatch} (h : Retains limit log history)
    (inputs : List RecordData) {transaction : Option Int} {state : BatchState}
    (hs : transaction = none → state = .committed) :
    Retains limit (log.appendBatch inputs transaction state).1
      (extendHistory history inputs transaction state) := by
  by_cases happend : Appendable inputs
  · obtain ⟨log', -, heq, -, -, hnext, hmax, -⟩ :=
      PartitionLog.appendBatch_of_appendable happend h.wellFormed.retained transaction state
    have hbatches := appendBatch_batches h.maxBytes h.wellFormed.retained happend transaction state
    have hwf := PartitionLog.appendBatch_wellFormed h.wellFormed inputs hs
    rw [heq] at hbatches hwf ⊢
    have hpos := List.length_pos_of_ne_nil happend.1
    unfold Appendable at happend
    rw [extendHistory, if_pos happend]
    refine ⟨hwf, hmax.trans h.maxBytes, ?_, ?_, ?_⟩
    · rw [hnext, h.nextOffset]
      simp [recordCount, length_assignOffsets]
    · rw [hbatches, h.batches, keepWithin_append, newBatch, h.nextOffset]
    · intro batch hb
      rw [hnext]
      rcases List.mem_append.mp hb with hold | hnew
      · have hlt := h.below batch hold
        omega
      · rw [List.mem_singleton.mp hnew, h.nextOffset]
        exact Int.lt_add_of_pos_right _ (Int.natCast_pos.mpr hpos)
  · obtain ⟨error, heq⟩ :=
      PartitionLog.appendBatch_of_not_appendable happend log transaction state
    unfold Appendable at happend
    rw [heq, extendHistory, if_neg happend]
    exact h

theorem Retains.commitTransaction {history : List StoredBatch} (h : Retains limit log history)
    (producerId : Int) (commit : Bool) :
    Retains limit (log.commitTransaction producerId commit)
      (history.map (StoredBatch.resolve producerId commit)) := by
  refine ⟨PartitionLog.commitTransaction_wellFormed h.wellFormed producerId commit, h.maxBytes,
    ?_, ?_, ?_⟩
  · have hcount : recordCount (history.map (StoredBatch.resolve producerId commit)) =
        recordCount history := by
      unfold recordCount
      rw [List.map_map]
      exact congrArg List.sum (List.map_congr_left fun batch _ => by simp)
    rw [hcount]
    exact h.nextOffset
  · rw [keepWithin_map (batchSize_resolve producerId commit), ← h.batches]
    rfl
  · intro batch hb
    obtain ⟨old, hold, rfl⟩ := List.mem_map.mp hb
    rw [resolve_baseOffset]
    exact h.below old hold

/-- One operation keeps log and history together. -/
theorem LogOp.apply_retains {history : List StoredBatch} (h : Retains limit log history)
    (op : LogOp) :
    Retains limit (op.apply log) (op.extend history) := by
  cases op with
  | append inputs => exact h.appendBatch inputs fun _ => rfl
  | appendData records => exact h.appendBatch records fun _ => rfl
  | appendTransactional records producerId => exact h.appendBatch records fun hn => by simp at hn
  | commitTransaction producerId commit => exact h.commitTransaction producerId commit

/-- Along every run the log is what the budget leaves of the append history. -/
theorem run_retains (limit : ℕ) (ops : List LogOp) :
    Retains limit ((PartitionLog.withMaxBytes limit).run ops) (history ops) := by
  induction ops using List.reverseRecOn with
  | nil =>
      exact ⟨PartitionLog.wellFormed_newLog (some limit), rfl, rfl, rfl,
        fun batch hb => absurd hb List.not_mem_nil⟩
  | append_singleton ops op ih =>
      rw [PartitionLog.run_append, history_append_singleton]
      exact LogOp.apply_retains ih op

/-- A retained record is read by a plain fetch at its own offset, whatever the byte budget. -/
theorem PartitionLog.WellFormed.fetch_head (hlog : log.WellFormed) {batch : StoredBatch}
    (hb : batch ∈ log.batches) {record : Record} (hr : record ∈ batch.records) {maxRecords : ℕ}
    (hpos : 0 < maxRecords) (maxBytes : ℕ) :
    ∃ window, log.fetch record.offset maxRecords maxBytes = .ok window ∧
      window.records.head? = some record := by
  unfold PartitionLog.fetch
  rw [PartitionLog.fetchInner_eq hlog, if_pos (hlog.inRange hb hr)]
  refine ⟨_, rfl, ?_⟩
  simp only
  rw [head?_takeWithin hpos, head?_visible hlog hb rfl hr]

/-- **Retention keeps the longest suffix that fits.** After any operations on a log with a budget of
`limit` bytes the stored batches are a function of the append history: its longest suffix of total
size at most `limit`, or the newest batch alone when even that is larger. A batch that is no longer
stored never returns, and the newest batch is stored and every record of it readable. -/
theorem retained_longest_suffix (limit : ℕ) (ops more : List LogOp) :
    let log := (PartitionLog.withMaxBytes limit).run ops
    let later := (PartitionLog.withMaxBytes limit).run (ops ++ more)
    IsKept batchSize limit (history ops) log.batches ∧
    (∀ batch ∈ history ops,
      (∀ stored ∈ log.batches, stored.baseOffset ≠ batch.baseOffset) →
      ∀ stored ∈ later.batches, stored.baseOffset ≠ batch.baseOffset) ∧
    ∀ newest, (history ops).getLast? = some newest →
      newest ∈ log.batches ∧ ∀ record ∈ newest.records, ∀ maxRecords > 0, ∀ maxBytes,
        ∃ window, log.fetch record.offset maxRecords maxBytes = .ok window ∧
          window.records.head? = some record := by
  intro log later
  have hretains : Retains limit log (history ops) := run_retains limit ops
  refine ⟨?_, ?_, ?_⟩
  · rw [hretains.batches]
    exact keepWithin_isKept (history ops)
  · intro batch hbatch hgone stored hstored heq
    have hlater : later = log.run more := PartitionLog.run_append _ ops more
    rw [hlater] at hstored
    have hlt : stored.baseOffset < log.nextOffset := by
      rw [heq]
      exact hretains.below batch hbatch
    obtain ⟨old, hold, rfl⟩ := mem_run_old hretains.wellFormed hstored hlt
    rw [foldl_effect_baseOffset] at heq
    exact hgone old hold heq
  · intro newest hnewest
    have hstored : newest ∈ log.batches := by
      rw [hretains.batches]
      apply List.mem_of_getLast?
      rw [getLast?_keepWithin, hnewest]
    refine ⟨hstored, fun record hr maxRecords hpos maxBytes => ?_⟩
    exact hretains.wellFormed.fetch_head hstored hr hpos maxBytes

end CharlotteBroker.Core
