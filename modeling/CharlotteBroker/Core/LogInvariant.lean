import CharlotteBroker.Core.Log
import Mathlib.Data.List.Induction
import Mathlib.Algebra.BigOperators.Group.List.Basic
import Mathlib.Algebra.Order.Ring.Int

/-!
# The representation invariant of a partition log

`PartitionLog.WellFormed` says what every reachable log looks like: non-empty batches of bounded
size whose records carry consecutive offsets, laid end to end from `startOffset` to `nextOffset`,
with an exact byte counter. It holds of a new log and is kept by every operation
(`LogOp.apply_wellFormed`), so it holds after every run (`PartitionLog.run_wellFormed`).

What one operation can do to the stored batches is said once, in `LogOp.mem_apply`: a batch
stored afterwards was there before (possibly with the state a resolution wrote), or it is the
batch the operation appended.
-/

namespace CharlotteBroker.Core

variable {log : PartitionLog} {batch : StoredBatch} {xs : List StoredBatch} {start stop : Int}
  {inputs : List RecordData} {transaction : Option Int} {state : BatchState} {record : Record}

/-! ## Contiguous batches -/

/-- The batches are laid end to end from offset `start` to offset `stop`. -/
def Contiguous : Int → List StoredBatch → Int → Prop
  | start, [], stop => start = stop
  | start, batch :: rest, stop => batch.baseOffset = start ∧ Contiguous batch.endOffset rest stop

theorem contiguous_append {middle : Int} {ys : List StoredBatch} (hx : Contiguous start xs middle)
    (hy : Contiguous middle ys stop) :
    Contiguous start (xs ++ ys) stop := by
  induction xs generalizing start with
  | nil =>
      have heq : start = middle := hx
      rw [heq]
      exact hy
  | cons batch xs ih => exact ⟨hx.1, ih hx.2⟩

theorem contiguous_split {ys : List StoredBatch} (h : Contiguous start (xs ++ ys) stop) :
    ∃ middle, Contiguous start xs middle ∧ Contiguous middle ys stop := by
  induction xs generalizing start with
  | nil => exact ⟨start, rfl, h⟩
  | cons batch xs ih =>
      obtain ⟨middle, h1, h2⟩ := ih h.2
      exact ⟨middle, ⟨h.1, h1⟩, h2⟩

/-- Contiguity reads only the base offset and the length of each batch. -/
theorem contiguous_map {f : StoredBatch → StoredBatch}
    (hbase : ∀ batch, (f batch).baseOffset = batch.baseOffset)
    (hend : ∀ batch, (f batch).endOffset = batch.endOffset) (h : Contiguous start xs stop) :
    Contiguous start (xs.map f) stop := by
  induction xs generalizing start with
  | nil => exact h
  | cons batch xs ih =>
      refine ⟨(hbase batch).trans h.1, ?_⟩
      rw [hend]
      exact ih h.2

/-- A contiguous stretch ends at or after where it starts. -/
theorem contiguous_le (h : Contiguous start xs stop) : start ≤ stop := by
  induction xs generalizing start with
  | nil => exact le_of_eq h
  | cons batch xs ih =>
      have hle := ih h.2
      have hb := h.1
      unfold StoredBatch.endOffset at hle
      omega

/-- Every batch of a contiguous stretch lies between its ends. -/
theorem contiguous_mem_bounds (h : Contiguous start xs stop) (hb : batch ∈ xs) :
    start ≤ batch.baseOffset ∧ batch.endOffset ≤ stop := by
  induction xs generalizing start with
  | nil => exact absurd hb List.not_mem_nil
  | cons first xs ih =>
      rcases List.mem_cons.mp hb with rfl | hb'
      · exact ⟨le_of_eq h.1.symm, contiguous_le h.2⟩
      · have hbounds := ih h.2 hb'
        have hbase := h.1
        refine ⟨?_, hbounds.2⟩
        have hle := hbounds.1
        unfold StoredBatch.endOffset at hle
        omega

/-- Batches of a contiguous stretch follow one another. -/
theorem contiguous_pairwise (h : Contiguous start xs stop) :
    xs.Pairwise fun a b => a.endOffset ≤ b.baseOffset := by
  induction xs generalizing start with
  | nil => exact List.Pairwise.nil
  | cons batch xs ih =>
      refine List.Pairwise.cons ?_ (ih h.2)
      intro later hl
      exact (contiguous_mem_bounds h.2 hl).1

/-- Every offset of a contiguous stretch lies in one of its batches. -/
theorem contiguous_exists {offset : Int} (h : Contiguous start xs stop) (hstart : start ≤ offset)
    (hstop : offset < stop) :
    ∃ batch ∈ xs, batch.baseOffset ≤ offset ∧ offset < batch.endOffset := by
  induction xs generalizing start with
  | nil =>
      have heq : start = stop := h
      omega
  | cons batch xs ih =>
      by_cases hlt : offset < batch.endOffset
      · exact ⟨batch, List.mem_cons_self, le_trans (le_of_eq h.1) hstart, hlt⟩
      · obtain ⟨later, hlater, hbounds⟩ := ih h.2 (not_lt.mp hlt)
        exact ⟨later, List.mem_cons_of_mem batch hlater, hbounds⟩

/-! ## Well-formed batches and logs -/

/-- The records carry consecutive offsets from `base` on. -/
def OffsetsFrom (base : Int) (records : List Record) : Prop :=
  ∀ (i : ℕ) (h : i < records.length), records[i].offset = base + i

theorem offsetsFrom_assignOffsets (base : Int) (inputs : List RecordData) :
    OffsetsFrom base (assignOffsets base inputs) := by
  intro i h
  simp [assignOffsets]

/-- A record of a batch lies in the batch's offset range. -/
theorem OffsetsFrom.bounds {base : Int} {records : List Record} (h : OffsetsFrom base records)
    (hr : record ∈ records) :
    base ≤ record.offset ∧ record.offset < base + records.length := by
  obtain ⟨i, hi, rfl⟩ := List.mem_iff_getElem.mp hr
  rw [h i hi]
  omega

/-- What every stored batch satisfies. -/
structure StoredBatch.WellFormed (batch : StoredBatch) : Prop where
  nonempty : batch.records ≠ []
  length_le : batch.records.length ≤ maxAppendRecords
  offsets : OffsetsFrom batch.baseOffset batch.records
  plain : batch.transaction = none → batch.state = .committed

theorem StoredBatch.WellFormed.lt_endOffset (h : batch.WellFormed) :
    batch.baseOffset < batch.endOffset := by
  have hpos := List.length_pos_of_ne_nil h.nonempty
  unfold StoredBatch.endOffset
  omega

@[simp] theorem resolve_baseOffset (producerId : Int) (commit : Bool) (batch : StoredBatch) :
    (batch.resolve producerId commit).baseOffset = batch.baseOffset := by
  unfold StoredBatch.resolve
  split <;> rfl

@[simp] theorem resolve_records (producerId : Int) (commit : Bool) (batch : StoredBatch) :
    (batch.resolve producerId commit).records = batch.records := by
  unfold StoredBatch.resolve
  split <;> rfl

@[simp] theorem resolve_transaction (producerId : Int) (commit : Bool) (batch : StoredBatch) :
    (batch.resolve producerId commit).transaction = batch.transaction := by
  unfold StoredBatch.resolve
  split <;> rfl

/-- No outcome is pending. -/
theorem outcome_ne_pending (commit : Bool) : outcome commit ≠ .pending := by
  cases commit <;> decide

theorem resolve_of_eq {producerId : Int} (commit : Bool) (h : batch.transaction = some producerId) :
    batch.resolve producerId commit = { batch with state := outcome commit } := by
  rw [StoredBatch.resolve, if_pos h]

theorem resolve_of_ne {producerId : Int} (commit : Bool) (h : batch.transaction ≠ some producerId) :
    batch.resolve producerId commit = batch := by
  rw [StoredBatch.resolve, if_neg h]

@[simp] theorem resolve_endOffset (producerId : Int) (commit : Bool) (batch : StoredBatch) :
    (batch.resolve producerId commit).endOffset = batch.endOffset := by
  unfold StoredBatch.endOffset
  rw [resolve_baseOffset, resolve_records]

@[simp] theorem batchSize_resolve (producerId : Int) (commit : Bool) (batch : StoredBatch) :
    batchSize (batch.resolve producerId commit) = batchSize batch := by
  unfold batchSize
  rw [resolve_records]

/-- A resolution keeps the batch well formed. -/
theorem StoredBatch.WellFormed.resolve (h : batch.WellFormed) (producerId : Int) (commit : Bool) :
    (batch.resolve producerId commit).WellFormed := by
  by_cases ht : batch.transaction = some producerId
  · rw [resolve_of_eq commit ht]
    refine ⟨h.nonempty, h.length_le, h.offsets, ?_⟩
    intro hnone
    rw [ht] at hnone
    cases hnone
  · rw [resolve_of_ne commit ht]
    exact h

namespace PartitionLog

/-- The representation invariant. -/
structure WellFormed (log : PartitionLog) : Prop where
  batches : ∀ batch ∈ log.batches, batch.WellFormed
  contiguous : Contiguous log.startOffset log.batches log.nextOffset
  retained : log.retainedBytes = (log.batches.map batchSize).sum
  nonneg : 0 ≤ log.startOffset

theorem startOffset_of_cons {rest : List StoredBatch} (h : log.batches = batch :: rest) :
    log.startOffset = batch.baseOffset := by
  unfold startOffset
  rw [h]
  rfl

theorem startOffset_of_nil (h : log.batches = []) : log.startOffset = log.nextOffset := by
  unfold startOffset
  rw [h]
  rfl

/-- A contiguous log starts where its stretch of batches starts. -/
theorem startOffset_eq_of_contiguous (h : Contiguous start log.batches log.nextOffset) :
    log.startOffset = start := by
  rcases hb : log.batches with _ | ⟨batch, rest⟩
  · rw [hb] at h
    rw [startOffset_of_nil hb]
    exact h.symm
  · rw [hb] at h
    rw [startOffset_of_cons hb]
    exact h.1

theorem WellFormed.startOffset_le (h : log.WellFormed) : log.startOffset ≤ log.nextOffset :=
  contiguous_le h.contiguous

theorem WellFormed.mem_bounds (h : log.WellFormed) (hb : batch ∈ log.batches) :
    log.startOffset ≤ batch.baseOffset ∧ batch.endOffset ≤ log.nextOffset :=
  contiguous_mem_bounds h.contiguous hb

/-- **Every retained offset has its record.** -/
theorem WellFormed.exists_record (h : log.WellFormed) {offset : Int}
    (hstart : log.startOffset ≤ offset) (hnext : offset < log.nextOffset) :
    ∃ batch ∈ log.batches, ∃ record ∈ batch.records, record.offset = offset := by
  obtain ⟨batch, hbatch, hbase, hend⟩ := contiguous_exists h.contiguous hstart hnext
  unfold StoredBatch.endOffset at hend
  have hi : (offset - batch.baseOffset).toNat < batch.records.length := by omega
  refine ⟨batch, hbatch, _, List.getElem_mem hi, ?_⟩
  rw [(h.batches batch hbatch).offsets _ hi]
  omega

/-- A stored batch ends strictly above its base, so its base is below the high watermark. -/
theorem WellFormed.baseOffset_lt (h : log.WellFormed) (hb : batch ∈ log.batches) :
    batch.baseOffset < log.nextOffset := by
  have h1 := (h.batches batch hb).lt_endOffset
  have h2 := (h.mem_bounds hb).2
  omega

/-- **Stored batches do not overlap**: an offset lies in at most one. -/
theorem WellFormed.eq_of_overlap (h : log.WellFormed) {a b : StoredBatch} (ha : a ∈ log.batches)
    (hb : b ∈ log.batches) {offset : Int} (hina : a.baseOffset ≤ offset ∧ offset < a.endOffset)
    (hinb : b.baseOffset ≤ offset ∧ offset < b.endOffset) : a = b := by
  obtain ⟨i, hi, rfl⟩ := List.mem_iff_getElem.mp ha
  obtain ⟨j, hj, rfl⟩ := List.mem_iff_getElem.mp hb
  have hpair := List.pairwise_iff_getElem.mp (contiguous_pairwise h.contiguous)
  rcases lt_trichotomy i j with hij | rfl | hij
  · have hle := hpair i j hi hj hij
    omega
  · rfl
  · have hle := hpair j i hj hi hij
    omega

/-- Stored batches are determined by their base offset. -/
theorem WellFormed.eq_of_baseOffset (h : log.WellFormed) {a b : StoredBatch} (ha : a ∈ log.batches)
    (hb : b ∈ log.batches) (heq : a.baseOffset = b.baseOffset) : a = b := by
  have hlta := (h.batches a ha).lt_endOffset
  have hltb := (h.batches b hb).lt_endOffset
  exact h.eq_of_overlap ha hb ⟨le_rfl, hlta⟩ ⟨heq.symm.le, heq ▸ hltb⟩

/-- A stored record's offset lies in its batch's range. -/
theorem WellFormed.record_bounds (h : log.WellFormed) (hb : batch ∈ log.batches)
    (hr : record ∈ batch.records) :
    batch.baseOffset ≤ record.offset ∧ record.offset < batch.endOffset :=
  (h.batches batch hb).offsets.bounds hr

/-- A stored record determines its batch. -/
theorem WellFormed.eq_of_record (h : log.WellFormed) {a b : StoredBatch} (ha : a ∈ log.batches)
    (hb : b ∈ log.batches) (hra : record ∈ a.records) (hrb : record ∈ b.records) : a = b :=
  h.eq_of_overlap ha hb (h.record_bounds ha hra) (h.record_bounds hb hrb)

/-- Stored records lie below the high watermark. -/
theorem WellFormed.record_lt (h : log.WellFormed) (hb : batch ∈ log.batches)
    (hr : record ∈ batch.records) :
    record.offset < log.nextOffset :=
  lt_of_lt_of_le (h.record_bounds hb hr).2 (h.mem_bounds hb).2

/-! ## What the operations keep -/

theorem wellFormed_newLog (partitionMaxBytes : Option ℕ) :
    (newLog partitionMaxBytes).WellFormed := by
  cases partitionMaxBytes <;>
    exact ⟨fun _ h => absurd h List.not_mem_nil, rfl, rfl, le_rfl⟩

/-- Eviction drops a prefix, keeps a last batch, and keeps the byte counter exact. -/
theorem evict_spec (limit : ℕ) (batches : List StoredBatch) :
    ∃ dropped, batches = dropped ++ (evict limit batches (batches.map batchSize).sum).1 ∧
      (evict limit batches (batches.map batchSize).sum).2 =
        ((evict limit batches (batches.map batchSize).sum).1.map batchSize).sum ∧
      (batches ≠ [] → (evict limit batches (batches.map batchSize).sum).1 ≠ []) := by
  induction batches with
  | nil => exact ⟨[], rfl, rfl, fun h => h⟩
  | cons removed rest ih =>
      rcases rest with _ | ⟨next, rest⟩
      · exact ⟨[], rfl, rfl, fun h => h⟩
      · unfold evict
        split
        · have hsub : ((removed :: next :: rest).map batchSize).sum - batchSize removed =
              ((next :: rest).map batchSize).sum := by
            rw [List.map_cons, List.sum_cons, Nat.add_sub_cancel_left]
          rw [hsub]
          obtain ⟨dropped, h1, h2, h3⟩ := ih
          exact ⟨removed :: dropped, by rw [List.cons_append, ← h1], h2,
            fun _ => h3 (List.cons_ne_nil _ _)⟩
        · exact ⟨[], rfl, rfl, fun h => h⟩

/-- What retention leaves of a log with an exact byte counter: a non-empty suffix. -/
theorem enforceRetention_spec (hbytes : log.retainedBytes = (log.batches.map batchSize).sum) :
    ∃ dropped, log.batches = dropped ++ log.enforceRetention.batches ∧
      log.enforceRetention.nextOffset = log.nextOffset ∧
      log.enforceRetention.maxBytes = log.maxBytes ∧
      log.enforceRetention.retainedBytes = (log.enforceRetention.batches.map batchSize).sum ∧
      (log.batches ≠ [] → log.enforceRetention.batches ≠ []) := by
  unfold enforceRetention
  rcases hm : log.maxBytes with _ | limit
  · exact ⟨[], rfl, rfl, hm, hbytes, fun h => h⟩
  · obtain ⟨dropped, h1, h2, h3⟩ := evict_spec limit log.batches
    rw [← hbytes] at h1 h2 h3
    exact ⟨dropped, h1, rfl, rfl, h2, h3⟩

end PartitionLog

/-- The batch an append of `inputs` stores. -/
def newBatch (log : PartitionLog) (inputs : List RecordData) (transaction : Option Int)
    (state : BatchState) : StoredBatch :=
  ⟨log.nextOffset, assignOffsets log.nextOffset inputs, transaction, state⟩

/-- The record count the log accepts in one append. -/
def Appendable (inputs : List RecordData) : Prop :=
  inputs ≠ [] ∧ inputs.length ≤ maxAppendRecords

/-- It says what the inputs say. -/
theorem data_newBatch (log : PartitionLog) (inputs : List RecordData) (transaction : Option Int)
    (state : BatchState) :
    (newBatch log inputs transaction state).records.map Record.data = inputs :=
  data_assignOffsets log.nextOffset inputs

/-- A new batch is well formed. -/
theorem newBatch_wellFormed (log : PartitionLog) (h : Appendable inputs)
    (hs : transaction = none → state = .committed) :
    (newBatch log inputs transaction state).WellFormed := by
  have hlen := length_assignOffsets log.nextOffset inputs
  refine ⟨?_, ?_, offsetsFrom_assignOffsets _ _, hs⟩
  · intro hnil
    have hzero : (assignOffsets log.nextOffset inputs).length = 0 :=
      List.length_eq_zero_iff.mpr hnil
    rw [hlen] at hzero
    exact h.1 (List.length_eq_zero_iff.mp hzero)
  · rw [newBatch, hlen]
    exact h.2

namespace PartitionLog

/-- A rejected append returns the error of the first failing check and leaves the log alone. -/
theorem appendBatch_of_not_appendable (h : ¬ Appendable inputs) (log : PartitionLog)
    (transaction : Option Int) (state : BatchState) :
    ∃ error, log.appendBatch inputs transaction state = (log, .error error) := by
  unfold appendBatch
  by_cases hempty : inputs.isEmpty
  · exact ⟨_, by rw [if_pos hempty]⟩
  · rw [if_neg hempty]
    by_cases hmany : inputs.length > maxAppendRecords
    · exact ⟨_, by rw [if_pos hmany]⟩
    · refine absurd ⟨?_, Nat.le_of_not_lt hmany⟩ h
      simpa using hempty

/-- An accepted append: the new batch goes last, a prefix may be evicted, the base offset is the
old high watermark. -/
theorem appendBatch_of_appendable (h : Appendable inputs)
    (hbytes : log.retainedBytes = (log.batches.map batchSize).sum) (transaction : Option Int)
    (state : BatchState) :
    ∃ log' dropped, log.appendBatch inputs transaction state = (log', .ok log.nextOffset) ∧
      log.batches ++ [newBatch log inputs transaction state] = dropped ++ log'.batches ∧
      log'.batches ≠ [] ∧ log'.nextOffset = log.nextOffset + inputs.length ∧
      log'.maxBytes = log.maxBytes ∧
      log'.retainedBytes = (log'.batches.map batchSize).sum := by
  unfold appendBatch
  rw [if_neg (by simpa using h.1), if_neg (Nat.not_lt.mpr h.2)]
  set grown : PartitionLog :=
    { log with
      nextOffset := log.nextOffset + (assignOffsets log.nextOffset inputs).length
      retainedBytes := log.retainedBytes + batchSize (newBatch log inputs transaction state)
      batches := log.batches ++ [newBatch log inputs transaction state] } with hgrown
  have hgb : grown.retainedBytes = (grown.batches.map batchSize).sum := by
    simp only [hgrown, List.map_append, List.sum_append, List.map_cons, List.map_nil,
      List.sum_cons, List.sum_nil, Nat.add_zero, hbytes]
  obtain ⟨dropped, h1, h2, h3, h4, h5⟩ := enforceRetention_spec hgb
  refine ⟨grown.enforceRetention, dropped, rfl, h1, h5 (by simp [hgrown]), ?_, h3, h4⟩
  rw [h2, hgrown, length_assignOffsets]

/-- A suffix of the old batches with the new batch at its end is well formed. -/
theorem appendBatch_wellFormed (hlog : log.WellFormed) (inputs : List RecordData)
    (hs : transaction = none → state = .committed) :
    (log.appendBatch inputs transaction state).1.WellFormed := by
  by_cases h : Appendable inputs
  · obtain ⟨log', dropped, heq, hsplit, hne, hnext, -, hbytes⟩ :=
      appendBatch_of_appendable h hlog.retained transaction state
    rw [heq]
    have hnew := newBatch_wellFormed log h hs
    have hend : (newBatch log inputs transaction state).endOffset = log'.nextOffset := by
      rw [hnext, StoredBatch.endOffset, newBatch, length_assignOffsets]
    have hall : Contiguous log.startOffset (dropped ++ log'.batches) log'.nextOffset := by
      rw [← hsplit]
      exact contiguous_append hlog.contiguous ⟨rfl, hend⟩
    obtain ⟨middle, h1, h2⟩ := contiguous_split hall
    have hstart := startOffset_eq_of_contiguous h2
    refine ⟨?_, by rw [hstart]; exact h2, hbytes, ?_⟩
    · intro batch hb
      have hmem : batch ∈ log.batches ++ [newBatch log inputs transaction state] := by
        rw [hsplit]
        exact List.mem_append_right _ hb
      rcases List.mem_append.mp hmem with hold | hlast
      · exact hlog.batches batch hold
      · rw [List.mem_singleton.mp hlast]
        exact hnew
    · rw [hstart]
      exact le_trans hlog.nonneg (contiguous_le h1)
  · obtain ⟨error, heq⟩ := appendBatch_of_not_appendable h log transaction state
    rw [heq]
    exact hlog

/-- A resolution keeps the log well formed. -/
theorem commitTransaction_wellFormed (hlog : log.WellFormed) (producerId : Int) (commit : Bool) :
    (log.commitTransaction producerId commit).WellFormed := by
  have hcont : Contiguous log.startOffset (log.commitTransaction producerId commit).batches
      (log.commitTransaction producerId commit).nextOffset :=
    contiguous_map (resolve_baseOffset producerId commit) (resolve_endOffset producerId commit)
      hlog.contiguous
  have hstart := startOffset_eq_of_contiguous hcont
  refine ⟨?_, by rw [hstart]; exact hcont, ?_, by rw [hstart]; exact hlog.nonneg⟩
  · intro batch hb
    obtain ⟨old, hold, rfl⟩ := List.mem_map.mp hb
    exact (hlog.batches old hold).resolve producerId commit
  · have hsizes : ((log.batches.map (StoredBatch.resolve producerId commit)).map batchSize) =
        log.batches.map batchSize := by
      rw [List.map_map]
      exact List.map_congr_left fun batch _ => batchSize_resolve producerId commit batch
    show log.retainedBytes = _
    rw [hlog.retained, commitTransaction, hsizes]

end PartitionLog

/-- **One step.** Every operation keeps the representation invariant. -/
theorem LogOp.apply_wellFormed (hlog : log.WellFormed) (op : LogOp) :
    (op.apply log).WellFormed := by
  cases op with
  | append inputs => exact PartitionLog.appendBatch_wellFormed hlog inputs fun _ => rfl
  | appendData records => exact PartitionLog.appendBatch_wellFormed hlog records fun _ => rfl
  | appendTransactional records producerId =>
      exact PartitionLog.appendBatch_wellFormed hlog records fun h => by cases h
  | commitTransaction producerId commit =>
      exact PartitionLog.commitTransaction_wellFormed hlog producerId commit

/-- **Every run.** The representation invariant holds after any sequence of operations. -/
theorem PartitionLog.run_wellFormed (hlog : log.WellFormed) (ops : List LogOp) :
    (log.run ops).WellFormed := by
  induction ops generalizing log with
  | nil => exact hlog
  | cons op ops ih => exact ih (LogOp.apply_wellFormed hlog op)

/-! ## What one operation does to the stored batches -/

/-- What an operation writes into the batches that are already stored. -/
def LogOp.effect : LogOp → StoredBatch → StoredBatch
  | .commitTransaction producerId commit => StoredBatch.resolve producerId commit
  | _ => id

@[simp] theorem LogOp.effect_baseOffset (op : LogOp) (batch : StoredBatch) :
    (op.effect batch).baseOffset = batch.baseOffset := by
  cases op <;> simp [LogOp.effect]

@[simp] theorem LogOp.effect_transaction (op : LogOp) (batch : StoredBatch) :
    (op.effect batch).transaction = batch.transaction := by
  cases op <;> simp [LogOp.effect]

@[simp] theorem LogOp.effect_records (op : LogOp) (batch : StoredBatch) :
    (op.effect batch).records = batch.records := by
  cases op <;> simp [LogOp.effect]

/-- The batches after an append are old ones or the new one. -/
theorem PartitionLog.mem_appendBatch (hlog : log.WellFormed)
    (hb : batch ∈ (log.appendBatch inputs transaction state).1.batches) :
    batch ∈ log.batches ∨
      Appendable inputs ∧ batch = newBatch log inputs transaction state := by
  by_cases h : Appendable inputs
  · obtain ⟨log', dropped, heq, hsplit, -⟩ :=
      appendBatch_of_appendable h hlog.retained transaction state
    rw [heq] at hb
    have hmem : batch ∈ log.batches ++ [newBatch log inputs transaction state] := by
      rw [hsplit]
      exact List.mem_append_right _ hb
    rcases List.mem_append.mp hmem with hold | hlast
    · exact Or.inl hold
    · exact Or.inr ⟨h, List.mem_singleton.mp hlast⟩
  · obtain ⟨error, heq⟩ := appendBatch_of_not_appendable h log transaction state
    rw [heq] at hb
    exact Or.inl hb

/-- A refused append leaves the log as it was. -/
theorem PartitionLog.appendBatch_error {error : LogError}
    (h : (log.appendBatch inputs transaction state).2 = .error error) :
    (log.appendBatch inputs transaction state).1 = log := by
  unfold PartitionLog.appendBatch at h ⊢
  split at h
  · next hempty => rw [if_pos hempty]
  · next hempty =>
      rw [if_neg hempty]
      split at h
      · next hmany => rw [if_pos hmany]
      · cases h

/-- **An accepted append** is given the old high watermark, and its batch is the last one of the
log. -/
theorem PartitionLog.appendBatch_ok (hlog : log.WellFormed) {base : Int}
    (h : (log.appendBatch inputs transaction state).2 = .ok base) :
    Appendable inputs ∧ base = log.nextOffset ∧
      newBatch log inputs transaction state ∈
        (log.appendBatch inputs transaction state).1.batches ∧
      (log.appendBatch inputs transaction state).1.nextOffset =
        log.nextOffset + inputs.length := by
  by_cases happ : Appendable inputs
  · obtain ⟨log', dropped, heq, hsplit, hne, hnext, -⟩ :=
      appendBatch_of_appendable happ hlog.retained transaction state
    rw [heq] at h ⊢
    cases h
    have hlast := congrArg List.getLast? hsplit
    rw [List.getLast?_concat, List.getLast?_append_of_ne_nil _ hne] at hlast
    exact ⟨happ, rfl, List.mem_of_getLast? hlast.symm, hnext⟩
  · obtain ⟨error, heq⟩ := appendBatch_of_not_appendable happ log transaction state
    rw [heq] at h
    cases h

/-- **What one operation can do.** A batch stored after an operation is the operation's effect on
a batch stored before, or the batch it appended at the old high watermark; the appended batch of
a transaction is pending, and only a transactional append makes one. -/
theorem LogOp.mem_apply (hlog : log.WellFormed) {op : LogOp} (hb : batch ∈ (op.apply log).batches) :
    (∃ old ∈ log.batches, batch = op.effect old) ∨
      batch.baseOffset = log.nextOffset ∧
        ∀ producerId, batch.transaction = some producerId → batch.state = .pending ∧
          ∃ records, op = .appendTransactional records producerId := by
  cases op with
  | append inputs =>
      rcases PartitionLog.mem_appendBatch hlog hb with hold | ⟨-, rfl⟩
      · exact Or.inl ⟨batch, hold, rfl⟩
      · exact Or.inr ⟨rfl, fun _ h => by cases h⟩
  | appendData records =>
      rcases PartitionLog.mem_appendBatch hlog hb with hold | ⟨-, rfl⟩
      · exact Or.inl ⟨batch, hold, rfl⟩
      · exact Or.inr ⟨rfl, fun _ h => by cases h⟩
  | appendTransactional records producerId =>
      rcases PartitionLog.mem_appendBatch hlog hb with hold | ⟨-, rfl⟩
      · exact Or.inl ⟨batch, hold, rfl⟩
      · refine Or.inr ⟨rfl, fun id h => ⟨rfl, records, ?_⟩⟩
        cases h
        rfl
  | commitTransaction producerId commit =>
      obtain ⟨old, hold, rfl⟩ := List.mem_map.mp hb
      exact Or.inl ⟨old, hold, rfl⟩

/-- A transactional batch stored after a run was stored before it, or the run appended it. -/
theorem PartitionLog.mem_run_transaction (hlog : log.WellFormed) {ops : List LogOp}
    (hb : batch ∈ (log.run ops).batches) {producerId : Int}
    (htx : batch.transaction = some producerId) :
    (∃ old ∈ log.batches, old.baseOffset = batch.baseOffset ∧ old.transaction = some producerId) ∨
      ∃ records, LogOp.appendTransactional records producerId ∈ ops := by
  induction ops using List.reverseRecOn generalizing batch with
  | nil => exact Or.inl ⟨batch, hb, rfl, htx⟩
  | append_singleton ops op ih =>
      rw [PartitionLog.run_append] at hb
      rcases LogOp.mem_apply (PartitionLog.run_wellFormed hlog ops) hb with
        ⟨old, hold, rfl⟩ | ⟨-, hnew⟩
      · rw [LogOp.effect_transaction] at htx
        rcases ih hold htx with ⟨first, hfirst, hbase, hfirsttx⟩ | ⟨records, hmem⟩
        · exact Or.inl ⟨first, hfirst, by rw [hbase, LogOp.effect_baseOffset], hfirsttx⟩
        · exact Or.inr ⟨records, List.mem_append_left _ hmem⟩
      · obtain ⟨-, records, rfl⟩ := hnew producerId htx
        exact Or.inr ⟨records, List.mem_append_right _ (List.mem_singleton.mpr rfl)⟩

/-- The high watermark never moves back, and forward by one append at most. -/
theorem LogOp.nextOffset_apply (hlog : log.WellFormed) (op : LogOp) :
    log.nextOffset ≤ (op.apply log).nextOffset ∧
      (op.apply log).nextOffset ≤ log.nextOffset + maxAppendRecords := by
  have happend : ∀ (inputs : List RecordData) (transaction : Option Int) (state : BatchState),
      log.nextOffset ≤ (log.appendBatch inputs transaction state).1.nextOffset ∧
        (log.appendBatch inputs transaction state).1.nextOffset ≤
          log.nextOffset + maxAppendRecords := by
    intro inputs transaction state
    by_cases h : Appendable inputs
    · obtain ⟨log', dropped, heq, -, -, hnext, -⟩ :=
        PartitionLog.appendBatch_of_appendable h hlog.retained transaction state
      have hlen := h.2
      rw [heq, hnext]
      omega
    · obtain ⟨error, heq⟩ :=
        PartitionLog.appendBatch_of_not_appendable h log transaction state
      rw [heq]
      exact ⟨le_rfl, Int.le_add_of_nonneg_right (by decide)⟩
  cases op with
  | append inputs => exact happend inputs _ _
  | appendData records => exact happend records _ _
  | appendTransactional records producerId => exact happend records _ _
  | commitTransaction producerId commit => exact ⟨le_rfl, Int.le_add_of_nonneg_right (by decide)⟩

theorem LogOp.nextOffset_le_apply (hlog : log.WellFormed) (op : LogOp) :
    log.nextOffset ≤ (op.apply log).nextOffset :=
  (op.nextOffset_apply hlog).1

namespace PartitionLog

/-- How far a run can advance the high watermark. -/
theorem nextOffset_run_le (hlog : log.WellFormed) (ops : List LogOp) :
    (log.run ops).nextOffset ≤ log.nextOffset + maxAppendRecords * ops.length := by
  induction ops using List.reverseRecOn with
  | nil => exact Int.le_add_of_nonneg_right (by simp)
  | append_singleton ops op ih =>
      have hstep := (op.nextOffset_apply (run_wellFormed hlog ops)).2
      rw [run_append, List.length_append, List.length_singleton, Nat.cast_add, mul_add]
      exact le_trans hstep (by omega)

/-- **Offsets fit in 64 bits** until a log has seen `2 ^ 53` operations. -/
theorem nextOffset_run_lt (limit : Option ℕ) {ops : List LogOp} (hops : ops.length < 2 ^ 53) :
    ((newLog limit).run ops).nextOffset < 2 ^ 63 := by
  have hle := nextOffset_run_le (wellFormed_newLog limit) ops
  have hzero : (newLog limit).nextOffset = 0 := by cases limit <;> rfl
  rw [hzero, maxAppendRecords] at hle
  omega

end PartitionLog

@[simp] theorem LogOp.effect_endOffset (op : LogOp) (batch : StoredBatch) :
    (op.effect batch).endOffset = batch.endOffset := by
  unfold StoredBatch.endOffset
  rw [LogOp.effect_baseOffset, LogOp.effect_records]

/-- The records of an append, at the offsets its result gives them. -/
def acceptedAt (inputs : List RecordData) : Except LogError Int → List Record
  | .ok baseOffset => assignOffsets baseOffset inputs
  | .error _ => []

/-- The records an operation adds to the log, at the offsets its result gives them. -/
def LogOp.accepted (log : PartitionLog) : LogOp → List Record
  | .append inputs => acceptedAt inputs (log.append inputs).2
  | .appendData records => acceptedAt records (log.appendData records).2
  | .appendTransactional records producerId =>
      acceptedAt records (log.appendTransactional records producerId).2
  | .commitTransaction _ _ => []

/-- **The stored batches after one operation**: the old ones under its effect and what it added,
less a stretch dropped at the front. -/
theorem LogOp.apply_batches (hlog : log.WellFormed) (op : LogOp) :
    ∃ added dropped, log.batches.map op.effect ++ added = dropped ++ (op.apply log).batches ∧
      Contiguous log.startOffset dropped (op.apply log).startOffset ∧
      added.flatMap StoredBatch.records = op.accepted log := by
  have happend : ∀ (inputs : List RecordData) (transaction : Option Int) (state : BatchState),
      ∃ added dropped, log.batches.map id ++ added =
          dropped ++ (log.appendBatch inputs transaction state).1.batches ∧
        Contiguous log.startOffset dropped
          (log.appendBatch inputs transaction state).1.startOffset ∧
        added.flatMap StoredBatch.records =
          acceptedAt inputs (log.appendBatch inputs transaction state).2 := by
    intro inputs transaction state
    by_cases h : Appendable inputs
    · obtain ⟨log', dropped, heq, hsplit, -, hnext, -⟩ :=
        PartitionLog.appendBatch_of_appendable h hlog.retained transaction state
      have hlast : Contiguous log.nextOffset [newBatch log inputs transaction state]
          log'.nextOffset := by
        refine ⟨rfl, ?_⟩
        rw [hnext]
        show log.nextOffset + (assignOffsets log.nextOffset inputs).length = _
        rw [length_assignOffsets]
      have hall := contiguous_append hlog.contiguous hlast
      rw [hsplit] at hall
      obtain ⟨middle, hdropped, hrest⟩ := contiguous_split hall
      rw [heq, List.map_id]
      refine ⟨_, dropped, hsplit, ?_, ?_⟩
      · rw [PartitionLog.startOffset_eq_of_contiguous hrest]
        exact hdropped
      · rw [List.flatMap_singleton]
        rfl
    · obtain ⟨error, heq⟩ :=
        PartitionLog.appendBatch_of_not_appendable h log transaction state
      rw [heq, List.map_id]
      exact ⟨[], [], List.append_nil _, rfl, rfl⟩
  cases op with
  | append inputs => exact happend inputs _ _
  | appendData records => exact happend records _ _
  | appendTransactional records producerId => exact happend records _ _
  | commitTransaction producerId commit =>
      refine ⟨[], [], List.append_nil _, ?_, rfl⟩
      show log.startOffset = (log.commitTransaction producerId commit).startOffset
      have hcont := contiguous_map (resolve_baseOffset producerId commit)
        (resolve_endOffset producerId commit) hlog.contiguous
      exact (PartitionLog.startOffset_eq_of_contiguous hcont).symm

/-- A stored batch is kept, under the operation's effect, or dropped for good. -/
theorem LogOp.mem_apply_or_dropped (hlog : log.WellFormed) (op : LogOp) (hb : batch ∈ log.batches) :
    op.effect batch ∈ (op.apply log).batches ∨ batch.endOffset ≤ (op.apply log).startOffset := by
  obtain ⟨added, dropped, hsplit, hdropped, -⟩ := LogOp.apply_batches hlog op
  have hmem : op.effect batch ∈ dropped ++ (op.apply log).batches := by
    rw [← hsplit]
    exact List.mem_append_left _ (List.mem_map_of_mem hb)
  rcases List.mem_append.mp hmem with hout | hin
  · right
    rw [← LogOp.effect_endOffset op batch]
    exact (contiguous_mem_bounds hdropped hout).2
  · exact Or.inl hin

/-- The start offset never moves back. -/
theorem LogOp.startOffset_le_apply (hlog : log.WellFormed) (op : LogOp) :
    log.startOffset ≤ (op.apply log).startOffset := by
  obtain ⟨added, dropped, -, hdropped, -⟩ := LogOp.apply_batches hlog op
  exact contiguous_le hdropped

/-- The high watermark never goes back. -/
theorem nextOffset_le_run (hlog : log.WellFormed) (before later : List LogOp) :
    (log.run before).nextOffset ≤ (log.run (before ++ later)).nextOffset := by
  induction later using List.reverseRecOn with
  | nil => rw [List.append_nil]
  | append_singleton later op ih =>
      rw [← List.append_assoc, PartitionLog.run_append log (before ++ later)]
      exact le_trans ih (LogOp.nextOffset_le_apply (PartitionLog.run_wellFormed hlog _) op)

/-- The start offset never goes back. -/
theorem startOffset_le_run (hlog : log.WellFormed) (ops : List LogOp) :
    log.startOffset ≤ (log.run ops).startOffset := by
  induction ops generalizing log with
  | nil => exact le_rfl
  | cons op ops ih =>
      exact le_trans (LogOp.startOffset_le_apply hlog op) (ih (LogOp.apply_wellFormed hlog op))

/-- **A stored batch stays**, with its records, until retention drops it. -/
theorem mem_run_or_dropped (hlog : log.WellFormed) (ops : List LogOp) (hb : batch ∈ log.batches) :
    (∃ kept ∈ (log.run ops).batches,
        kept.baseOffset = batch.baseOffset ∧ kept.records = batch.records) ∨
      batch.endOffset ≤ (log.run ops).startOffset := by
  induction ops generalizing log batch with
  | nil => exact Or.inl ⟨batch, hb, rfl, rfl⟩
  | cons op ops ih =>
      have hwf := LogOp.apply_wellFormed hlog op
      rcases LogOp.mem_apply_or_dropped hlog op hb with hkept | hdropped
      · have hrest := ih hwf hkept
        rwa [LogOp.effect_baseOffset, LogOp.effect_records, LogOp.effect_endOffset] at hrest
      · exact Or.inr (le_trans hdropped (startOffset_le_run hwf ops))

@[simp] theorem foldl_effect_baseOffset (ops : List LogOp) (batch : StoredBatch) :
    (ops.foldl (fun stored op => op.effect stored) batch).baseOffset = batch.baseOffset := by
  induction ops generalizing batch with
  | nil => rfl
  | cons op ops ih => rw [List.foldl_cons, ih, LogOp.effect_baseOffset]

@[simp] theorem foldl_effect_records (ops : List LogOp) (batch : StoredBatch) :
    (ops.foldl (fun stored op => op.effect stored) batch).records = batch.records := by
  induction ops generalizing batch with
  | nil => rfl
  | cons op ops ih => rw [List.foldl_cons, ih, LogOp.effect_records]

/-- **An old batch found after a run** is the work of the run's operations on a batch that was
there before. -/
theorem mem_run_old (hlog : log.WellFormed) {ops : List LogOp} (hb : batch ∈ (log.run ops).batches)
    (hold : batch.baseOffset < log.nextOffset) :
    ∃ old ∈ log.batches, batch = ops.foldl (fun stored op => op.effect stored) old := by
  induction ops using List.reverseRecOn generalizing batch with
  | nil => exact ⟨batch, hb, rfl⟩
  | append_singleton ops op ih =>
      rw [PartitionLog.run_append] at hb
      rcases LogOp.mem_apply (PartitionLog.run_wellFormed hlog ops) hb with
        ⟨stored, hstored, rfl⟩ | ⟨hbase, -⟩
      · rw [LogOp.effect_baseOffset] at hold
        obtain ⟨old, hmem, rfl⟩ := ih hstored hold
        exact ⟨old, hmem, by rw [List.foldl_append]; rfl⟩
      · have hle := nextOffset_le_run hlog [] ops
        rw [PartitionLog.run_nil, List.nil_append] at hle
        omega

/-! ## The records of a range of offsets -/

/-- The stored records at the offsets from `low` up to `high`. -/
def PartitionLog.between (log : PartitionLog) (low high : Int) : List Record :=
  (log.batches.flatMap StoredBatch.records).filter fun record =>
    low ≤ record.offset && record.offset < high

/-- A stored batch is all there is between its ends. -/
theorem PartitionLog.WellFormed.between_batch (h : log.WellFormed) (hb : batch ∈ log.batches) :
    log.between batch.baseOffset batch.endOffset = batch.records := by
  obtain ⟨before, after, hsplit⟩ := List.append_of_mem hb
  have hpair := contiguous_pairwise h.contiguous
  rw [hsplit, List.pairwise_append, List.pairwise_cons] at hpair
  obtain ⟨-, ⟨hafter, -⟩, hbefore⟩ := hpair
  have hnone : ∀ (others : List StoredBatch), (∀ other ∈ others, other ∈ log.batches) →
      (∀ other ∈ others, other.endOffset ≤ batch.baseOffset ∨
        batch.endOffset ≤ other.baseOffset) →
      (others.flatMap StoredBatch.records).filter (fun record =>
        batch.baseOffset ≤ record.offset && record.offset < batch.endOffset) = [] := by
    intro others hothers hapart
    refine List.filter_eq_nil_iff.mpr fun record hr => ?_
    obtain ⟨other, hother, hrecord⟩ := List.mem_flatMap.mp hr
    have hbounds := h.record_bounds (hothers other hother) hrecord
    have hends := hapart other hother
    simp only [Bool.and_eq_true, decide_eq_true_eq]
    omega
  have hall : batch.records.filter (fun record =>
      batch.baseOffset ≤ record.offset && record.offset < batch.endOffset) = batch.records := by
    refine List.filter_eq_self.mpr fun record hr => ?_
    have hbounds := h.record_bounds hb hr
    simp only [Bool.and_eq_true, decide_eq_true_eq]
    exact hbounds
  unfold PartitionLog.between
  rw [hsplit, List.flatMap_append, List.flatMap_cons, List.filter_append, List.filter_append, hall,
    hnone before, hnone after]
  · simp
  · exact fun other hother => by simp [hsplit, hother]
  · exact fun other hother => Or.inr (hafter other hother)
  · exact fun other hother => by simp [hsplit, hother]
  · exact fun other hother => Or.inl (hbefore other hother batch (List.mem_cons_self ..))

/-! ## The invariant clause by clause -/

/-- What every stored log looks like, in terms of its vectors and counters. -/
structure PartitionLog.Represents (log : PartitionLog) : Prop where
  sizes : ∀ batch ∈ log.batches, batch.records ≠ [] ∧ batch.records.length ≤ maxAppendRecords
  offsets : ∀ batch ∈ log.batches, ∀ (i : ℕ) (h : i < batch.records.length),
    batch.records[i].offset = batch.baseOffset + i
  adjacent : ∀ (i : ℕ) (h : i + 1 < log.batches.length),
    log.batches[i + 1].baseOffset = log.batches[i].baseOffset + log.batches[i].records.length
  last : ∀ batch, log.batches.getLast? = some batch →
    batch.baseOffset + batch.records.length = log.nextOffset
  retained : log.retainedBytes = (log.batches.map batchSize).sum
  plain : ∀ batch ∈ log.batches, batch.transaction = none → batch.state = .committed

/-- What an append did, by its result: nothing, or it was given the old high watermark. -/
def AppendOutcome (log : PartitionLog) : PartitionLog × Except LogError Int → Prop
  | (log', .error _) => log' = log
  | (_, .ok baseOffset) => baseOffset = log.nextOffset

theorem contiguous_getElem (h : Contiguous start xs stop) {i : ℕ} (hi : i + 1 < xs.length) :
    xs[i + 1].baseOffset = xs[i].endOffset := by
  induction xs generalizing start i with
  | nil => exact absurd hi (Nat.not_lt_zero _)
  | cons first rest ih =>
      cases i with
      | zero =>
          rcases rest with _ | ⟨second, rest⟩
          · simp at hi
          · exact h.2.1
      | succ i => exact ih h.2 (Nat.lt_of_succ_lt_succ hi)

theorem contiguous_getLast (h : Contiguous start xs stop) (hlast : xs.getLast? = some batch) :
    batch.endOffset = stop := by
  obtain ⟨front, rfl⟩ := List.getLast?_eq_some_iff.mp hlast
  obtain ⟨middle, -, hend⟩ := contiguous_split h
  exact hend.2

theorem PartitionLog.WellFormed.represents (h : log.WellFormed) :
    log.Represents where
  sizes batch hb := ⟨(h.batches batch hb).nonempty, (h.batches batch hb).length_le⟩
  offsets batch hb := (h.batches batch hb).offsets
  adjacent _ hi := contiguous_getElem h.contiguous hi
  last _ hlast := contiguous_getLast h.contiguous hlast
  retained := h.retained
  plain batch hb := (h.batches batch hb).plain

theorem appendOutcome_appendBatch (h : log.WellFormed) (inputs : List RecordData)
    (transaction : Option Int) (state : BatchState) :
    AppendOutcome log (log.appendBatch inputs transaction state) := by
  by_cases happ : Appendable inputs
  · obtain ⟨log', dropped, heq, -⟩ :=
      PartitionLog.appendBatch_of_appendable happ h.retained transaction state
    rw [heq]
    rfl
  · obtain ⟨error, heq⟩ := PartitionLog.appendBatch_of_not_appendable happ log transaction state
    rw [heq]
    rfl

/-- **The representation invariant.** It holds of every log that the operations lead to from an
empty one, bounded or not, and there every append does nothing or gets the old high watermark. -/
theorem run_represents (partitionMaxBytes : Option ℕ) (ops : List LogOp) :
    let log := (newLog partitionMaxBytes).run ops
    log.Represents ∧ (∀ inputs, AppendOutcome log (log.append inputs)) ∧
      (∀ records, AppendOutcome log (log.appendData records)) ∧
      ∀ records producerId, AppendOutcome log (log.appendTransactional records producerId) := by
  intro log
  have hwf : log.WellFormed :=
    PartitionLog.run_wellFormed (PartitionLog.wellFormed_newLog partitionMaxBytes) ops
  refine ⟨hwf.represents, ?_, ?_, ?_⟩
  · exact fun inputs => appendOutcome_appendBatch hwf inputs _ _
  · exact fun records => appendOutcome_appendBatch hwf records _ _
  · exact fun records producerId => appendOutcome_appendBatch hwf records _ _

end CharlotteBroker.Core
