import CharlotteBroker.Core.Consumer
import CharlotteBroker.Core.Isolation

/-!
# What a log keeps of an append

* `mem_run_kept`: a stored batch keeps its records and its producer until retention drops it.
* `startOffset_run_unlimited`: without a byte budget nothing is ever dropped.
* `visible_from`: a reader that starts inside a batch shown to it sees the rest of that batch first.
-/

namespace CharlotteBroker.Core

open Lib

/-- A stored batch stays, with its records and its producer, until retention drops it. -/
theorem mem_run_kept {log : PartitionLog} (hlog : log.WellFormed) (ops : List LogOp)
    {batch : StoredBatch} (hb : batch ∈ log.batches) :
    (∃ kept ∈ (log.run ops).batches, kept.baseOffset = batch.baseOffset ∧
        kept.records = batch.records ∧ kept.transaction = batch.transaction) ∨
      batch.endOffset ≤ (log.run ops).startOffset := by
  induction ops generalizing log batch with
  | nil => exact Or.inl ⟨batch, hb, rfl, rfl, rfl⟩
  | cons op ops ih =>
      rcases op.mem_apply_or_dropped hlog hb with hkept | hdropped
      · have hrest := ih (op.apply_wellFormed hlog) hkept
        rwa [op.effect_baseOffset, op.effect_records, op.effect_transaction, op.effect_endOffset]
          at hrest
      · right
        exact hdropped.trans (startOffset_le_run (op.apply_wellFormed hlog) ops)

/-! ## No byte budget -/

theorem appendBatch_unlimited {log : PartitionLog} (hmax : log.maxBytes = none)
    (inputs : List RecordData) (transaction : Option Int) (state : BatchState) :
    (log.appendBatch inputs transaction state).1.maxBytes = none ∧
      (log.appendBatch inputs transaction state).1.startOffset = log.startOffset := by
  unfold PartitionLog.appendBatch
  split
  · exact ⟨hmax, rfl⟩
  · split
    · exact ⟨hmax, rfl⟩
    · unfold PartitionLog.enforceRetention PartitionLog.startOffset
      simp only [hmax, List.head?_append]
      rcases log.batches.head? with _ | batch <;> exact ⟨trivial, rfl⟩

theorem LogOp.apply_unlimited {log : PartitionLog} (hmax : log.maxBytes = none) (op : LogOp) :
    (op.apply log).maxBytes = none ∧ (op.apply log).startOffset = log.startOffset := by
  cases op with
  | append inputs => exact appendBatch_unlimited hmax inputs none .committed
  | appendData records => exact appendBatch_unlimited hmax records none .committed
  | appendTransactional records producerId =>
      exact appendBatch_unlimited hmax records (some producerId) .pending
  | commitTransaction producerId commit =>
      refine ⟨hmax, ?_⟩
      unfold LogOp.apply PartitionLog.commitTransaction PartitionLog.startOffset
      rw [List.head?_map]
      rcases log.batches.head? with _ | batch
      · rfl
      · exact resolve_baseOffset producerId commit batch

/-- **Without a byte budget nothing is dropped.** -/
theorem startOffset_run_unlimited (ops : List LogOp) : ((newLog none).run ops).startOffset = 0 := by
  have hrun : ∀ log : PartitionLog, log.maxBytes = none →
      (log.run ops).startOffset = log.startOffset := by
    induction ops with
    | nil => exact fun log _ => rfl
    | cons op ops ih =>
        intro log hmax
        obtain ⟨hmax', hstart⟩ := op.apply_unlimited hmax
        exact (ih _ hmax').trans hstart
  exact hrun (newLog none) rfl

/-! ## Reading from inside a batch -/

/-- A reader that starts inside a batch shown to it sees the rest of the batch first. -/
theorem visible_from {log : PartitionLog} (hlog : log.WellFormed) {batch : StoredBatch}
    (hb : batch ∈ log.batches) {readCommitted : Bool}
    (hshow : batch.hiddenFrom readCommitted = false) {offset : Int}
    (hlow : batch.baseOffset ≤ offset) :
    ∃ later, log.visible readCommitted offset =
      batch.records.drop (offset - batch.baseOffset).toNat ++ later := by
  obtain ⟨before, after, hsplit⟩ := List.append_of_mem hb
  refine ⟨visibleIn readCommitted offset after, ?_⟩
  -- the batches before it end at or below its first offset
  have hpairwise := contiguous_pairwise hlog.contiguous
  rw [hsplit, List.pairwise_append] at hpairwise
  have hbefore : before.flatMap (StoredBatch.shown readCommitted offset) = [] := by
    rw [List.flatMap_eq_nil_iff]
    intro earlier hearlier
    have hend := hpairwise.2.2 earlier hearlier batch List.mem_cons_self
    have hmem : earlier ∈ log.batches := by
      rw [hsplit]
      exact List.mem_append_left _ hearlier
    exact shown_eq_nil (hlog.batches earlier hmem) (hend.trans hlow)
  have hself : batch.shown readCommitted offset =
      batch.records.drop (offset - batch.baseOffset).toNat := by
    unfold StoredBatch.shown
    rw [if_neg (by rw [hshow]; exact Bool.false_ne_true)]
    exact (hlog.batches batch hb).offsets.filter_le hlow
  unfold PartitionLog.visible visibleIn
  rw [hsplit, List.flatMap_append, hbefore, List.nil_append, List.flatMap_cons, hself]

end CharlotteBroker.Core
