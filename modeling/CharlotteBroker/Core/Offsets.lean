import CharlotteBroker.Core.Isolation

/-!
# The three offsets of a log

The start offset, the last stable offset and the high watermark stay in this order and only move
forward, whatever operation is applied and whether it succeeds (`offsets_forward`).

The last stable offset is recomputed from the batch states at each fetch. It is a greatest lower
bound: an offset is at most the last stable offset as soon as it is at most the high watermark and
the base offset of every pending batch (`le_lastStableOffset`). An operation makes no old batch
pending again (`LogOp.pending_of_effect`) and the batch it appends starts at the old high watermark,
so the old last stable offset is still such a bound.
-/

namespace CharlotteBroker.Core

open PartitionLog

theorem PartitionLog.le_lastStableOffset {log : PartitionLog} {bound : Int}
    (hnext : bound ≤ log.nextOffset)
    (hpending : ∀ batch ∈ log.batches, batch.state = .pending → bound ≤ batch.baseOffset) :
    bound ≤ log.lastStableOffset := by
  unfold PartitionLog.lastStableOffset
  split
  · next batch hfind =>
      have hstate := List.find?_some hfind
      simp only [Bool.and_eq_true, beq_iff_eq] at hstate
      exact hpending batch (List.mem_of_find?_eq_some hfind) hstate.2
  · exact hnext

theorem PartitionLog.WellFormed.lastStableOffset_le_baseOffset {log : PartitionLog}
    (hlog : log.WellFormed) {batch : StoredBatch} (hb : batch ∈ log.batches)
    (hp : batch.state = .pending) : log.lastStableOffset ≤ batch.baseOffset := by
  by_contra hlt
  have hbelow := (hlog.lt_lastStableOffset_iff (hlog.baseOffset_lt hb)).mp (Int.not_le.mp hlt)
  have hself := belowPending_iff.mp hbelow batch hb hp
  exact absurd hself (lt_irrefl _)

theorem PartitionLog.WellFormed.lastStableOffset_le {log : PartitionLog} (hlog : log.WellFormed) :
    log.lastStableOffset ≤ log.nextOffset := by
  unfold PartitionLog.lastStableOffset
  split
  · next batch hfind => exact le_of_lt (hlog.baseOffset_lt (List.mem_of_find?_eq_some hfind))
  · exact le_rfl

theorem PartitionLog.WellFormed.startOffset_le_lastStableOffset {log : PartitionLog}
    (hlog : log.WellFormed) : log.startOffset ≤ log.lastStableOffset :=
  le_lastStableOffset hlog.startOffset_le fun _ hb _ => (hlog.mem_bounds hb).1

/-- No operation makes a resolved batch pending again. -/
theorem LogOp.pending_of_effect {op : LogOp} {batch : StoredBatch}
    (h : (op.effect batch).state = .pending) : batch.state = .pending := by
  cases op with
  | commitTransaction producerId commit =>
      by_cases ht : batch.transaction = some producerId
      · have heffect : (LogOp.commitTransaction producerId commit).effect batch =
            { batch with state := outcome commit } := resolve_of_eq commit ht
        rw [heffect] at h
        exact absurd h (outcome_ne_pending commit)
      · have heffect : (LogOp.commitTransaction producerId commit).effect batch = batch :=
          resolve_of_ne commit ht
        rwa [heffect] at h
  | append _ => exact h
  | appendData _ => exact h
  | appendTransactional _ _ => exact h

/-- The last stable offset does not move back, also when a pending batch is appended, resolved or
evicted. -/
theorem LogOp.lastStableOffset_le_apply {log : PartitionLog} (hlog : log.WellFormed) (op : LogOp) :
    log.lastStableOffset ≤ (op.apply log).lastStableOffset := by
  have hle := hlog.lastStableOffset_le
  have hnext := LogOp.nextOffset_le_apply hlog op
  refine le_lastStableOffset (hle.trans hnext) fun batch hb hp => ?_
  rcases LogOp.mem_apply hlog hb with ⟨old, hold, rfl⟩ | ⟨hbase, -⟩
  · rw [LogOp.effect_baseOffset]
    exact hlog.lastStableOffset_le_baseOffset hold (LogOp.pending_of_effect hp)
  · rw [hbase]
    exact hle

/-- Every successful fetch reports the same last stable offset and high watermark. -/
theorem PartitionLog.fetchInner_reports {log : PartitionLog} {args : FetchArgs}
    {window : FetchWindow} (h : log.fetchInner args = .ok window) :
    window.lastStableOffset = log.lastStableOffset ∧ window.highWatermark = log.nextOffset := by
  rw [fetchInner_eq_readable] at h
  split at h
  · cases h
    exact ⟨rfl, rfl⟩
  · cases h

/-- **Offsets only move forward and stay ordered.** For every reachable log, every operation on it
and all fetches before and after the operation: the start offset, the last stable offset the fetches
report and the high watermark they report do not decrease, and
`0 ≤ startOffset ≤ lastStableOffset ≤ highWatermark` before (so, as the log after the operation is
reachable too, always). -/
theorem offsets_forward (limit : Option ℕ) (ops : List LogOp) (op : LogOp) :
    let log := (newLog limit).run ops
    let log' := op.apply log
    (log.startOffset ≤ log'.startOffset ∧ log.lastStableOffset ≤ log'.lastStableOffset ∧
      log.highWatermark ≤ log'.highWatermark) ∧
    (0 ≤ log.startOffset ∧ log.startOffset ≤ log.lastStableOffset ∧
      log.lastStableOffset ≤ log.highWatermark) ∧
    ∀ args window, log.fetchInner args = .ok window →
      window.lastStableOffset = log.lastStableOffset ∧
        window.highWatermark = log.highWatermark := by
  intro log log'
  have hlog : log.WellFormed := run_wellFormed (wellFormed_newLog limit) ops
  refine ⟨⟨?_, ?_, ?_⟩, ⟨?_, ?_, ?_⟩, ?_⟩
  · exact LogOp.startOffset_le_apply hlog op
  · exact LogOp.lastStableOffset_le_apply hlog op
  · exact LogOp.nextOffset_le_apply hlog op
  · exact hlog.nonneg
  · exact hlog.startOffset_le_lastStableOffset
  · exact hlog.lastStableOffset_le
  · intro args window hfetch
    exact fetchInner_reports hfetch

end CharlotteBroker.Core
