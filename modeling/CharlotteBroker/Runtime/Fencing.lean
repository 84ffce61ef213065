import CharlotteBroker.Core.Isolation
import CharlotteBroker.Runtime.Ledger

/-!
# What becomes of a fenced producer's open transaction

`init_producer` fences the previous identity of a transactional id and forgets what it had
enlisted, but it sends nothing to the shards that hold its batches. The batches stay pending under
a producer id that the next identity shares.

* `fencedForGood_iff`: after a new initialisation the open transaction of the old identity is
  settled for good, nothing of it pending and nothing of it ever read committed, exactly when
  none of its batches was still retained.
* `not_fencedForGood_abandoned`: with one batch retained, the successor's commit publishes it.
-/

namespace CharlotteBroker.Runtime

open CharlotteBroker.Core Lib

variable {n : ℕ} [NeZero n] (config : ShardConfig)

variable {entry : Appended}

/-- The record lies in the range the append was given. -/
def Appended.Covers (entry : Appended) (record : Record) : Prop :=
  entry.baseOffset ≤ record.offset ∧ record.offset < entry.baseOffset + entry.count

/-- After a new initialisation of the transactional id, the appends its old identity had made
since its last success are settled: none is pending, and no read-committed fetch of any
continuation returns a record of one. -/
def FencedForGood (state : Tracked n) (transactionalId : Bytes) : Prop :=
  let fenced := state.step config (.initProducer transactionalId)
  (∀ entry ∈ state.ledger.since transactionalId, ∀ batch,
      Retained fenced.shards entry batch → batch.state ≠ .pending) ∧
    ∀ calls, ∀ entry ∈ state.ledger.since transactionalId, ∀ offset maxRecords maxBytes window,
      (perform config (fenced.run config calls).shards
        (.fetchWithIsolation entry.key.topic entry.key.partition offset maxRecords maxBytes
          true)).2 = .ok (.window window) →
        ∀ record ∈ window.records, ¬ entry.Covers record

/-! ## Dropped appends stay dropped -/

/-- The log no longer holds anything of the append. -/
def Tracked.Dropped (state : Tracked n) (entry : Appended) : Prop :=
  ∃ view, Refines config state.shards view ∧ (view.logs entry.key).WellFormed ∧
    entry.baseOffset + entry.count ≤ (view.logs entry.key).startOffset

variable {config}

theorem Tracked.Dropped.step {state : Tracked n} (h : state.Dropped config entry) (call : Call) :
    (state.step config call).Dropped config entry := by
  obtain ⟨view, hrefines, hwf, hdropped⟩ := h
  obtain ⟨ops, -, hops⟩ := perform_logs (n := n) config view call entry.key
  refine ⟨_, (perform_refines config hrefines call).1, ?_, ?_⟩
  · rw [hops]
    exact PartitionLog.run_wellFormed hwf ops
  · rw [hops]
    exact le_trans hdropped (startOffset_le_run hwf ops)

theorem Tracked.Dropped.run {state : Tracked n} (h : state.Dropped config entry)
    (calls : List Call) :
    (state.run config calls).Dropped config entry := by
  induction calls generalizing state with
  | nil => exact h
  | cons call calls ih => exact ih (h.step call)

/-- No fetch returns a record of a dropped append. -/
theorem Tracked.Dropped.not_covers {state : Tracked n} (h : state.Dropped config entry)
    (hcheck : config.catalog.checkPartition entry.key.topic entry.key.partition = .ok ())
    {offset : Int} {maxRecords maxBytes : ℕ} {window : FetchWindow}
    (hfetch : (perform config state.shards (.fetchWithIsolation entry.key.topic
      entry.key.partition offset maxRecords maxBytes true)).2 = .ok (.window window)) :
    ∀ record ∈ window.records, ¬ entry.Covers record := by
  obtain ⟨view, hrefines, hwf, hdropped⟩ := h
  rw [(perform_refines config hrefines _).2, perform_fetchWithIsolation config view hcheck]
    at hfetch
  rcases hlog : (view.logs entry.key).fetchWithIsolation offset maxRecords maxBytes true with
    error | found
  · rw [hlog] at hfetch
    cases hfetch
  · rw [hlog] at hfetch
    cases hfetch
    intro record hr hcovers
    obtain ⟨-, -, hrecords⟩ := PartitionLog.fetchWithIsolation_ok hwf hlog
    rw [hrecords] at hr
    obtain ⟨batch, hb, -, hmem, -⟩ := mem_visible.mp (mem_of_mem_takeWithin hr)
    have hstart := (hwf.mem_bounds hb).1
    have hbase := (hwf.record_bounds hb hmem).1
    have hbelow := hcovers.2
    omega

/-! ## Retained appends come back -/

/-- A retained append that is committed is returned by the read-committed fetch at its base. -/
theorem Refines.exists_fetch_covers {shards : Fin n → Shard} {view : View}
    (h : Refines config shards view) (hwf : (view.logs entry.key).WellFormed)
    (hcheck : config.catalog.checkPartition entry.key.topic entry.key.partition = .ok ())
    (hstored : entry.Stored (view.logs entry.key)) {batch : StoredBatch}
    (hb : batch ∈ (view.logs entry.key).batches) (hbase : batch.baseOffset = entry.baseOffset)
    (hcommitted : batch.state = .committed) :
    ∃ offset maxRecords maxBytes window,
      (perform config shards (.fetchWithIsolation entry.key.topic entry.key.partition offset
        maxRecords maxBytes true)).2 = .ok (.window window) ∧
        ∃ record ∈ window.records, entry.Covers record := by
  obtain ⟨hcount, -⟩ := hstored.batch_eq hwf hb hbase
  obtain ⟨record, hr⟩ := List.exists_mem_of_ne_nil _ (hwf.batches batch hb).nonempty
  have hshow : batch.hiddenFrom true = false := by simp [StoredBatch.hiddenFrom, hcommitted]
  obtain ⟨window, hfetch, hhead⟩ := (hwf.shows hb hshow hr).first 1 Nat.one_pos 0
  refine ⟨record.offset, 1, 0, window, ?_, record, List.mem_of_mem_head? hhead, ?_⟩
  · rw [(perform_refines config h _).2, perform_fetchWithIsolation config view hcheck, hfetch]
    rfl
  · have hbounds := hwf.record_bounds hb hr
    unfold StoredBatch.endOffset at hbounds
    rw [hbase, hcount] at hbounds
    exact hbounds

/-- What the successor may do with an empty transaction: enlist the partition again and commit. -/
def reopenAndCommit (transactionalId : Bytes) (identity : ProducerIdentity)
    (key : TopicPartition) : List Call :=
  [.addTransactionPartition transactionalId identity key.topic key.partition,
    .endTransaction transactionalId identity true]

/-- **The successor's commit resolves what its predecessor left in the partition.** -/
theorem Refines.reopenAndCommit {state : Tracked n} {view : View}
    (h : Refines config state.shards view) {transactionalId : Bytes} {identity : ProducerIdentity}
    {key : TopicPartition}
    (hget : view.transactions.transactions[transactionalId]? = some ⟨identity, .empty, ∅, []⟩)
    (hcheck : config.catalog.checkPartition key.topic key.partition = .ok ()) :
    ∃ view', Refines config
        (state.run config (reopenAndCommit transactionalId identity key)).shards view' ∧
      view'.logs key = (view.logs key).commitTransaction identity.id true := by
  have hadd := TransactionCoordinator.addPartition_accepts hget rfl
    (TopicCatalog.topic_ne_nil hcheck) (TopicCatalog.partition_nonneg hcheck)
  obtain ⟨hrefines, -⟩ := perform_refines config h
    (.addTransactionPartition transactionalId identity key.topic key.partition)
  rw [perform_addTransactionPartition, hadd] at hrefines
  obtain ⟨hrefines', -⟩ := perform_refines config hrefines
    (.endTransaction transactionalId identity true)
  rw [Runtime.reopenAndCommit, Tracked.run_cons, Tracked.run_cons, Tracked.run_nil,
    Tracked.shards_step, Tracked.shards_step]
  refine ⟨_, hrefines', ?_⟩
  have hend := @TransactionCoordinator.endTransaction_accepts
    ⟨view.transactions.nextId, view.transactions.transactions.insert transactionalId
      ⟨identity, .ongoing, (∅ : Std.ExtTreeSet TopicPartition).insert key, []⟩⟩
    transactionalId ⟨identity, .ongoing, (∅ : Std.ExtTreeSet TopicPartition).insert key, []⟩ true
    Std.ExtTreeMap.getElem?_insert_self rfl
  rw [perform_endTransaction]
  simp only [hend]
  have hreached : Reached n ((∅ : Std.ExtTreeSet TopicPartition).insert key).toList key := by
    refine ⟨key, ?_, rfl⟩
    rw [Std.ExtTreeSet.mem_toList]
    exact (mem_insert_iff_eq_or _ _ _).mpr (Or.inl rfl)
  show (View.resolveAll n _ _ _ _).logs key = _
  rw [View.resolveAll_logs, if_pos hreached]

/-! ## Exactly when -/

/-- The view a successful initialisation leaves: an empty transaction under the issued identity,
the same producer id as before if there was one, and the logs untouched. -/
theorem init_view {view : View} {transactionalId : Bytes} {identity : ProducerIdentity}
    (hinit : (view.perform config n (.initProducer transactionalId)).2 = .ok (.identity identity)) :
    (view.perform config n (.initProducer transactionalId)).1.transactions.transactions[
        transactionalId]? = some ⟨identity, .empty, ∅, []⟩ ∧
      (∀ old, view.transactions.transactions[transactionalId]? = some old →
        identity.id = old.identity.id) ∧
      (view.perform config n (.initProducer transactionalId)).1.logs = view.logs := by
  rw [perform_initProducer] at hinit ⊢
  rcases hissued : (view.transactions.init transactionalId).2 with error | issued
  · rw [hissued] at hinit
    cases hinit
  · rw [hissued] at hinit
    cases hinit
    obtain ⟨hidentity, hstate⟩ := TransactionCoordinator.init_ok hissued
    refine ⟨?_, ?_, rfl⟩
    · rw [hstate]
      exact Std.ExtTreeMap.getElem?_insert_self
    · intro old hold
      rw [hidentity, TransactionCoordinator.issue_id hold]

section Supersede

variable {state : Tracked n} {transactionalId : Bytes} {identity : ProducerIdentity}

/-- Nothing retained, nothing to come back. -/
theorem fencedForGood_of_not_retained (h : state.Inv config)
    (hnone : ∀ entry ∈ state.ledger.since transactionalId, ∀ batch,
      ¬ Retained state.shards entry batch) :
    FencedForGood config state transactionalId := by
  obtain ⟨view, hrefines, hledger⟩ := h
  have hdropped : ∀ entry ∈ state.ledger.since transactionalId, state.Dropped config entry := by
    intro entry hentry
    refine ⟨view, hrefines, hledger.wellFormed _, ?_⟩
    rcases (hledger.stored _ entry (hledger.since_subset _ hentry)).location with
      ⟨batch, hb, hbase, -⟩ | hgone
    · exact absurd (hrefines.retained_iff.mpr ⟨hb, hbase⟩) (hnone entry hentry batch)
    · exact hgone
  refine ⟨?_, ?_⟩
  · intro entry hentry batch hretained
    obtain ⟨view', hrefines', hwf, hgone⟩ :=
      (hdropped entry hentry).step (.initProducer transactionalId)
    obtain ⟨hb, hbase⟩ := hrefines'.retained_iff.mp hretained
    have hstart := (hwf.mem_bounds hb).1
    have hpos := (hledger.stored _ entry (hledger.since_subset _ hentry)).positive
    omega
  · intro calls entry hentry offset maxRecords maxBytes window hfetch
    exact (((hdropped entry hentry).step _).run calls).not_covers
      (hledger.known _ entry (hledger.since_subset _ hentry)) hfetch

/-- A retained append is pending, or readable at once, or readable after the successor's next
commit. -/
theorem FencedForGood.not_retained (h : state.Inv config)
    (hinit : (perform config state.shards (.initProducer transactionalId)).2 =
      .ok (.identity identity)) (hgood : FencedForGood config state transactionalId)
    (hentry : entry ∈ state.ledger.since transactionalId) (batch : StoredBatch) :
    ¬ Retained state.shards entry batch := by
  obtain ⟨view, hrefines, hledger⟩ := h
  obtain ⟨hfenced, hresult⟩ := perform_refines config hrefines (.initProducer transactionalId)
  rw [hresult] at hinit
  obtain ⟨hget, hid, hlogs⟩ := init_view hinit
  have hall := hledger.since_subset _ hentry
  have hcheck := hledger.known _ entry hall
  have hwf := hledger.wellFormed entry.key
  have hstored := hledger.stored _ entry hall
  intro hretained
  obtain ⟨hb, hbase⟩ := hrefines.retained_iff.mp hretained
  obtain ⟨-, htx⟩ := hstored.batch_eq hwf hb hbase
  rw [← hlogs] at hb hwf hstored
  cases hstate : batch.state with
  | pending => exact hgood.1 entry hentry batch (hfenced.retained_iff.mpr ⟨hb, hbase⟩) hstate
  | committed =>
      obtain ⟨offset, maxRecords, maxBytes, window, hfetch, record, hr, hcovers⟩ :=
        hfenced.exists_fetch_covers hwf hcheck hstored hb hbase hstate
      exact hgood.2 [] entry hentry offset maxRecords maxBytes window hfetch record hr hcovers
  | aborted =>
      obtain ⟨old, hold, hproducer⟩ := hledger.owner _ entry hall
      obtain ⟨view', hrefines', hlog'⟩ := @Refines.reopenAndCommit n _ config
        (state.step config (.initProducer transactionalId)) _ hfenced _ _ _ hget hcheck
      -- the commit turns the aborted batch into a committed one
      have hmem : batch.resolve identity.id true ∈ (view'.logs entry.key).batches := by
        rw [hlog']
        exact List.mem_map_of_mem hb
      have hcommitted : (batch.resolve identity.id true).state = .committed := by
        rw [resolve_of_eq true (by rw [htx, hid old hold, hproducer])]
        rfl
      have hwf' : (view'.logs entry.key).WellFormed := by
        rw [hlog']
        exact PartitionLog.commitTransaction_wellFormed hwf _ _
      have hstored' : entry.Stored (view'.logs entry.key) := by
        rw [hlog']
        exact hstored.apply hwf (.commitTransaction identity.id true)
      obtain ⟨offset, maxRecords, maxBytes, window, hfetch, record, hr, hcovers⟩ :=
        hrefines'.exists_fetch_covers hwf' hcheck hstored' hmem
          (by rw [resolve_baseOffset, hbase]) hcommitted
      exact hgood.2 _ entry hentry offset maxRecords maxBytes window hfetch record hr hcovers

end Supersede

/-- **What becomes of a fenced producer's open transaction.** After every sequential run and every
initialisation that supersedes an identity, that identity's unfinished appends are settled for
good exactly when no log retained any of them. -/
theorem fencedForGood_iff (calls : List Call) {transactionalId : Bytes}
    {identity : ProducerIdentity}
    (hinit : (perform config ((Tracked.start n).run config calls).shards
      (.initProducer transactionalId)).2 = .ok (.identity identity)) :
    FencedForGood config ((Tracked.start n).run config calls) transactionalId ↔
      ∀ entry ∈ ((Tracked.start n).run config calls).ledger.since transactionalId, ∀ batch,
        ¬ Retained ((Tracked.start n).run config calls).shards entry batch := by
  have hinv : ((Tracked.start n).run config calls).Inv config :=
    Tracked.run_inv Tracked.start_inv calls
  constructor
  · intro hgood entry hentry batch
    exact hgood.not_retained hinv hinit hentry batch
  · exact fencedForGood_of_not_retained hinv

/-! ## A transaction abandoned and published -/

/-- A producer opens a transaction, appends a record to it and does not end it. -/
def abandoned : List Call :=
  [.initProducer [120], .addTransactionPartition [120] ⟨1, 0⟩ [116] 0,
    .produceTransactional [120] ⟨1, 0⟩ [116] 0 [⟨1, none, some [107]⟩]]

theorem fencedForGood_abandoned_iff :
    (perform oneTopic ((Tracked.start 2).run oneTopic abandoned).shards (.initProducer [120])).2 =
        .ok (.identity ⟨1, 1⟩) ∧
      (FencedForGood oneTopic ((Tracked.start 2).run oneTopic abandoned) [120] ↔
        ∀ entry ∈ ((Tracked.start 2).run oneTopic abandoned).ledger.since [120], ∀ batch,
          ¬ Retained ((Tracked.start 2).run oneTopic abandoned).shards entry batch) := by
  have hinit : (perform oneTopic ((Tracked.start 2).run oneTopic abandoned).shards
      (.initProducer [120])).2 = .ok (.identity ⟨1, 1⟩) := by decide +kernel
  exact ⟨hinit, fencedForGood_iff abandoned hinit⟩

/-- The identity that supersedes the producer enlists the partition, commits, and with that
publishes the record of the abandoned transaction. -/
theorem not_fencedForGood_abandoned :
    ¬ FencedForGood oneTopic ((Tracked.start 2).run oneTopic abandoned) [120] := by
  intro hgood
  refine hgood.2 (reopenAndCommit [120] ⟨1, 1⟩ ⟨[116], 0⟩) ⟨⟨1, 0⟩, ⟨[116], 0⟩, 0, 1⟩
    (by decide +kernel) 0 10 4096 ⟨1, 1, [⟨0, 1, none, some [107]⟩]⟩ (by decide +kernel)
    ⟨0, 1, none, some [107]⟩ (by decide) ?_
  exact ⟨le_rfl, Int.zero_lt_one⟩

end CharlotteBroker.Runtime
