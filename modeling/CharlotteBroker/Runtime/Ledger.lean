import CharlotteBroker.Core.LogFetch
import CharlotteBroker.Runtime.Calls

/-!
# Sequential runs with a ledger of transactional appends

A sequential run is a list of calls, each made when the one before has returned. Nothing in the
broker's state says which transaction a stored batch was appended in: a batch carries its producer
id only. The ledger is that record, kept from the outside, from the calls and their results alone.

* `Ledger.since` holds the appends acknowledged since the transactional id's last successful
  initialisation or end; `Ledger.current` those of the transaction the coordinator has open;
  `Ledger.all` every one.
* `LedgerInv` says what the broker's state knows of the ledger: where the batches are, under which
  producer id, and that everything in an open transaction lies in an enlisted partition.
* `Tracked.run_inv`: it holds after every sequential run.
-/

namespace CharlotteBroker.Runtime

open CharlotteBroker.Core Lib

variable {tid : Bytes} {batch : StoredBatch} {key : TopicPartition}

/-- An acknowledged transactional append. -/
structure Appended where
  producer : ProducerIdentity
  key : TopicPartition
  baseOffset : Int
  count : ℕ
  deriving DecidableEq, Repr

/-- What the callers know of the transactions, by transactional id. -/
structure Ledger where
  all : Bytes → List Appended
  since : Bytes → List Appended
  current : Bytes → List Appended
  offsets : Bytes → List TransactionOffset

namespace Ledger

def empty : Ledger := ⟨fun _ => [], fun _ => [], fun _ => [], fun _ => []⟩

/-- A new entry under a transactional id. -/
def push {α : Type} (entries : Bytes → List α) (transactionalId : Bytes) (entry : α) :
    Bytes → List α :=
  Function.update entries transactionalId (entries transactionalId ++ [entry])

theorem mem_push {α : Type} {entries : Bytes → List α} {tid' : Bytes} {entry a : α} :
    a ∈ push entries tid entry tid' ↔ a ∈ entries tid' ∨ tid' = tid ∧ a = entry := by
  unfold push
  rcases eq_or_ne tid' tid with rfl | hne
  · simp
  · rw [Function.update_of_ne hne]
    simp [hne]

theorem mem_update_nil {α : Type} {entries : Bytes → List α} {tid' : Bytes} {a : α} :
    a ∈ Function.update entries tid [] tid' ↔ tid' ≠ tid ∧ a ∈ entries tid' := by
  rcases eq_or_ne tid' tid with rfl | hne
  · simp
  · rw [Function.update_of_ne hne]
    simp [hne]

/-- The ledger after a call. `accepted` says whether the coordinator accepted the end of a
transaction, which the call may yet fail after. -/
def record (ledger : Ledger) (accepted : Bool) : Call → Except BrokerError Answer → Ledger
  | .initProducer transactionalId, .ok _ =>
      { ledger with
        since := Function.update ledger.since transactionalId []
        current := Function.update ledger.current transactionalId []
        offsets := Function.update ledger.offsets transactionalId [] }
  | .produceTransactional transactionalId producer topic partition records, .ok (.offset base) =>
      let entry : Appended := ⟨producer, ⟨topic, partition⟩, base, records.length⟩
      { ledger with
        all := push ledger.all transactionalId entry
        since := push ledger.since transactionalId entry
        current := push ledger.current transactionalId entry }
  | .addTransactionOffset transactionalId _ offset, .ok _ =>
      { ledger with offsets := push ledger.offsets transactionalId offset }
  | .endTransaction transactionalId _ _, result =>
      { ledger with
        since := if result.isOk then Function.update ledger.since transactionalId []
          else ledger.since
        current := if accepted then Function.update ledger.current transactionalId []
          else ledger.current
        offsets := if accepted then Function.update ledger.offsets transactionalId []
          else ledger.offsets }
  | _, _ => ledger

end Ledger

/-- The coordinator accepts the end of the transaction. -/
def accepts (transactions : TransactionCoordinator) : Call → Bool
  | .endTransaction transactionalId producer commit =>
      (transactions.endTransaction transactionalId producer commit).2.isOk
  | _ => false

/-- The shards and the ledger kept beside them. -/
structure Tracked (n : ℕ) where
  shards : Fin n → Shard
  ledger : Ledger

variable {n : ℕ} [NeZero n] (config : ShardConfig)

/-- One call of a sequential run. -/
def Tracked.step (state : Tracked n) (call : Call) : Tracked n where
  shards := (perform config state.shards call).1
  ledger := state.ledger.record (accepts (state.shards 0).transactions call) call
    (perform config state.shards call).2

theorem Tracked.shards_step (state : Tracked n) (call : Call) :
    (state.step config call).shards = (perform config state.shards call).1 := rfl

/-- A sequential run. -/
def Tracked.run (state : Tracked n) (calls : List Call) : Tracked n :=
  calls.foldl (Tracked.step config) state

/-- A broker that has just started. -/
def Tracked.start (n : ℕ) : Tracked n := ⟨startShards n, .empty⟩

@[simp] theorem Tracked.run_nil (state : Tracked n) : state.run config [] = state := rfl

@[simp] theorem Tracked.run_cons (state : Tracked n) (call : Call) (calls : List Call) :
    state.run config (call :: calls) = (state.step config call).run config calls := rfl

theorem Tracked.run_append (state : Tracked n) (calls calls' : List Call) :
    state.run config (calls ++ calls') = (state.run config calls).run config calls' := by
  simp [Tracked.run, List.foldl_append]

/-! ## Where an acknowledged append is -/

/-- The append's batch is stored as it was written, tagged with its producer id, or the log has
dropped it. -/
def Appended.In (entry : Appended) (log : PartitionLog) : Prop :=
  (∃ batch ∈ log.batches, batch.baseOffset = entry.baseOffset ∧
      batch.records.length = entry.count ∧ batch.transaction = some entry.producer.id) ∨
    entry.baseOffset + entry.count ≤ log.startOffset

/-- The range an acknowledged append was given lies in the log's history. -/
structure Appended.Stored (entry : Appended) (log : PartitionLog) : Prop where
  location : entry.In log
  positive : 0 < entry.count
  below : entry.baseOffset + entry.count ≤ log.nextOffset

/-- **One log operation** keeps an acknowledged append where it is, or drops it for good. -/
theorem Appended.Stored.apply {entry : Appended} {log : PartitionLog} (hlog : log.WellFormed)
    (h : entry.Stored log) (op : LogOp) : entry.Stored (op.apply log) := by
  refine ⟨?_, h.positive, le_trans h.below (LogOp.nextOffset_le_apply hlog op)⟩
  rcases h.location with ⟨batch, hb, hbase, hcount, htx⟩ | hdropped
  · rcases LogOp.mem_apply_or_dropped hlog op hb with hkept | hgone
    · left
      refine ⟨op.effect batch, hkept, ?_, ?_, ?_⟩
      · rw [LogOp.effect_baseOffset, hbase]
      · rw [LogOp.effect_records, hcount]
      · rw [LogOp.effect_transaction, htx]
    · right
      unfold StoredBatch.endOffset at hgone
      rwa [hbase, hcount] at hgone
  · exact Or.inr (le_trans hdropped (LogOp.startOffset_le_apply hlog op))

theorem Appended.Stored.run {entry : Appended} {log : PartitionLog} (hlog : log.WellFormed)
    (h : entry.Stored log) (ops : List LogOp) : entry.Stored (log.run ops) := by
  induction ops generalizing log with
  | nil => exact h
  | cons op ops ih => exact ih (LogOp.apply_wellFormed hlog op) (h.apply hlog op)

/-- The batch stored at an acknowledged append's base is that append's. -/
theorem Appended.Stored.batch_eq {entry : Appended} {log : PartitionLog} (hlog : log.WellFormed)
    (h : entry.Stored log) (hb : batch ∈ log.batches) (hbase : batch.baseOffset = entry.baseOffset) :
    batch.records.length = entry.count ∧ batch.transaction = some entry.producer.id := by
  rcases h.location with ⟨stored, hstored, hbase', hcount, htx⟩ | hdropped
  · have heq := hlog.eq_of_baseOffset hb hstored (hbase.trans hbase'.symm)
    rw [heq]
    exact ⟨hcount, htx⟩
  · have hstart := (hlog.mem_bounds hb).1
    have hpos := h.positive
    omega

/-- An accepted append is stored at the old high watermark. -/
theorem stored_of_appendTransactional {log : PartitionLog} (hlog : log.WellFormed)
    {records : List RecordData} {producer : ProducerIdentity} {base : Int} {key : TopicPartition}
    (h : (log.appendTransactional records producer.id).2 = .ok base) :
    Appended.Stored ⟨producer, key, base, records.length⟩
      (log.appendTransactional records producer.id).1 := by
  unfold PartitionLog.appendTransactional at h ⊢
  obtain ⟨happ, rfl, hmem, hnext⟩ := PartitionLog.appendBatch_ok hlog h
  refine ⟨Or.inl ⟨_, hmem, rfl, length_assignOffsets _ _, rfl⟩, ?_, ?_⟩
  · exact List.length_pos_of_ne_nil happ.1
  · exact le_of_eq hnext.symm

/-! ## The invariant -/

/-- What the logs know of the acknowledged appends: where they are, and that there is no other
transactional batch. -/
structure LogsInv (logs : TopicPartition → PartitionLog) (all : Bytes → List Appended) : Prop where
  wellFormed : ∀ key, (logs key).WellFormed
  stored : ∀ tid, ∀ entry ∈ all tid, entry.Stored (logs entry.key)
  complete : ∀ key, ∀ batch ∈ (logs key).batches, batch.transaction ≠ none →
    ∃ tid, ∃ entry ∈ all tid, entry.key = key ∧ entry.baseOffset = batch.baseOffset

/-- What the broker's state knows of the ledger. -/
structure LedgerInv (view : View) (ledger : Ledger) : Prop
    extends LogsInv view.logs ledger.all where
  known : ∀ tid, ∀ entry ∈ ledger.all tid,
    config.catalog.checkPartition entry.key.topic entry.key.partition = .ok ()
  owner : ∀ tid, ∀ entry ∈ ledger.all tid, ∃ transaction,
    view.transactions.transactions[tid]? = some transaction ∧
      transaction.identity.id = entry.producer.id
  since_subset : ∀ tid, ledger.since tid ⊆ ledger.all tid
  current_subset : ∀ tid, ledger.current tid ⊆ ledger.all tid
  enlisted : ∀ tid, ∀ entry ∈ ledger.current tid, ∃ transaction,
    view.transactions.transactions[tid]? = some transaction ∧ transaction.state = .ongoing ∧
      entry.key ∈ transaction.partitions
  offsets : ∀ tid transaction, view.transactions.transactions[tid]? = some transaction →
    transaction.offsets = ledger.offsets tid
  unknown : ∀ tid, view.transactions.transactions[tid]? = none → ledger.offsets tid = []
  nonneg : ∀ tid, ∀ offset ∈ ledger.offsets tid, 0 ≤ offset.partition ∧ 0 ≤ offset.offset

theorem logsInv_start : LogsInv (View.start config).logs fun _ => [] where
  wellFormed _ := PartitionLog.wellFormed_newLog _
  stored _ _ h := by cases h
  complete key batch hb := by
    have hnil : (newLog config.partitionMaxBytes).batches = [] := by
      cases config.partitionMaxBytes <;> rfl
    rw [View.start, hnil] at hb
    cases hb

theorem ledgerInv_start : LedgerInv config (View.start config) .empty where
  toLogsInv := logsInv_start config
  known _ _ h := by cases h
  owner _ _ h := by cases h
  since_subset _ := List.Subset.refl _
  current_subset _ := List.Subset.refl _
  enlisted _ _ h := by cases h
  offsets tid transaction h := by simp [View.start, TransactionCoordinator.new] at h
  unknown _ _ := rfl
  nonneg _ _ h := by cases h

/-- Whatever a call does to the logs, acknowledged appends stay stored, and unless it is a
transactional append no transactional batch appears. -/
theorem LogsInv.perform {view : View} {all : Bytes → List Appended} (h : LogsInv view.logs all)
    (call : Call)
    (hcall : ∀ tid producer topic partition records,
      call ≠ .produceTransactional tid producer topic partition records) :
    LogsInv (view.perform config n call).1.logs all := by
  have hops := perform_logs (n := n) config view call
  refine ⟨?_, ?_, ?_⟩
  · intro key
    obtain ⟨ops, -, hkey⟩ := hops key
    rw [hkey]
    exact PartitionLog.run_wellFormed (h.wellFormed key) ops
  · intro tid entry hentry
    obtain ⟨ops, -, hkey⟩ := hops entry.key
    rw [hkey]
    exact (h.stored tid entry hentry).run (h.wellFormed _) ops
  · intro key batch hb htx
    obtain ⟨ops, hdoes, hkey⟩ := hops key
    rw [hkey] at hb
    obtain ⟨producerId, hproducer⟩ := Option.ne_none_iff_exists'.mp htx
    rcases PartitionLog.mem_run_transaction (h.wellFormed key) hb hproducer with
      ⟨old, hold, hbase, holdtx⟩ | ⟨records, hmem⟩
    · obtain ⟨tid, entry, hentry, hkey', hentrybase⟩ :=
        h.complete key old hold (by rw [holdtx]; exact Option.some_ne_none _)
      exact ⟨tid, entry, hentry, hkey', hentrybase.trans hbase⟩
    · obtain ⟨tid, producer, rfl⟩ := (hdoes _ hmem).produceTransactional
      exact absurd rfl (hcall _ _ _ _ _)

section Preservation

variable {config} {view : View} {ledger : Ledger}

/-- A call that leaves the transaction coordinator alone. -/
theorem LedgerInv.frame (h : LedgerInv config view ledger) {view' : View}
    (hlogs : LogsInv view'.logs ledger.all) (htransactions : view'.transactions = view.transactions) :
    LedgerInv config view' ledger := by
  refine ⟨hlogs, h.known, ?_, h.since_subset, h.current_subset, ?_, ?_, ?_, h.nonneg⟩
  · rw [htransactions]
    exact h.owner
  · rw [htransactions]
    exact h.enlisted
  · rw [htransactions]
    exact h.offsets
  · rw [htransactions]
    exact h.unknown

/-- An accepted transactional append is the one new transactional batch. -/
theorem LogsInv.appended {logs : TopicPartition → PartitionLog} {all : Bytes → List Appended}
    (h : LogsInv logs all) {producer : ProducerIdentity} {records : List RecordData} {base : Int}
    (happend : ((logs key).appendTransactional records producer.id).2 = .ok base) :
    LogsInv (Function.update logs key ((logs key).appendTransactional records producer.id).1)
      (Ledger.push all tid ⟨producer, key, base, records.length⟩) := by
  have hwf := h.wellFormed key
  obtain ⟨-, hbase, -⟩ := PartitionLog.appendBatch_ok hwf happend
  refine ⟨?_, ?_, ?_⟩
  · intro key'
    rcases eq_or_ne key' key with rfl | hne
    · rw [Function.update_self]
      exact LogOp.apply_wellFormed hwf (.appendTransactional records producer.id)
    · rw [Function.update_of_ne hne]
      exact h.wellFormed key'
  · intro tid' entry hentry
    rcases Ledger.mem_push.mp hentry with hold | ⟨-, rfl⟩
    · rcases eq_or_ne entry.key key with hkey | hne
      · have hstored := h.stored tid' entry hold
        rw [hkey] at hstored ⊢
        rw [Function.update_self]
        exact hstored.apply hwf (.appendTransactional records producer.id)
      · rw [Function.update_of_ne hne]
        exact h.stored tid' entry hold
    · rw [Function.update_self]
      exact stored_of_appendTransactional hwf happend
  · intro key' batch hb htx
    have hentered : batch ∈ (logs key').batches → ∃ tid', ∃ entry ∈
        Ledger.push all tid ⟨producer, key, base, records.length⟩ tid',
          entry.key = key' ∧ entry.baseOffset = batch.baseOffset := by
      intro hold
      obtain ⟨tid', entry, hentry, hrest⟩ := h.complete key' batch hold htx
      exact ⟨tid', entry, Ledger.mem_push.mpr (Or.inl hentry), hrest⟩
    rcases eq_or_ne key' key with rfl | hne
    · rw [Function.update_self] at hb
      rcases PartitionLog.mem_appendBatch hwf hb with hold | ⟨-, rfl⟩
      · exact hentered hold
      · exact ⟨tid, _, Ledger.mem_push.mpr (Or.inr ⟨rfl, rfl⟩), rfl, hbase⟩
    · rw [Function.update_of_ne hne] at hb
      exact hentered hb

/-- An acknowledged append is entered everywhere. -/
theorem LedgerInv.produced (h : LedgerInv config view ledger) {producer : ProducerIdentity}
    {topic : Bytes} {partition : Int} {records : List RecordData}
    (hvalid : view.transactions.validateProduce tid producer topic partition = .ok ())
    (hcheck : config.catalog.checkPartition topic partition = .ok ()) {base : Int}
    (happend : ((view.logs ⟨topic, partition⟩).appendTransactional records producer.id).2 =
      .ok base) :
    LedgerInv config
      { view with
        logs := Function.update view.logs ⟨topic, partition⟩
          ((view.logs ⟨topic, partition⟩).appendTransactional records producer.id).1 }
      (ledger.record false (.produceTransactional tid producer topic partition records)
        (.ok (.offset base))) := by
  obtain ⟨transaction, hget, hid, hongoing, hmem⟩ :=
    TransactionCoordinator.validateProduce_ok hvalid
  refine ⟨h.appended happend, ?_, ?_, ?_, ?_, ?_, h.offsets, h.unknown, h.nonneg⟩
  · intro tid' entry hentry
    rcases Ledger.mem_push.mp hentry with hold | ⟨-, rfl⟩
    · exact h.known tid' entry hold
    · exact hcheck
  · intro tid' entry hentry
    rcases Ledger.mem_push.mp hentry with hold | ⟨rfl, rfl⟩
    · exact h.owner tid' entry hold
    · exact ⟨transaction, hget, congrArg ProducerIdentity.id hid⟩
  · intro tid' entry hentry
    rcases Ledger.mem_push.mp hentry with hold | hlast
    · exact Ledger.mem_push.mpr (Or.inl (h.since_subset tid' hold))
    · exact Ledger.mem_push.mpr (Or.inr hlast)
  · intro tid' entry hentry
    rcases Ledger.mem_push.mp hentry with hold | hlast
    · exact Ledger.mem_push.mpr (Or.inl (h.current_subset tid' hold))
    · exact Ledger.mem_push.mpr (Or.inr hlast)
  · intro tid' entry hentry
    rcases Ledger.mem_push.mp hentry with hold | ⟨rfl, rfl⟩
    · exact h.enlisted tid' entry hold
    · exact ⟨transaction, hget, hongoing, hmem⟩

/-- The transaction of one transactional id is replaced, and the ledger's entries under that id
shrink accordingly. -/
theorem LedgerInv.replace (h : LedgerInv config view ledger) {view' : View} {ledger' : Ledger}
    {transaction : Transaction} (hlogs : LogsInv view'.logs ledger.all)
    (htx : view'.transactions.transactions =
      view.transactions.transactions.insert tid transaction)
    (hid : ∀ old, view.transactions.transactions[tid]? = some old →
      transaction.identity.id = old.identity.id) (hall : ledger'.all = ledger.all)
    (hsince : ∀ tid, ledger'.since tid ⊆ ledger.since tid)
    (hcurrent : ∀ tid, ledger'.current tid ⊆ ledger.current tid)
    (henlisted : ∀ entry ∈ ledger'.current tid,
      transaction.state = .ongoing ∧ entry.key ∈ transaction.partitions)
    (hoffsets : transaction.offsets = ledger'.offsets tid)
    (hothers : ∀ tid', tid' ≠ tid → ledger'.offsets tid' = ledger.offsets tid')
    (hnonneg : ∀ offset ∈ ledger'.offsets tid, 0 ≤ offset.partition ∧ 0 ≤ offset.offset) :
    LedgerInv config view' ledger' := by
  refine ⟨?_, ?_, ?_, ?_, ?_, ?_, ?_, ?_, ?_⟩
  · rw [hall]
    exact hlogs
  · rw [hall]
    exact h.known
  · intro tid' entry hentry
    rw [hall] at hentry
    obtain ⟨old, hold, hoid⟩ := h.owner tid' entry hentry
    rw [htx, getElem?_insert_eq_ite]
    rcases eq_or_ne tid' tid with rfl | hne
    · rw [if_pos rfl]
      exact ⟨transaction, rfl, (hid old hold).trans hoid⟩
    · rw [if_neg hne]
      exact ⟨old, hold, hoid⟩
  · intro tid' entry hentry
    rw [hall]
    exact h.since_subset tid' (hsince tid' hentry)
  · intro tid' entry hentry
    rw [hall]
    exact h.current_subset tid' (hcurrent tid' hentry)
  · intro tid' entry hentry
    rw [htx, getElem?_insert_eq_ite]
    rcases eq_or_ne tid' tid with rfl | hne
    · rw [if_pos rfl]
      exact ⟨transaction, rfl, henlisted entry hentry⟩
    · rw [if_neg hne]
      exact h.enlisted tid' entry (hcurrent tid' hentry)
  · intro tid' found hfound
    rw [htx, getElem?_insert_eq_ite] at hfound
    rcases eq_or_ne tid' tid with rfl | hne
    · rw [if_pos rfl] at hfound
      cases hfound
      exact hoffsets
    · rw [if_neg hne] at hfound
      rw [hothers tid' hne]
      exact h.offsets tid' found hfound
  · intro tid' hnone
    rw [htx, getElem?_insert_eq_ite] at hnone
    rcases eq_or_ne tid' tid with rfl | hne
    · rw [if_pos rfl] at hnone
      cases hnone
    · rw [if_neg hne] at hnone
      rw [hothers tid' hne]
      exact h.unknown tid' hnone
  · intro tid' offset hoffset
    rcases eq_or_ne tid' tid with rfl | hne
    · exact hnonneg offset hoffset
    · rw [hothers tid' hne] at hoffset
      exact h.nonneg tid' offset hoffset

theorem update_nil_subset {α : Type} (entries : Bytes → List α) (tid tid' : Bytes) :
    Function.update entries tid [] tid' ⊆ entries tid' :=
  fun _ h => (Ledger.mem_update_nil.mp h).2

/-- The transaction of one transactional id is emptied, and so are the ledger's entries of it. -/
theorem LedgerInv.close (h : LedgerInv config view ledger) {view' : View} {ledger' : Ledger}
    {identity : ProducerIdentity} (hlogs : LogsInv view'.logs ledger.all)
    (htx : view'.transactions.transactions =
      view.transactions.transactions.insert tid ⟨identity, .empty, ∅, []⟩)
    (hid : ∀ old, view.transactions.transactions[tid]? = some old → identity.id = old.identity.id)
    (hall : ledger'.all = ledger.all) (hsince : ∀ tid, ledger'.since tid ⊆ ledger.since tid)
    (hcurrent : ledger'.current = Function.update ledger.current tid [])
    (hoffsets : ledger'.offsets = Function.update ledger.offsets tid []) :
    LedgerInv config view' ledger' := by
  refine h.replace hlogs htx hid hall hsince ?_ ?_ ?_ ?_ ?_
  · intro tid'
    rw [hcurrent]
    exact update_nil_subset _ _ _
  · intro entry hentry
    rw [hcurrent] at hentry
    exact absurd rfl (Ledger.mem_update_nil.mp hentry).1
  · rw [hoffsets, Function.update_self]
  · intro tid' hne
    rw [hoffsets, Function.update_of_ne hne]
  · intro offset hoffset
    rw [hoffsets] at hoffset
    exact absurd rfl (Ledger.mem_update_nil.mp hoffset).1

theorem LedgerInv.perform_initProducer (h : LedgerInv config view ledger) (tid : Bytes) :
    LedgerInv config (view.perform config n (.initProducer tid)).1
      (ledger.record false (.initProducer tid) (view.perform config n (.initProducer tid)).2) := by
  have hlogs := h.toLogsInv.perform (n := n) config (.initProducer tid) (by simp)
  have hperform := Runtime.perform_initProducer (n := n) config view tid
  rcases hinit : (view.transactions.init tid).2 with error | issued
  · have hresult : (view.perform config n (.initProducer tid)).2 =
        .error (.coordination error) := by
      rw [hperform, hinit]
      rfl
    rw [hresult]
    refine h.frame hlogs ?_
    rw [hperform]
    exact TransactionCoordinator.init_error hinit
  · have hresult : (view.perform config n (.initProducer tid)).2 = .ok (.identity issued) := by
      rw [hperform, hinit]
      rfl
    obtain ⟨hissued, hstate⟩ := TransactionCoordinator.init_ok hinit
    have htx : (view.perform config n (.initProducer tid)).1.transactions.transactions =
        view.transactions.transactions.insert tid ⟨issued, .empty, ∅, []⟩ := by
      rw [hperform]
      show (view.transactions.init tid).1.transactions = _
      rw [hstate]
    rw [hresult]
    refine h.close hlogs htx ?_ rfl (update_nil_subset _ _) rfl rfl
    intro old hold
    rw [hissued, TransactionCoordinator.issue_id hold]

theorem LedgerInv.perform_addTransactionPartition (h : LedgerInv config view ledger) (tid : Bytes)
    (producer : ProducerIdentity) (topic : Bytes) (partition : Int) :
    LedgerInv config
      (view.perform config n (.addTransactionPartition tid producer topic partition)).1 ledger := by
  have hlogs := h.toLogsInv.perform (n := n) config
    (.addTransactionPartition tid producer topic partition) (by simp)
  have hperform := Runtime.perform_addTransactionPartition (n := n) config view tid producer topic
    partition
  rcases hadd : (view.transactions.addPartition tid producer topic partition).2 with error | ⟨⟩
  · refine h.frame hlogs ?_
    rw [hperform]
    exact TransactionCoordinator.addPartition_error hadd
  · obtain ⟨transaction, hget, hid, hstate⟩ := TransactionCoordinator.addPartition_ok hadd
    have htx : (view.perform config n
        (.addTransactionPartition tid producer topic partition)).1.transactions.transactions =
        view.transactions.transactions.insert tid
          { transaction with
            state := .ongoing
            partitions := transaction.partitions.insert ⟨topic, partition⟩ } := by
      rw [hperform]
      show (view.transactions.addPartition tid producer topic partition).1.transactions = _
      rw [hstate]
    refine h.replace hlogs htx ?_ rfl (fun _ => List.Subset.refl _)
      (fun _ => List.Subset.refl _) ?_ (h.offsets tid transaction hget) (fun _ _ => rfl)
      (h.nonneg tid)
    · intro old hold
      rw [hget] at hold
      cases hold
      rfl
    · intro entry hentry
      obtain ⟨found, hfound, -, hmem⟩ := h.enlisted tid entry hentry
      rw [hget] at hfound
      cases hfound
      exact ⟨rfl, (mem_insert_iff_eq_or _ _ _).mpr (Or.inr hmem)⟩

theorem LedgerInv.perform_addTransactionOffset (h : LedgerInv config view ledger) (tid : Bytes)
    (producer : ProducerIdentity) (offset : TransactionOffset) :
    LedgerInv config (view.perform config n (.addTransactionOffset tid producer offset)).1
      (ledger.record false (.addTransactionOffset tid producer offset)
        (view.perform config n (.addTransactionOffset tid producer offset)).2) := by
  have hlogs := h.toLogsInv.perform (n := n) config
    (.addTransactionOffset tid producer offset) (by simp)
  have hperform := Runtime.perform_addTransactionOffset (n := n) config view tid producer offset
  rcases hadd : (view.transactions.addOffset tid producer offset).2 with error | ⟨⟩
  · have hresult : (view.perform config n (.addTransactionOffset tid producer offset)).2 =
        .error (.coordination error) := by
      rw [hperform, hadd]
      rfl
    rw [hresult]
    refine h.frame hlogs ?_
    rw [hperform]
    exact TransactionCoordinator.addOffset_error hadd
  · have hresult : (view.perform config n (.addTransactionOffset tid producer offset)).2 =
        .ok .done := by
      rw [hperform, hadd]
      rfl
    obtain ⟨hvalid, transaction, hget, hid, hongoing, hstate⟩ :=
      TransactionCoordinator.addOffset_ok hadd
    have htx : (view.perform config n
        (.addTransactionOffset tid producer offset)).1.transactions.transactions =
        view.transactions.transactions.insert tid
          { transaction with offsets := transaction.offsets ++ [offset] } := by
      rw [hperform]
      show (view.transactions.addOffset tid producer offset).1.transactions = _
      rw [hstate]
    rw [hresult]
    refine h.replace hlogs htx ?_ rfl (fun _ => List.Subset.refl _)
      (fun _ => List.Subset.refl _) ?_ ?_ ?_ ?_
    · intro old hold
      rw [hget] at hold
      cases hold
      rfl
    · intro entry hentry
      obtain ⟨found, hfound, hstate, hmem⟩ := h.enlisted tid entry hentry
      rw [hget] at hfound
      cases hfound
      exact ⟨hstate, hmem⟩
    · show transaction.offsets ++ [offset] = Ledger.push ledger.offsets tid offset tid
      unfold Ledger.push
      rw [Function.update_self, h.offsets tid transaction hget]
    · intro tid' hne
      exact Function.update_of_ne hne ..
    · intro o ho
      rcases Ledger.mem_push.mp ho with hold | ⟨-, rfl⟩
      · exact h.nonneg tid o hold
      · exact hvalid

/-- The transaction coordinator after an accepted end is the coordinator's own doing: neither the
resolutions nor the offset commits touch it. -/
theorem perform_endTransaction_transactions (tid : Bytes) (producer : ProducerIdentity)
    (commit : Bool) :
    (view.perform config n (.endTransaction tid producer commit)).1.transactions =
      (view.transactions.endTransaction tid producer commit).1 := by
  rw [perform_endTransaction]
  rcases view.transactions.endTransaction tid producer commit with
      ⟨transactions, error | completion⟩
  · rfl
  · cases commit <;> rfl

theorem LedgerInv.perform_endTransaction (h : LedgerInv config view ledger) (tid : Bytes)
    (producer : ProducerIdentity) (commit : Bool) :
    LedgerInv config (view.perform config n (.endTransaction tid producer commit)).1
      (ledger.record (accepts view.transactions (.endTransaction tid producer commit))
        (.endTransaction tid producer commit)
        (view.perform config n (.endTransaction tid producer commit)).2) := by
  have hlogs := h.toLogsInv.perform (n := n) config (.endTransaction tid producer commit) (by simp)
  have htransactions := @perform_endTransaction_transactions n _ config view tid producer commit
  rcases hend : (view.transactions.endTransaction tid producer commit).2 with error | completion
  · have hresult : (view.perform config n (.endTransaction tid producer commit)).2 =
        .error (.coordination error) := by
      rw [Runtime.perform_endTransaction]
      rcases hpair : view.transactions.endTransaction tid producer commit with
          ⟨transactions, result⟩
      rw [hpair] at hend
      subst hend
      rfl
    have haccepts : accepts view.transactions (.endTransaction tid producer commit) = false := by
      simp only [accepts, hend, Except.isOk, Except.toBool]
    rw [hresult, haccepts]
    refine h.frame hlogs ?_
    rw [htransactions, TransactionCoordinator.endTransaction_error hend]
  · obtain ⟨transaction, hget, hid, -, -, hstate⟩ := TransactionCoordinator.endTransaction_ok hend
    have htx : (view.perform config n
        (.endTransaction tid producer commit)).1.transactions.transactions =
        view.transactions.transactions.insert tid ⟨transaction.identity, .empty, ∅, []⟩ := by
      rw [htransactions, hstate]
    have haccepts : accepts view.transactions (.endTransaction tid producer commit) = true := by
      simp only [accepts, hend, Except.isOk, Except.toBool]
    rw [haccepts]
    refine h.close hlogs htx ?_ rfl ?_ rfl rfl
    · intro old hold
      rw [hget] at hold
      cases hold
      rfl
    · intro tid'
      show (if _ then Function.update ledger.since tid [] else ledger.since) tid' ⊆ _
      split
      · exact update_nil_subset _ _ _
      · exact List.Subset.refl _

theorem LedgerInv.perform_produceTransactional (h : LedgerInv config view ledger) (tid : Bytes)
    (producer : ProducerIdentity) (topic : Bytes) (partition : Int) (records : List RecordData) :
    LedgerInv config
      (view.perform config n (.produceTransactional tid producer topic partition records)).1
      (ledger.record false (.produceTransactional tid producer topic partition records)
        (view.perform config n
          (.produceTransactional tid producer topic partition records)).2) := by
  rcases hvalid : view.transactions.validateProduce tid producer topic partition with error | ⟨⟩
  · rw [perform_produceTransactional_invalid config view records hvalid]
    exact h
  · rcases hcheck : config.catalog.checkPartition topic partition with error | ⟨⟩
    · rw [perform_produceTransactional_unknown config view records hvalid hcheck]
      exact h
    · rw [Runtime.perform_produceTransactional config view records hvalid hcheck]
      rcases happend : ((view.logs ⟨topic, partition⟩).appendTransactional records
        producer.id).2 with error | base
      · refine h.frame ?_ rfl
        have hsame := PartitionLog.appendBatch_error happend
        show LogsInv (Function.update view.logs _
          ((view.logs ⟨topic, partition⟩).appendTransactional records producer.id).1) _
        unfold PartitionLog.appendTransactional
        rw [hsame, Function.update_eq_self]
        exact h.toLogsInv
      · exact h.produced hvalid hcheck happend

/-- **Every call keeps the ledger's invariant.** -/
theorem LedgerInv.perform (h : LedgerInv config view ledger) (call : Call) :
    LedgerInv config (view.perform config n call).1
      (ledger.record (accepts view.transactions call) call (view.perform config n call).2) := by
  cases call with
  | initProducer tid => exact h.perform_initProducer tid
  | addTransactionPartition tid producer topic partition =>
      exact h.perform_addTransactionPartition tid producer topic partition
  | addTransactionOffset tid producer offset =>
      exact h.perform_addTransactionOffset tid producer offset
  | endTransaction tid producer commit => exact h.perform_endTransaction tid producer commit
  | produceTransactional tid producer topic partition records =>
      exact h.perform_produceTransactional tid producer topic partition records
  | _ =>
      exact h.frame (h.toLogsInv.perform config _ (by simp)) (perform_transactions config view rfl)

end Preservation

/-! ## Runs -/

/-- The shards show a view that the ledger describes. -/
def Tracked.Inv (state : Tracked n) : Prop :=
  ∃ view, Refines config state.shards view ∧ LedgerInv config view state.ledger

variable {config}

theorem Tracked.Inv.step {state : Tracked n} (h : state.Inv config) (call : Call) :
    (state.step config call).Inv config := by
  obtain ⟨view, hrefines, hledger⟩ := h
  obtain ⟨hrefines', hresult⟩ := perform_refines config hrefines call
  refine ⟨_, hrefines', ?_⟩
  have htransactions : (state.shards 0).transactions = view.transactions := by
    rw [← hrefines.2]
    rfl
  unfold Tracked.step
  rw [hresult, htransactions]
  exact hledger.perform call

/-- **The ledger's invariant holds after every sequential run.** -/
theorem Tracked.run_inv {state : Tracked n} (h : state.Inv config) (calls : List Call) :
    (state.run config calls).Inv config := by
  induction calls generalizing state with
  | nil => exact h
  | cons call calls ih => exact ih (h.step call)

theorem Tracked.start_inv : (Tracked.start n).Inv config :=
  ⟨View.start config, refines_start config, ledgerInv_start config⟩

/-! ## What the shards hold -/

/-- Some shard's log of `key` holds the batch. -/
def Holds (shards : Fin n → Shard) (key : TopicPartition) (batch : StoredBatch) : Prop :=
  ∃ shard log, (shards shard).logs[key]? = some log ∧ batch ∈ log.batches

omit [NeZero n] in
theorem holds_iff_any {shards : Fin n → Shard} :
    Holds shards key batch ↔
      ∃ shard,
        ((shards shard).logs[key]?).any (fun log => decide (batch ∈ log.batches)) = true := by
  unfold Holds
  refine exists_congr fun shard => ?_
  simp [Option.any_eq_true]

instance (shards : Fin n → Shard) (key : TopicPartition) (batch : StoredBatch) :
    Decidable (Holds shards key batch) :=
  decidable_of_iff _ holds_iff_any.symm

/-- The batch is the acknowledged append's, and some shard still holds it. -/
def Retained (shards : Fin n → Shard) (entry : Appended) (batch : StoredBatch) : Prop :=
  Holds shards entry.key batch ∧ batch.baseOffset = entry.baseOffset

instance (shards : Fin n → Shard) (entry : Appended) (batch : StoredBatch) :
    Decidable (Retained shards entry batch) :=
  inferInstanceAs (Decidable (_ ∧ _))

/-- The view shows what the shards hold. -/
theorem Refines.holds_iff {shards : Fin n → Shard} {view : View} (h : Refines config shards view) :
    Holds shards key batch ↔ batch ∈ (view.logs key).batches := by
  obtain ⟨hloc, rfl⟩ := h
  have hview : (viewOf config shards).logs key =
      ((shards (shardIndex n key)).logs[key]?).getD (newLog config.partitionMaxBytes) := rfl
  constructor
  · rintro ⟨shard, log, hlog, hb⟩
    have hshard := hloc shard key log hlog
    subst hshard
    rwa [hview, hlog]
  · intro hb
    rcases hlog : (shards (shardIndex n key)).logs[key]? with _ | log
    · have hnil : (newLog config.partitionMaxBytes).batches = [] := by
        cases config.partitionMaxBytes <;> rfl
      rw [hview, hlog, Option.getD_none, hnil] at hb
      cases hb
    · rw [hview, hlog] at hb
      exact ⟨_, log, hlog, hb⟩

theorem Refines.retained_iff {shards : Fin n → Shard} {view : View} (h : Refines config shards view)
    {entry : Appended} :
    Retained shards entry batch ↔
      batch ∈ (view.logs entry.key).batches ∧ batch.baseOffset = entry.baseOffset := by
  unfold Retained
  rw [h.holds_iff]

end CharlotteBroker.Runtime
