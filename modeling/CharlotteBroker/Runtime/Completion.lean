import CharlotteBroker.Core.Enlistments
import CharlotteBroker.Runtime.Ledger
import Mathlib.Data.List.TakeWhile

/-!
# What a completed transaction covers

The end of a transaction is three things in a row: the coordinator forgets the transaction, every
shard that owns an enlisted partition is resolved, and for a commit the enlisted consumer offsets
go to their groups one by one. The last part can be refused half-way, when a group is no longer at
the generation an offset was enlisted under, and then the call fails with the first two parts done.

* `commitsTogether_iff`: records and consumer offsets commit together or not at all exactly when
  the coordinator refuses, or every enlisted offset is admitted, or what is committed before the
  first refused offset was committed already.
* `endTransaction_completes`: in runs in which every accepted commit of a transactional id finds its
  enlisted offsets admitted, a successful end gives every batch since the last success its outcome
  and touches no batch of anybody else.
-/

namespace CharlotteBroker.Runtime

open CharlotteBroker.Core Lib

/-! ## The enlisted offsets -/

/-- The offset last enlisted for a partition in a group. -/
def lastEnlisted : List TransactionOffset → Bytes → TopicPartition → Option Int
  | [], _, _ => none
  | enlisted :: rest, groupId, key =>
      (lastEnlisted rest groupId key).or
        (if enlisted.groupId = groupId ∧ enlisted.topic = key.topic ∧
          enlisted.partition = key.partition then some enlisted.offset else none)

/-- **Committing the enlisted offsets** stores the last one of each partition among those before
the first that is not admitted, and succeeds if there is no such one. -/
theorem commitAll_spec (groups : GroupCoordinator) (offsets : List TransactionOffset)
    (hnonneg : ∀ offset ∈ offsets, 0 ≤ offset.partition ∧ 0 ≤ offset.offset) :
    (∀ groupId key, (commitAll groups offsets).1.offset groupId key.topic key.partition =
        match lastEnlisted (offsets.takeWhile groups.admits) groupId key with
        | some offset => .ok (some offset)
        | none => groups.offset groupId key.topic key.partition) ∧
      ((commitAll groups offsets).2.isOk = true ↔
        ∀ offset ∈ offsets, groups.admits offset = true) := by
  induction offsets generalizing groups with
  | nil => exact ⟨fun _ _ => rfl, by simp [commitAll, Except.isOk, Except.toBool]⟩
  | cons enlisted rest ih =>
      have hhead := hnonneg enlisted List.mem_cons_self
      rcases hadmits : groups.admits enlisted with _ | _
      · obtain ⟨error, hrefused⟩ := GroupCoordinator.commitEnlisted_of_not_admits hadmits
        simp only [commitAll, hrefused]
        refine ⟨?_, ?_⟩
        · intro groupId key
          simp [List.takeWhile, hadmits, lastEnlisted]
        · simp [Except.isOk, Except.toBool, hadmits]
      · obtain ⟨group, -, hstored⟩ := GroupCoordinator.commitEnlisted_of_admits hadmits hhead
        have hkept := GroupCoordinator.admits_commitEnlisted hadmits hhead
        have hoffset := GroupCoordinator.offset_commitEnlisted hadmits hhead
        have hstep : commitAll groups (enlisted :: rest) =
            commitAll (groups.commitEnlisted enlisted).1 rest := by
          simp only [commitAll, hstored]
        obtain ⟨ihoffset, ihok⟩ := ih (groups.commitEnlisted enlisted).1
          fun offset h => hnonneg offset (List.mem_cons_of_mem _ h)
        rw [hkept] at ihoffset ihok
        rw [hstep]
        refine ⟨?_, ?_⟩
        · intro groupId key
          rw [ihoffset groupId key, List.takeWhile_cons, if_pos hadmits, lastEnlisted, hoffset]
          rcases lastEnlisted (rest.takeWhile groups.admits) groupId key with _ | offset
          · simp only [Option.none_or]
            split <;> rfl
          · rfl
        · rw [ihok]
          simp [hadmits]

/-! ## The accepted end -/

/-- The identity has a transaction open under the transactional id. -/
def Opened (transactions : TransactionCoordinator) (transactionalId : Bytes)
    (producer : ProducerIdentity) : Prop :=
  ∃ transaction, transactions.transactions[transactionalId]? = some transaction ∧
    transaction.identity = producer ∧ transaction.state = .ongoing

variable {n : ℕ} [NeZero n] {config : ShardConfig}

/-- The coordinator refuses to end what is not open, and the call changes nothing. -/
theorem perform_endTransaction_of_not_opened {view : View} {tid : Bytes}
    {producer : ProducerIdentity} (h : ¬ Opened view.transactions tid producer) (commit : Bool) :
    ∃ error, view.perform config n (.endTransaction tid producer commit) =
      (view, .error (.coordination error)) := by
  rcases hend : (view.transactions.endTransaction tid producer commit).2 with error | completion
  · refine ⟨error, ?_⟩
    have hsame := TransactionCoordinator.endTransaction_error hend
    rw [perform_endTransaction,
      show view.transactions.endTransaction tid producer commit = (view.transactions, .error error)
        from Prod.ext hsame hend]
  · obtain ⟨transaction, hget, hid, hongoing, -⟩ := TransactionCoordinator.endTransaction_ok hend
    exact absurd ⟨transaction, hget, hid, hongoing⟩ h

section Accepted

variable {view : View} {tid : Bytes} {transaction : Transaction} (commit : Bool)
  (hget : view.transactions.transactions[tid]? = some transaction)
  (hongoing : transaction.state = .ongoing)

include hget hongoing

theorem perform_endTransaction_of_opened :
    view.perform config n (.endTransaction tid transaction.identity commit) =
      View.finish n
        { view with
          transactions := ⟨view.transactions.nextId, view.transactions.transactions.insert tid
            ⟨transaction.identity, .empty, ∅, []⟩⟩ }
        transaction.identity.id commit ⟨transaction.partitions.toList, transaction.offsets⟩ := by
  rw [perform_endTransaction, TransactionCoordinator.endTransaction_accepts commit hget hongoing]

/-- An accepted end resolves the logs of the shards it reaches. -/
theorem endTransaction_logs (key : TopicPartition) :
    (Reached n transaction.partitions.toList key →
        (view.perform config n (.endTransaction tid transaction.identity commit)).1.logs key =
          (view.logs key).commitTransaction transaction.identity.id commit) ∧
      (¬ Reached n transaction.partitions.toList key →
        (view.perform config n (.endTransaction tid transaction.identity commit)).1.logs key =
          view.logs key) := by
  rw [perform_endTransaction_of_opened commit hget hongoing]
  have hlogs : ∀ completion : TransactionCompletion, ∀ view' : View,
      (view'.finish n transaction.identity.id commit completion).1.logs key =
        (view'.resolveAll n completion.partitions transaction.identity.id commit).logs key := by
    intro completion view'
    cases commit <;> rfl
  rw [hlogs, View.resolveAll_logs]
  exact ⟨fun h => if_pos h, fun h => if_neg h⟩

/-- A batch of another producer is left as it is. -/
theorem endTransaction_keeps {key : TopicPartition} {batch : StoredBatch}
    (hb : batch ∈ (view.logs key).batches)
    (hother : batch.transaction ≠ some transaction.identity.id) :
    batch ∈ ((view.perform config n
      (.endTransaction tid transaction.identity commit)).1.logs key).batches := by
  obtain ⟨hreached, hunreached⟩ := @endTransaction_logs n _ config _ _ _ commit hget hongoing key
  by_cases h : Reached n transaction.partitions.toList key
  · rw [hreached h]
    exact List.mem_map.mpr ⟨batch, hb, resolve_of_ne commit hother⟩
  · rw [hunreached h]
    exact hb

end Accepted

/-! ## Records and consumer offsets -/

variable (config) in
/-- The commit of a transaction is whole or nothing. If it succeeds, the retained batches of the
transaction are committed and every partition's last enlisted offset is stored; if it fails, no
batch of the transaction became committed and no group's offsets changed. -/
def CommitsTogether (state : Tracked n) (tid : Bytes) (producer : ProducerIdentity) : Prop :=
  let ended := state.step config (.endTransaction tid producer true)
  match (perform config state.shards (.endTransaction tid producer true)).2 with
  | .ok _ =>
      (∀ entry ∈ state.ledger.current tid, ∀ batch, Retained ended.shards entry batch →
        batch.state = .committed) ∧
      ∀ groupId key offset, lastEnlisted (state.ledger.offsets tid) groupId key = some offset →
        (ended.shards 0).groups.offset groupId key.topic key.partition = .ok (some offset)
  | .error _ =>
      (∀ entry ∈ state.ledger.current tid, ∀ batch, Retained ended.shards entry batch →
        batch.state = .committed → Retained state.shards entry batch) ∧
      ∀ groupId (key : TopicPartition),
        (ended.shards 0).groups.offset groupId key.topic key.partition =
          (state.shards 0).groups.offset groupId key.topic key.partition

/-- The coordinator refuses; or no enlisted offset is refused; or all that is done before the
first refused one had been done before the call. -/
def NothingHalfDone (state : Tracked n) (tid : Bytes) (producer : ProducerIdentity) : Prop :=
  ¬ Opened (state.shards 0).transactions tid producer ∨
    (∀ offset ∈ state.ledger.offsets tid, (state.shards 0).groups.admits offset = true) ∨
    (∀ entry ∈ state.ledger.current tid, ∀ batch, Retained state.shards entry batch →
        batch.state = .committed) ∧
      ∀ groupId key offset,
        lastEnlisted ((state.ledger.offsets tid).takeWhile (state.shards 0).groups.admits) groupId
            key = some offset →
          (state.shards 0).groups.offset groupId key.topic key.partition = .ok (some offset)

section Together

variable {state : Tracked n} {view : View} {tid : Bytes} {transaction : Transaction}
  (hrefines : Refines config state.shards view) (hledger : LedgerInv config view state.ledger)
  (hget : view.transactions.transactions[tid]? = some transaction)
  (hongoing : transaction.state = .ongoing)

include hrefines hledger hget hongoing

/-- A batch of the open transaction is one of its log's before the end, and after the end it is
that batch with the outcome. -/
theorem current_resolved (commit : Bool) {entry : Appended}
    (hentry : entry ∈ state.ledger.current tid) {batch : StoredBatch} :
    Retained (state.step config (.endTransaction tid transaction.identity commit)).shards entry
        batch ↔
      ∃ old, Retained state.shards entry old ∧ batch = { old with state := outcome commit } := by
  obtain ⟨hrefines', -⟩ := perform_refines config hrefines
    (.endTransaction tid transaction.identity commit)
  obtain ⟨found, hfound, -, hkey⟩ := hledger.enlisted tid entry hentry
  rw [hget] at hfound
  cases hfound
  have hreached : Reached n transaction.partitions.toList entry.key :=
    ⟨entry.key, Std.ExtTreeSet.mem_toList.mpr hkey, rfl⟩
  have hall := hledger.current_subset tid hentry
  obtain ⟨owner, howner, hid⟩ := hledger.owner tid entry hall
  rw [hget] at howner
  cases howner
  have hresolve : ∀ old ∈ (view.logs entry.key).batches, old.baseOffset = entry.baseOffset →
      old.resolve transaction.identity.id commit = { old with state := outcome commit } := by
    intro old hold hbase
    apply resolve_of_eq
    rw [((hledger.stored tid entry hall).batch_eq (hledger.wellFormed _) hold hbase).2, hid]
  unfold Tracked.step
  rw [hrefines'.retained_iff, (endTransaction_logs commit hget hongoing entry.key).1 hreached]
  constructor
  · rintro ⟨hb, hbase⟩
    obtain ⟨old, hold, rfl⟩ := List.mem_map.mp hb
    rw [resolve_baseOffset] at hbase
    exact ⟨old, hrefines.retained_iff.mpr ⟨hold, hbase⟩, hresolve old hold hbase⟩
  · rintro ⟨old, hretained, rfl⟩
    obtain ⟨hold, hbase⟩ := hrefines.retained_iff.mp hretained
    exact ⟨List.mem_map.mpr ⟨old, hold, hresolve old hold hbase⟩, hbase⟩

/-- What the groups answer after the commit of an open transaction, and whether it succeeds. -/
theorem commit_groups :
    (∀ groupId key,
        ((state.step config (.endTransaction tid transaction.identity true)).shards 0).groups.offset
            groupId key.topic key.partition =
          match lastEnlisted ((state.ledger.offsets tid).takeWhile (state.shards 0).groups.admits)
              groupId key with
          | some offset => .ok (some offset)
          | none => (state.shards 0).groups.offset groupId key.topic key.partition) ∧
      ((perform config state.shards (.endTransaction tid transaction.identity true)).2.isOk = true ↔
        ∀ offset ∈ state.ledger.offsets tid, (state.shards 0).groups.admits offset = true) := by
  obtain ⟨hrefines', hresult⟩ := perform_refines config hrefines
    (.endTransaction tid transaction.identity true)
  have hgroups : (state.shards 0).groups = view.groups := by
    rw [← hrefines.2]
    rfl
  have hgroups' : ((state.step config
      (.endTransaction tid transaction.identity true)).shards 0).groups =
      (commitAll view.groups (state.ledger.offsets tid)).1 := by
    rw [perform_endTransaction_of_opened true hget hongoing, hledger.offsets tid _ hget] at hrefines'
    show ((perform config state.shards _).1 0).groups = _
    exact congrArg View.groups hrefines'.2
  obtain ⟨hoffset, hok⟩ := commitAll_spec view.groups (state.ledger.offsets tid)
    (hledger.nonneg tid)
  rw [hgroups, hgroups', hresult, perform_endTransaction_of_opened true hget hongoing,
    hledger.offsets tid _ hget, ← hok]
  refine ⟨hoffset, ?_⟩
  show Except.isOk (Except.map _ (Except.mapError _ (commitAll view.groups _).2)) = true ↔ _
  rcases (commitAll view.groups (state.ledger.offsets tid)).2 with error | value <;> exact Iff.rfl

end Together

/-- A refused end changes nothing. -/
theorem commitsTogether_of_not_opened {state : Tracked n} {view : View} {tid : Bytes}
    {producer : ProducerIdentity} (hrefines : Refines config state.shards view)
    (hopen : ¬ Opened view.transactions tid producer) :
    CommitsTogether config state tid producer := by
  obtain ⟨error, hperform⟩ :=
    @perform_endTransaction_of_not_opened n _ config view tid producer hopen true
  obtain ⟨hrefines', hresult⟩ := perform_refines config hrefines (.endTransaction tid producer true)
  rw [hperform] at hrefines' hresult
  unfold CommitsTogether
  rw [hresult]
  refine ⟨?_, ?_⟩
  · intro entry _ batch hretained _
    rw [hrefines.retained_iff]
    exact hrefines'.retained_iff.mp hretained
  · intro groupId key
    have hgroups : ((perform config state.shards (.endTransaction tid producer true)).1 0).groups =
        (state.shards 0).groups := by
      rw [show (state.shards 0).groups = view.groups from congrArg View.groups hrefines.2]
      exact congrArg View.groups hrefines'.2
    show ((perform config state.shards _).1 0).groups.offset _ _ _ = _
    rw [hgroups]

/-- If all enlisted offsets are admitted, everything is committed. -/
theorem commitsTogether_of_admitted {state : Tracked n} {view : View} {tid : Bytes}
    {transaction : Transaction} (hrefines : Refines config state.shards view)
    (hledger : LedgerInv config view state.ledger)
    (hget : view.transactions.transactions[tid]? = some transaction)
    (hongoing : transaction.state = .ongoing)
    (hadmitted : ∀ offset ∈ state.ledger.offsets tid, (state.shards 0).groups.admits offset = true) :
    CommitsTogether config state tid transaction.identity := by
  obtain ⟨hoffset, hok⟩ := commit_groups hrefines hledger hget hongoing
  unfold CommitsTogether
  rcases hresult : (perform config state.shards
    (.endTransaction tid transaction.identity true)).2 with error | answer
  · rw [hresult] at hok
    cases hok.mpr hadmitted
  · refine ⟨?_, ?_⟩
    · intro entry hentry batch hretained
      obtain ⟨old, -, rfl⟩ :=
        (current_resolved hrefines hledger hget hongoing true hentry).mp hretained
      rfl
    · intro groupId key offset hlast
      rw [hoffset, List.takeWhile_eq_self_iff.mpr hadmitted, hlast]

/-- If some enlisted offset is refused, the call fails, and it is as if it had not been made only
if what it did had been done. -/
theorem commitsTogether_iff_of_refused {state : Tracked n} {view : View} {tid : Bytes}
    {transaction : Transaction} (hrefines : Refines config state.shards view)
    (hledger : LedgerInv config view state.ledger)
    (hget : view.transactions.transactions[tid]? = some transaction)
    (hongoing : transaction.state = .ongoing)
    (hrefused : ¬ ∀ offset ∈ state.ledger.offsets tid,
      (state.shards 0).groups.admits offset = true) :
    CommitsTogether config state tid transaction.identity ↔
      (∀ entry ∈ state.ledger.current tid, ∀ batch, Retained state.shards entry batch →
        batch.state = .committed) ∧
      ∀ groupId key offset,
        lastEnlisted ((state.ledger.offsets tid).takeWhile (state.shards 0).groups.admits) groupId
            key = some offset →
          (state.shards 0).groups.offset groupId key.topic key.partition = .ok (some offset) := by
  obtain ⟨hoffset, hok⟩ := commit_groups hrefines hledger hget hongoing
  unfold CommitsTogether
  rcases hresult : (perform config state.shards
    (.endTransaction tid transaction.identity true)).2 with error | answer
  · refine and_congr ?_ ?_
    · refine forall₂_congr fun entry hentry => ?_
      have hresolved := @current_resolved n _ config state view tid transaction hrefines hledger
        hget hongoing true entry hentry
      constructor
      · intro hnew batch hretained
        -- the batch with its outcome was retained before, so it is the batch itself
        have hbefore := hnew _ (hresolved.mpr ⟨batch, hretained, rfl⟩) rfl
        obtain ⟨hb, hbase⟩ := hrefines.retained_iff.mp hretained
        obtain ⟨hb', hbase'⟩ := hrefines.retained_iff.mp hbefore
        rw [(hledger.wellFormed _).eq_of_baseOffset hb hb' (hbase.trans hbase'.symm)]
        rfl
      · intro hcommitted batch hretained _
        obtain ⟨old, hold, rfl⟩ := hresolved.mp hretained
        have hsame : { old with state := outcome true } = old := by
          rw [show outcome true = old.state from (hcommitted old hold).symm]
        rw [hsame]
        exact hold
    · refine forall₂_congr fun groupId key => ?_
      rw [hoffset]
      rcases lastEnlisted _ groupId key with _ | offset
      · simp
      · constructor
        · rintro h offset' ⟨⟩
          exact h.symm
        · intro h
          exact (h offset rfl).symm
  · rw [hresult] at hok
    exact absurd (hok.mp rfl) hrefused

/-- **Together or not at all.** After every sequential run, the commit of a transaction is whole
or nothing exactly when nothing can be left half-done. -/
theorem commitsTogether_iff (calls : List Call) (tid : Bytes) (producer : ProducerIdentity) :
    CommitsTogether config ((Tracked.start n).run config calls) tid producer ↔
      NothingHalfDone ((Tracked.start n).run config calls) tid producer := by
  have hinv : ((Tracked.start n).run config calls).Inv config :=
    Tracked.run_inv Tracked.start_inv calls
  set state := (Tracked.start n).run config calls
  obtain ⟨view, hrefines, hledger⟩ := hinv
  have htransactions : (state.shards 0).transactions = view.transactions := by
    rw [← hrefines.2]
    rfl
  unfold NothingHalfDone
  rw [htransactions]
  by_cases hopen : Opened view.transactions tid producer
  · rw [or_iff_right (not_not_intro hopen)]
    obtain ⟨transaction, hget, rfl, hongoing⟩ := hopen
    by_cases hadmitted : ∀ offset ∈ state.ledger.offsets tid,
        (state.shards 0).groups.admits offset = true
    · exact iff_of_true (commitsTogether_of_admitted hrefines hledger hget hongoing hadmitted)
        (Or.inl hadmitted)
    · rw [or_iff_right hadmitted]
      exact commitsTogether_iff_of_refused hrefines hledger hget hongoing hadmitted
  · exact iff_of_true (commitsTogether_of_not_opened hrefines hopen) (Or.inl hopen)

/-- A transaction with one record, and an offset enlisted for a group at its generation. -/
def enlistedJoinedGroup : List Call :=
  [.joinGroup [103] [109] [], .initProducer [120],
    .addTransactionPartition [120] ⟨1, 0⟩ [116] 0,
    .produceTransactional [120] ⟨1, 0⟩ [116] 0 [⟨1, none, some [107]⟩],
    .addTransactionOffset [120] ⟨1, 0⟩ ⟨[103], 1, [116], 0, 1⟩]

theorem commitsTogether_enlistedJoinedGroup :
    (perform oneTopic ((Tracked.start 2).run oneTopic enlistedJoinedGroup).shards
        (.endTransaction [120] ⟨1, 0⟩ true)).2 = .ok .done ∧
      CommitsTogether oneTopic ((Tracked.start 2).run oneTopic enlistedJoinedGroup) [120]
        ⟨1, 0⟩ := by
  have hadmitted : ∀ offset ∈
      ((Tracked.start 2).run oneTopic enlistedJoinedGroup).ledger.offsets [120],
      (((Tracked.start 2).run oneTopic enlistedJoinedGroup).shards 0).groups.admits offset =
        true := by
    decide +kernel
  have hresult : (perform oneTopic ((Tracked.start 2).run oneTopic enlistedJoinedGroup).shards
      (.endTransaction [120] ⟨1, 0⟩ true)).2 = .ok .done := by decide +kernel
  refine ⟨hresult, (@commitsTogether_iff 2 _ oneTopic enlistedJoinedGroup [120] ⟨1, 0⟩).mpr ?_⟩
  exact Or.inr (Or.inl hadmitted)

/-- A transaction with one record, and an offset enlisted for a group nobody has joined. -/
def enlistedUnknownGroup : List Call :=
  [.initProducer [120], .addTransactionPartition [120] ⟨1, 0⟩ [116] 0,
    .produceTransactional [120] ⟨1, 0⟩ [116] 0 [⟨1, none, some [107]⟩],
    .addTransactionOffset [120] ⟨1, 0⟩ ⟨[103], 1, [116], 0, 1⟩]

/-- The commit fails on the offset, with the record already published. -/
theorem not_commitsTogether_enlistedUnknownGroup :
    ¬ CommitsTogether oneTopic ((Tracked.start 2).run oneTopic enlistedUnknownGroup) [120]
      ⟨1, 0⟩ := by
  intro h
  have hresult : (perform oneTopic
      ((Tracked.start 2).run oneTopic enlistedUnknownGroup).shards
      (.endTransaction [120] ⟨1, 0⟩ true)).2 = .error (.coordination .unknownGroup) := by
    decide +kernel
  unfold CommitsTogether at h
  simp only [hresult] at h
  -- the record's batch is committed after the failed call and was not before it
  have hbefore := h.1 ⟨⟨1, 0⟩, ⟨[116], 0⟩, 0, 1⟩ (by decide +kernel)
    ⟨0, [⟨0, 1, none, some [107]⟩], some 1, .committed⟩ (by decide +kernel) rfl
  revert hbefore
  decide +kernel

/-! ## Producer ids -/

/-- The call allocates a producer id. -/
def allocates (transactions : TransactionCoordinator) : Call → Bool
  | .initProducer tid => !tid.isEmpty && (transactions.transactions[tid]?).isNone
  | _ => false

variable (config) in
/-- How many calls of the run allocate a producer id. -/
def Tracked.allocations : Tracked n → List Call → ℕ
  | _, [] => 0
  | state, call :: calls =>
      (if allocates (state.shards 0).transactions call then 1 else 0) +
        (state.step config call).allocations calls

/-- **What a call can do to the transaction coordinator**: nothing, or replace one transaction
under the producer id it has, or enter a new transactional id under the next producer id. -/
theorem perform_transactions_cases (view : View) (call : Call) :
    (view.perform config n call).1.transactions = view.transactions ∨
      (∃ (tid : Bytes) (old new : Transaction),
        view.transactions.transactions[tid]? = some old ∧ new.identity.id = old.identity.id ∧
          (view.perform config n call).1.transactions =
            ⟨view.transactions.nextId, view.transactions.transactions.insert tid new⟩) ∨
      ∃ (tid : Bytes) (new : Transaction),
        allocates view.transactions call = true ∧
          view.transactions.transactions[tid]? = none ∧
          new.identity.id = view.transactions.nextId ∧
          (view.perform config n call).1.transactions =
            ⟨saturatingSucc i64Max view.transactions.nextId,
              view.transactions.transactions.insert tid new⟩ := by
  -- the call's effect on the coordinator is at most one of its operations
  suffices hop : (view.perform config n call).1.transactions = view.transactions ∨
      ∃ op : TransactionOp, (view.perform config n call).1.transactions =
        op.apply view.transactions ∧ ∀ tid, op = .init tid → call = .initProducer tid by
    rcases hop with hsame | ⟨op, happly, hinit⟩
    · exact Or.inl hsame
    rw [happly]
    rcases op.apply_ids view.transactions with
      hsame | hreplace | ⟨tid, new, hop, hne, hnone, hid, hstate⟩
    · exact Or.inl hsame
    · exact Or.inr (Or.inl hreplace)
    · refine Or.inr (Or.inr ⟨tid, new, ?_, hnone, hid, hstate⟩)
      rw [hinit tid hop]
      simp [allocates, hnone, hne]
  cases call with
  | initProducer tid =>
      rw [perform_initProducer]
      refine Or.inr ⟨.init tid, rfl, fun tid' heq => ?_⟩
      cases heq
      rfl
  | addTransactionPartition tid producer topic partition =>
      rw [perform_addTransactionPartition]
      exact Or.inr ⟨.addPartition tid producer topic partition, rfl, nofun⟩
  | addTransactionOffset tid producer offset =>
      rw [perform_addTransactionOffset]
      exact Or.inr ⟨.addOffset tid producer offset, rfl, nofun⟩
  | endTransaction tid producer commit =>
      rw [perform_endTransaction_transactions]
      exact Or.inr ⟨.endTransaction tid producer commit, rfl, nofun⟩
  | _ => exact Or.inl (perform_transactions config view rfl)

/-- **One call** keeps producer ids distinct, as long as the counter does not saturate. -/
theorem DistinctIds.perform {view : View} {allocated : ℕ}
    (h : DistinctIds view.transactions allocated) (call : Call)
    (hroom : allocated + (if allocates view.transactions call then 1 else 0) < 2 ^ 63 - 1) :
    ∃ allocated' ≤ allocated + (if allocates view.transactions call then 1 else 0),
      DistinctIds (view.perform config n call).1.transactions allocated' := by
  rcases perform_transactions_cases (n := n) view call with
    hsame | ⟨tid, old, new, hget, hid, hstate⟩ | ⟨tid, new, halloc, hnone, hid, hstate⟩
  · rw [hsame]
    exact ⟨allocated, Nat.le_add_right _ _, h⟩
  · rw [hstate]
    exact ⟨allocated, Nat.le_add_right _ _, h.replace hget hid⟩
  · rw [if_pos halloc] at hroom ⊢
    rw [hstate]
    exact ⟨allocated + 1, le_rfl, h.allocate hnone hid hroom⟩

/-- **Along a whole run** producer ids stay distinct. -/
theorem Tracked.run_distinctIds {state : Tracked n} {view : View}
    (hrefines : Refines config state.shards view) {allocated : ℕ}
    (h : DistinctIds view.transactions allocated) (calls : List Call)
    (hroom : allocated + state.allocations config calls < 2 ^ 63 - 1) :
    ∃ view' allocated', Refines config (state.run config calls).shards view' ∧
      DistinctIds view'.transactions allocated' := by
  induction calls generalizing state view allocated with
  | nil => exact ⟨view, allocated, hrefines, h⟩
  | cons call calls ih =>
      have htransactions : (state.shards 0).transactions = view.transactions := by
        rw [← hrefines.2]
        rfl
      rw [Tracked.allocations, htransactions] at hroom
      obtain ⟨allocated', hle, h'⟩ := @DistinctIds.perform n _ config view allocated h call
        (by omega)
      exact ih (perform_refines config hrefines call).1 h' (by omega)

/-! ## A successful end covers everything of its own and nothing else -/

/-- The call commits a transaction of `tid`. -/
def commits (tid : Bytes) : Call → Bool
  | .endTransaction transactionalId _ true => decide (transactionalId = tid)
  | _ => false

/-- A commit of `tid` that the coordinator accepts finds every offset enlisted in its transaction
admitted by its group. -/
def AdmitsEnlisted (tid : Bytes) (shards : Fin n → Shard) (call : Call) : Prop :=
  commits tid call = true → accepts (shards 0).transactions call = true →
    ∀ transaction ∈ (shards 0).transactions.transactions[tid]?,
      ∀ offset ∈ transaction.offsets, (shards 0).groups.admits offset = true

instance (tid : Bytes) (shards : Fin n → Shard) (call : Call) :
    Decidable (AdmitsEnlisted tid shards call) :=
  inferInstanceAs (Decidable (_ → _ → ∀ transaction ∈ _, _))

variable (config) in
/-- Every accepted commit of `tid` along the run finds its enlisted offsets admitted. -/
def Tracked.AdmitsAll (tid : Bytes) : Tracked n → List Call → Prop
  | _, [] => True
  | state, call :: calls =>
      AdmitsEnlisted tid state.shards call ∧ (state.step config call).AdmitsAll tid calls

instance Tracked.decidableAdmitsAll (tid : Bytes) :
    (state : Tracked n) → (calls : List Call) → Decidable (state.AdmitsAll config tid calls)
  | _, [] => isTrue trivial
  | state, call :: calls =>
      have := decidableAdmitsAll tid (state.step config call) calls
      inferInstanceAs (Decidable (_ ∧ _))

/-- Between two states, every retained append since the last success of `tid` took the outcome,
and every batch that is not one of `tid`'s appends is held as it was. -/
structure Completed (before after : Tracked n) (tid : Bytes) (commit : Bool) : Prop where
  resolved : ∀ entry ∈ before.ledger.since tid, ∀ batch, Retained after.shards entry batch →
    batch.state = outcome commit
  others : ∀ key batch, Holds before.shards key batch →
    (∀ entry ∈ before.ledger.all tid, entry.key = key → entry.baseOffset ≠ batch.baseOffset) →
      Holds after.shards key batch

section Completes

variable {state : Tracked n} {view : View} (hrefines : Refines config state.shards view)
  (hledger : LedgerInv config view state.ledger) {tid : Bytes}

include hrefines hledger

/-- An end that finds its enlisted offsets admitted succeeds if the coordinator accepts it. -/
theorem endTransaction_isOk {producer : ProducerIdentity} {commit : Bool}
    (hadmits : AdmitsEnlisted tid state.shards (.endTransaction tid producer commit)) :
    (perform config state.shards (.endTransaction tid producer commit)).2.isOk =
      accepts (state.shards 0).transactions (.endTransaction tid producer commit) := by
  have htransactions : (state.shards 0).transactions = view.transactions := by
    rw [← hrefines.2]
    rfl
  rw [htransactions]
  by_cases hopen : Opened view.transactions tid producer
  · obtain ⟨transaction, hget, rfl, hongoing⟩ := hopen
    have haccepts : accepts view.transactions
        (.endTransaction tid transaction.identity commit) = true := by
      simp only [accepts, TransactionCoordinator.endTransaction_accepts commit hget hongoing,
        Except.isOk, Except.toBool]
    rw [haccepts]
    cases commit with
    | false =>
        rw [(perform_refines config hrefines _).2,
          perform_endTransaction_of_opened false hget hongoing]
        rfl
    | true =>
        rw [(commit_groups hrefines hledger hget hongoing).2, ← hledger.offsets tid _ hget]
        refine hadmits (decide_eq_true rfl) ?_ transaction ?_
        · rw [htransactions, haccepts]
        · rw [htransactions, hget]
          rfl
  · obtain ⟨error, hperform⟩ :=
      @perform_endTransaction_of_not_opened n _ config view tid producer hopen commit
    have hrefused : accepts view.transactions (.endTransaction tid producer commit) = false := by
      rcases hend : (view.transactions.endTransaction tid producer commit).2 with error | completion
      · simp only [accepts, hend, Except.isOk, Except.toBool]
      · obtain ⟨transaction, hget, hid, hongoing, -⟩ :=
          TransactionCoordinator.endTransaction_ok hend
        exact absurd ⟨transaction, hget, hid, hongoing⟩ hopen
    rw [hrefused, (perform_refines config hrefines _).2, hperform]
    rfl

/-- **One call** leaves the appends since the last success inside the open transaction. -/
theorem since_subset_current_step (hsince : state.ledger.since tid ⊆ state.ledger.current tid)
    {call : Call} (hadmits : AdmitsEnlisted tid state.shards call) :
    (state.step config call).ledger.since tid ⊆ (state.step config call).ledger.current tid := by
  have hnil : ∀ id, Function.update state.ledger.since id [] tid ⊆
      Function.update state.ledger.current id [] tid := by
    intro id entry hentry
    obtain ⟨hne, hold⟩ := Ledger.mem_update_nil.mp hentry
    exact Ledger.mem_update_nil.mpr ⟨hne, hsince hold⟩
  unfold Tracked.step
  cases call with
  | initProducer id =>
      rcases (perform config state.shards (.initProducer id)).2 with error | answer
      · exact hsince
      · exact hnil id
  | produceTransactional id producer topic partition records =>
      rcases (perform config state.shards
        (.produceTransactional id producer topic partition records)).2 with error | answer
      · exact hsince
      · cases answer with
        | offset base =>
            intro entry hentry
            rcases Ledger.mem_push.mp hentry with hold | hnew
            · exact Ledger.mem_push.mpr (Or.inl (hsince hold))
            · exact Ledger.mem_push.mpr (Or.inr hnew)
        | _ => exact hsince
  | addTransactionOffset id producer offset =>
      rcases (perform config state.shards (.addTransactionOffset id producer offset)).2 with
        error | answer <;> exact hsince
  | endTransaction id producer commit =>
      show (if _ then Function.update state.ledger.since id [] else state.ledger.since) tid ⊆
        (if _ then Function.update state.ledger.current id [] else state.ledger.current) tid
      by_cases hid : id = tid
      · subst hid
        rw [endTransaction_isOk hrefines hledger hadmits]
        split
        · exact hnil id
        · exact hsince
      · have hkept : ∀ (entries : Bytes → List Appended) (b : Bool),
            (if b then Function.update entries id [] else entries) tid = entries tid := by
          intro entries b
          split
          · exact Function.update_of_ne (fun h => hid h.symm) ..
          · rfl
        rw [hkept, hkept]
        exact hsince
  | _ => exact hsince

/-- **A successful end** of what is open, when the appends since the last success are all part of
it and no two transactional ids share a producer id. -/
theorem Completed.of_open {producer : ProducerIdentity} {commit : Bool} {allocated : ℕ}
    (hsince : state.ledger.since tid ⊆ state.ledger.current tid)
    (hids : DistinctIds view.transactions allocated)
    (hopen : Opened view.transactions tid producer) :
    Completed state (state.step config (.endTransaction tid producer commit)) tid commit := by
  obtain ⟨transaction, hget, rfl, hongoing⟩ := hopen
  refine ⟨?_, ?_⟩
  · intro entry hentry batch hretained
    obtain ⟨old, -, rfl⟩ :=
      (current_resolved hrefines hledger hget hongoing commit (hsince hentry)).mp hretained
    rfl
  · intro key batch hholds hnot
    have hb := hrefines.holds_iff.mp hholds
    refine (perform_refines config hrefines _).1.holds_iff.mpr ?_
    refine endTransaction_keeps commit hget hongoing hb ?_
    -- a batch under the producer's id was appended by its transactional id
    intro htx
    obtain ⟨tid', entry, hentry, rfl, hbase⟩ :=
      hledger.complete key batch hb (by rw [htx]; exact Option.some_ne_none _)
    obtain ⟨owner, howner, hid⟩ := hledger.owner tid' entry hentry
    have hsame := ((hledger.stored tid' entry hentry).batch_eq (hledger.wellFormed _) hb
      hbase.symm).2
    rw [htx, Option.some.injEq] at hsame
    obtain rfl := hids.distinct tid' tid owner transaction howner hget (hid.trans hsame.symm)
    exact hnot entry hentry rfl hbase

end Completes

/-- **Along a whole run** the appends since the last success stay inside the open transaction. -/
theorem Tracked.run_since_subset_current {state : Tracked n} (hinv : state.Inv config) {tid : Bytes}
    (hsince : state.ledger.since tid ⊆ state.ledger.current tid) {calls : List Call}
    (hadmits : state.AdmitsAll config tid calls) :
    (state.run config calls).ledger.since tid ⊆ (state.run config calls).ledger.current tid := by
  induction calls generalizing state with
  | nil => exact hsince
  | cons call calls ih =>
      obtain ⟨view, hrefines, hledger⟩ := hinv
      exact ih (Tracked.Inv.step ⟨view, hrefines, hledger⟩ call)
        (since_subset_current_step hrefines hledger hsince hadmits.1) hadmits.2

/-- **What a completed transaction covers.** In every sequential run in which every accepted commit
of the transactional id finds its enlisted offsets admitted, and which allocates fewer than
`2 ^ 63 - 1` producer ids, a successful end gives every retained append since the last success its
outcome, on whatever shard, and leaves every batch of anybody else as it was. -/
theorem endTransaction_completes {calls : List Call} {tid : Bytes} {producer : ProducerIdentity}
    {commit : Bool} {answer : Answer} (hadmits : (Tracked.start n).AdmitsAll config tid calls)
    (hids : (Tracked.start n).allocations config calls < 2 ^ 63 - 1)
    (hok : (perform config ((Tracked.start n).run config calls).shards
      (.endTransaction tid producer commit)).2 = .ok answer) :
    Completed ((Tracked.start n).run config calls)
      (((Tracked.start n).run config calls).step config (.endTransaction tid producer commit))
      tid commit := by
  have hinv : ((Tracked.start n).run config calls).Inv config :=
    Tracked.run_inv Tracked.start_inv calls
  have hsince : ((Tracked.start n).run config calls).ledger.since tid ⊆
      ((Tracked.start n).run config calls).ledger.current tid :=
    Tracked.run_since_subset_current Tracked.start_inv (List.Subset.refl _) hadmits
  obtain ⟨view, hrefines, hledger⟩ := hinv
  obtain ⟨view', allocated, hrefines', hdistinct⟩ := @Tracked.run_distinctIds n _ config
    (Tracked.start n) (View.start config) (refines_start config) 0 distinctIds_new calls
    (by simpa using hids)
  obtain rfl : view = view' := hrefines.2.symm.trans hrefines'.2
  refine Completed.of_open hrefines hledger hsince hdistinct ?_
  by_contra hopen
  obtain ⟨error, hperform⟩ :=
    @perform_endTransaction_of_not_opened n _ config view tid producer hopen commit
  rw [(perform_refines config hrefines _).2, hperform] at hok
  cases hok

/-- A transaction with an enlisted offset is committed; the next one has a record in each of two
partitions, one of them after a record of nobody's transaction, and enlists an offset too. -/
def secondTransaction : List Call :=
  enlistedJoinedGroup ++
    [.endTransaction [120] ⟨1, 0⟩ true, .addTransactionPartition [120] ⟨1, 0⟩ [116] 0,
      .addTransactionPartition [120] ⟨1, 0⟩ [116] 1, .produce [116] 1 [⟨2, none, none⟩],
      .produceTransactional [120] ⟨1, 0⟩ [116] 0 [⟨3, none, none⟩],
      .produceTransactional [120] ⟨1, 0⟩ [116] 1 [⟨4, none, none⟩],
      .addTransactionOffset [120] ⟨1, 0⟩ ⟨[103], 1, [116], 0, 2⟩]

theorem completed_secondTransaction :
    ((Tracked.start 2).run oneTopic secondTransaction).ledger.since [120] =
        [⟨⟨1, 0⟩, ⟨[116], 0⟩, 1, 1⟩, ⟨⟨1, 0⟩, ⟨[116], 1⟩, 1, 1⟩] ∧
      Completed ((Tracked.start 2).run oneTopic secondTransaction)
        (((Tracked.start 2).run oneTopic secondTransaction).step oneTopic
          (.endTransaction [120] ⟨1, 0⟩ true)) [120] true := by
  have hadmits : (Tracked.start 2).AdmitsAll oneTopic [120] secondTransaction := by decide +kernel
  have hok : (perform oneTopic ((Tracked.start 2).run oneTopic secondTransaction).shards
      (.endTransaction [120] ⟨1, 0⟩ true)).2 = .ok .done := by decide +kernel
  exact ⟨by decide +kernel, endTransaction_completes hadmits (by decide +kernel) hok⟩

/-- A commit that fails on a consumer offset, after which the producer goes on with a partition of
another shard. -/
def continuedAfterFailure : List Call :=
  enlistedUnknownGroup ++
    [.endTransaction [120] ⟨1, 0⟩ true, .addTransactionPartition [120] ⟨1, 0⟩ [116] 1]

/-- The abort then succeeds, the first since the transaction began, and the record of the first
partition stays committed. -/
theorem not_completed_continuedAfterFailure :
    (perform oneTopic ((Tracked.start 2).run oneTopic continuedAfterFailure).shards
        (.endTransaction [120] ⟨1, 0⟩ false)).2 = .ok .done ∧
      (Tracked.start 2).allocations oneTopic continuedAfterFailure < 2 ^ 63 - 1 ∧
      ¬ Completed ((Tracked.start 2).run oneTopic continuedAfterFailure)
        (((Tracked.start 2).run oneTopic continuedAfterFailure).step oneTopic
          (.endTransaction [120] ⟨1, 0⟩ false)) [120] false := by
  refine ⟨by decide +kernel, by decide +kernel, ?_⟩
  intro h
  have hstate := h.resolved ⟨⟨1, 0⟩, ⟨[116], 0⟩, 0, 1⟩ (by decide +kernel)
    ⟨0, [⟨0, 1, none, some [107]⟩], some 1, .committed⟩ (by decide +kernel)
  cases hstate

end CharlotteBroker.Runtime
