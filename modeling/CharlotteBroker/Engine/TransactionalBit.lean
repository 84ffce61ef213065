import CharlotteBroker.Core.Isolation
import CharlotteBroker.Engine.UnknownPartitions
import CharlotteBroker.Runtime.System
import CharlotteBroker.Wire.Flags

/-!
# The transactional bit and the log

A Produce frame says twice whether records are transactional: in the bit of each batch, and by the
transactional id of the request. `StoresAsFlagged` is what the bits ask for: records of a batch with
the bit are stored only under the batch's own producer, after the coordinator validated it, and are
hidden until its commit; records of a batch without the bit are stored outside any transaction.

* One entry is one append, tagged by the request's id alone (`storeSet_of_storable`), or nothing
  (`storeSet_of_not_storable`).
* So the bits are respected exactly when they say what the request says, in every entry that is
  stored (`storesAsFlagged_iff`). A mixed set, a set with the bit in a request without an id: both
  are stored, and not as flagged.
-/

namespace CharlotteBroker

open Std CharlotteBroker.Core Lib Lib.Parser Lib.Rpc CharlotteBroker.Runtime Wire

variable {n : ℕ} [NeZero n]

/-! ## States -/

/-- The state of a broker: shards whose logs are well-formed. -/
structure BrokerState (config : ShardConfig) (n : ℕ) [NeZero n] where
  shards : Fin n → Shard
  formed : ∀ key, ((viewOf config shards).logs key).WellFormed

/-- Whatever calls interleave, the shards are in such a state. -/
def BrokerState.ofRun {T : Type} [DecidableEq T] {config : ShardConfig}
    {history : List (BrokerEvent T n)} {net : BrokerNet T n}
    (h : Runs (system broker config) (startShards n) history net) : BrokerState config n where
  shards := shardsOf net
  formed key := by
    rw [(runs_refine h).2]
    exact viewAfter_wellFormed config history key

/-- The state after a list of frames. -/
def BrokerState.after (engine : Engine) (n : ℕ) [NeZero n] (frames : List Bytes) :
    BrokerState engine.broker n where
  shards := engine.after n frames
  formed key := by
    rw [Engine.viewOf_after]
    exact Engine.viewAfter_wellFormed frames key

/-! ## Stored as flagged -/

/-- The batches a log got. -/
def newBatches (before after : PartitionLog) : List StoredBatch :=
  after.batches.filter fun batch => before.nextOffset ≤ batch.baseOffset

/-- The stored batch holds a record of the batch. -/
def Holds (stored : StoredBatch) (batch : FlaggedBatch) : Prop :=
  ∃ record ∈ stored.records, record.data ∈ batch.records

/-- No read-committed fetch returns a record of the stored batch, whatever happens to the log
before the producer's commit. -/
def HiddenUntilCommit (log : PartitionLog) (stored : StoredBatch) (producerId : Int) : Prop :=
  ∀ later : List LogOp, .commitTransaction producerId true ∉ later →
    ∀ record ∈ stored.records, (log.run later).Hides record

/-- The identity a batch carries. -/
def Wire.FlaggedBatch.identity (batch : FlaggedBatch) : ProducerIdentity :=
  ⟨batch.producer.1.toInt, batch.producer.2.toInt⟩

/-- The batch is stored as what its bit says it is. -/
structure StoredAs (transactionalId : Option Bytes) (transactions : TransactionCoordinator)
    (key : TopicPartition) (log : PartitionLog) (batch : FlaggedBatch) (stored : StoredBatch) :
    Prop where
  producer : batch.transactional = true →
    stored.transaction = some batch.identity.id ∧ stored.state = .pending
  validated : batch.transactional = true → ∃ id, transactionalId = some id ∧
    transactions.validateProduce id batch.identity key.topic key.partition = .ok ()
  hidden : batch.transactional = true → HiddenUntilCommit log stored batch.identity.id
  plain : batch.transactional = false → stored.transaction = none

/-- What was stored from `earlier` to `later` of the record set is stored as its bits say. -/
def AsFlagged (transactionalId : Option Bytes) (earlier later : View) (recordSet : Bytes) : Prop :=
  ∀ key, ∀ stored ∈ newBatches (earlier.logs key) (later.logs key),
    ∀ batch ∈ flaggedBatches recordSet, Holds stored batch →
      StoredAs transactionalId earlier.transactions key (later.logs key) batch stored

/-- All records of a record set. -/
def recordsOf (recordSet : Bytes) : List RecordData :=
  (flaggedBatches recordSet).flatMap FlaggedBatch.records

/-- The bits of the batches that have records say what the request says. -/
def BitsMatch (transactionalId : Option Bytes) (recordSet : Bytes) : Prop :=
  ∀ batch ∈ flaggedBatches recordSet, batch.records ≠ [] →
    batch.transactional = transactionalId.isSome

namespace Engine

variable (engine : Engine)

/-- The partition of an entry. -/
def entryKey (entry : Bytes × ProducedSet) : TopicPartition := ⟨entry.1, entry.2.partition.toInt⟩

/-- What one entry leaves. -/
noncomputable def storeSet (n : ℕ) [NeZero n] (transactionalId : Option Bytes) (view : View)
    (entry : Bytes × ProducedSet) : View :=
  (engine.exec view
    (engine.producePartition (n := n) transactionalId entry.1 entry.2.decoded)).1

/-- What a list of entries leaves. -/
noncomputable def storing (n : ℕ) [NeZero n] (transactionalId : Option Bytes) (view : View)
    (entries : List (Bytes × ProducedSet)) : View :=
  entries.foldl (engine.storeSet n transactionalId) view

/-- Every entry, handled after the ones before it, is stored as the bits of its batches say. -/
def StoresAsFlagged (n : ℕ) [NeZero n] (transactionalId : Option Bytes) (view : View)
    (entries : List (Bytes × ProducedSet)) : Prop :=
  ∀ before entry after, entries = before ++ entry :: after →
    AsFlagged transactionalId (engine.storing n transactionalId view before)
      (engine.storing n transactionalId view (before ++ [entry])) entry.2.recordSet

/-- The broker stores the entry: the catalog knows the partition, the log takes that many records,
and, for a request with a transactional id, some batch has the bit and an identity the coordinator
validates. -/
structure Storable (transactions : TransactionCoordinator) (transactionalId : Option Bytes)
    (entry : Bytes × ProducedSet) : Prop where
  known : engine.broker.catalog.checkPartition entry.1 entry.2.partition.toInt = .ok ()
  sized : Appendable (recordsOf entry.2.recordSet)
  validated : ∀ id, transactionalId = some id →
    ∃ batch ∈ flaggedBatches entry.2.recordSet, batch.transactional = true ∧
      transactions.validateProduce id batch.identity entry.1 entry.2.partition.toInt = .ok ()

/-- The bits match the request in every entry that is stored. -/
def FlagsMatch (transactions : TransactionCoordinator) (transactionalId : Option Bytes)
    (entries : List (Bytes × ProducedSet)) : Prop :=
  ∀ entry ∈ entries, engine.Storable transactions transactionalId entry →
    BitsMatch transactionalId entry.2.recordSet

end Engine

/-! ## One entry -/

theorem newBatches_self {log : PartitionLog} (hlog : log.WellFormed) : newBatches log log = [] := by
  refine List.filter_eq_nil_iff.mpr fun batch hbatch hle => ?_
  have hlt := hlog.baseOffset_lt hbatch
  have hle := of_decide_eq_true hle
  omega

/-- An accepted append is the only batch the log gets. -/
theorem mem_newBatches_append {log : PartitionLog} (hlog : log.WellFormed)
    {inputs : List RecordData} (happ : Appendable inputs) {tag : Option Int} {state : BatchState}
    {stored : StoredBatch} :
    stored ∈ newBatches log (log.appendBatch inputs tag state).1 ↔
      stored = newBatch log inputs tag state := by
  unfold newBatches
  rw [List.mem_filter, decide_eq_true_eq]
  constructor
  · rintro ⟨hmem, hle⟩
    rcases PartitionLog.mem_appendBatch hlog hmem with hold | ⟨-, heq⟩
    · have hlt := hlog.baseOffset_lt hold
      omega
    · exact heq
  · rintro rfl
    obtain ⟨log', dropped, heq, -⟩ :=
      PartitionLog.appendBatch_of_appendable happ hlog.retained tag state
    have hok : (log.appendBatch inputs tag state).2 = .ok log.nextOffset := by rw [heq]
    exact ⟨(PartitionLog.appendBatch_ok hlog hok).2.2.1, Int.le_refl _⟩

theorem holds_newBatch {log : PartitionLog} {recordSet : Bytes} {tag : Option Int}
    {state : BatchState} {batch : FlaggedBatch} (hbatch : batch ∈ flaggedBatches recordSet) :
    Holds (newBatch log (recordsOf recordSet) tag state) batch ↔ batch.records ≠ [] := by
  constructor
  · rintro ⟨record, -, hin⟩
    exact List.ne_nil_of_mem hin
  · intro hne
    obtain ⟨data, hdata⟩ := List.exists_mem_of_ne_nil _ hne
    have hmem : data ∈ (newBatch log (recordsOf recordSet) tag state).records.map Record.data := by
      rw [data_newBatch]
      exact List.mem_flatMap.mpr ⟨batch, hbatch, hdata⟩
    obtain ⟨record, hrecord, rfl⟩ := List.mem_map.mp hmem
    exact ⟨record, hrecord, hdata⟩

namespace Engine

variable {engine : Engine} {view : View} {transactionalId : Option Bytes}
  {entry : Bytes × ProducedSet}

section Decoded

variable (hdecodes : ProducedSet.Decodes entry.2.decoded entry.2)
include hdecodes

/-- The entry as the engine gets it: its partition, all its records, and the identity of the
batches with the bit. -/
theorem decoded_entry :
    entry.2.decoded.partition = entry.2.partition ∧
      entry.2.decoded.records = recordsOf entry.2.recordSet ∧
      (∀ batch ∈ flaggedBatches entry.2.recordSet, batch.transactional = true →
        entry.2.decoded.producer = some batch.producer) ∧
      ((∀ batch ∈ flaggedBatches entry.2.recordSet, batch.transactional = false) →
        entry.2.decoded.producer = none) := by
  obtain ⟨decoded, haccepted, hrecords, hproducer⟩ := hdecodes.accepted
  obtain ⟨hall, hidentity, habsent⟩ := decoded_flagged haccepted
  rw [hrecords, hproducer]
  exact ⟨by rw [ProducedSet.decoded, haccepted], hall, hidentity, habsent⟩

/-- Without a transactional id: a plain append. -/
theorem storeSet_none :
    engine.storeSet n none view entry =
      (view.appendTo engine.broker (entryKey entry) fun log =>
        log.appendBatch (recordsOf entry.2.recordSet) none .committed).1 := by
  obtain ⟨hpartition, hrecords, -⟩ := decoded_entry hdecodes
  unfold storeSet producePartition
  simp only
  rw [exec_attempt, run_produce, hpartition, hrecords]
  rfl

/-- With a transactional id and no bit: nothing. -/
theorem storeSet_unflagged
    (hoff : ∀ batch ∈ flaggedBatches entry.2.recordSet, batch.transactional = false)
    (id : Bytes) : engine.storeSet n (some id) view entry = view := by
  have hproducer := (decoded_entry hdecodes).2.2.2 hoff
  unfold storeSet producePartition
  simp only [hproducer]
  rfl

/-- With a transactional id and a bit: an append under the producer, if it is valid. -/
theorem storeSet_flagged {batch : FlaggedBatch} (hmem : batch ∈ flaggedBatches entry.2.recordSet)
    (hbit : batch.transactional = true) (id : Bytes) :
    engine.storeSet n (some id) view entry =
      match view.transactions.validateProduce id batch.identity entry.1
        entry.2.partition.toInt with
      | .error _ => view
      | .ok () => (view.appendTo engine.broker (entryKey entry) fun log =>
          log.appendBatch (recordsOf entry.2.recordSet) (some batch.identity.id) .pending).1 := by
  obtain ⟨hpartition, hrecords, hidentity, -⟩ := decoded_entry hdecodes
  have hproducer := hidentity batch hmem hbit
  have hrun : engine.storeSet n (some id) view entry =
      (view.run engine.broker (produceTransactional (n := n) engine.broker.catalog id
        batch.identity entry.1 entry.2.partition.toInt entry.2.decoded.records)).1 := by
    unfold storeSet producePartition
    simp only [hproducer, hpartition]
    rw [exec_attempt]
    rfl
  rw [hrun]
  rcases hvalid : view.transactions.validateProduce id batch.identity entry.1
    entry.2.partition.toInt with error | ⟨⟩
  · rw [run_produceTransactional_invalid engine.broker view _ hvalid]
  · rw [run_produceTransactional engine.broker view _ hvalid, hrecords]
    rfl

end Decoded

/-- How the request tags what it stores: not at all without an id, otherwise with the producer of a
batch that has the bit. -/
inductive Tags (transactions : TransactionCoordinator) (entry : Bytes × ProducedSet) :
    Option Bytes → Option Int → BatchState → Prop
  | plain : Tags transactions entry none none .committed
  | transactional {id : Bytes} {batch : FlaggedBatch}
      (mem : batch ∈ flaggedBatches entry.2.recordSet) (bit : batch.transactional = true)
      (validated : transactions.validateProduce id batch.identity entry.1
        entry.2.partition.toInt = .ok ()) :
      Tags transactions entry (some id) (some batch.identity.id) .pending

/-- The view with one more batch in the log of the entry's partition. -/
noncomputable def appended (view : View) (entry : Bytes × ProducedSet) (tag : Option Int)
    (state : BatchState) : View :=
  { view with
    logs := Function.update view.logs (entryKey entry)
      ((view.logs (entryKey entry)).appendBatch (recordsOf entry.2.recordSet) tag state).1 }

theorem appended_logs_self (tag : Option Int) (state : BatchState) :
    (appended view entry tag state).logs (entryKey entry) =
      ((view.logs (entryKey entry)).appendBatch (recordsOf entry.2.recordSet) tag state).1 :=
  Function.update_self _ _ _

theorem appended_logs_of_ne {key : TopicPartition} (h : key ≠ entryKey entry) (tag : Option Int)
    (state : BatchState) : (appended view entry tag state).logs key = view.logs key :=
  Function.update_of_ne h _ _

theorem appendTo_entry (hknown : engine.broker.catalog.checkPartition entry.1
      entry.2.partition.toInt = .ok ()) (tag : Option Int) (state : BatchState) :
    (view.appendTo engine.broker (entryKey entry) fun log =>
      log.appendBatch (recordsOf entry.2.recordSet) tag state).1 =
        appended view entry tag state := by
  unfold View.appendTo
  simp only [entryKey, hknown]
  rfl

/-- **An entry that is stored** is one append of all its records, tagged by the request. -/
theorem storeSet_of_storable (hdecodes : ProducedSet.Decodes entry.2.decoded entry.2)
    (h : engine.Storable view.transactions transactionalId entry) :
    ∃ tag state, Tags view.transactions entry transactionalId tag state ∧
      engine.storeSet n transactionalId view entry = appended view entry tag state := by
  rcases transactionalId with _ | id
  · refine ⟨none, .committed, .plain, ?_⟩
    rw [storeSet_none hdecodes, appendTo_entry h.known]
  · obtain ⟨batch, hmem, hbit, hvalid⟩ := h.validated id rfl
    refine ⟨_, _, .transactional hmem hbit hvalid, ?_⟩
    rw [storeSet_flagged hdecodes hmem hbit, hvalid]
    exact appendTo_entry h.known _ _

/-- An append that cannot be made changes nothing. -/
theorem appendTo_unstorable
    (h : ¬ (engine.broker.catalog.checkPartition entry.1 entry.2.partition.toInt = .ok () ∧
      Appendable (recordsOf entry.2.recordSet))) (tag : Option Int) (state : BatchState) :
    (view.appendTo engine.broker (entryKey entry) fun log =>
      log.appendBatch (recordsOf entry.2.recordSet) tag state).1 = view := by
  unfold View.appendTo
  rcases hcheck : engine.broker.catalog.checkPartition (entryKey entry).topic
    (entryKey entry).partition with error | ⟨⟩
  · rfl
  · obtain ⟨error, heq⟩ := PartitionLog.appendBatch_of_not_appendable
      (fun hsized => h ⟨hcheck, hsized⟩) (view.logs (entryKey entry)) tag state
    simp only [heq, Function.update_eq_self]

/-- An entry that cannot be stored changes nothing. -/
theorem storeSet_of_not_storable (hdecodes : ProducedSet.Decodes entry.2.decoded entry.2)
    (h : ¬ engine.Storable view.transactions transactionalId entry) :
    engine.storeSet n transactionalId view entry = view := by
  rcases transactionalId with _ | id
  · rw [storeSet_none hdecodes]
    refine appendTo_unstorable (fun hstorable => h ⟨hstorable.1, hstorable.2, ?_⟩) _ _
    exact fun id hid => by cases hid
  · by_cases hon : ∃ batch ∈ flaggedBatches entry.2.recordSet, batch.transactional = true
    · obtain ⟨batch, hmem, hbit⟩ := hon
      rw [storeSet_flagged hdecodes hmem hbit]
      rcases hvalid : view.transactions.validateProduce id batch.identity entry.1
        entry.2.partition.toInt with error | ⟨⟩
      · rfl
      · refine appendTo_unstorable (fun hstorable => h ⟨hstorable.1, hstorable.2, ?_⟩) _ _
        intro id' hid
        rw [← Option.some.inj hid]
        exact ⟨batch, hmem, hbit, hvalid⟩
    · refine storeSet_unflagged hdecodes (fun batch hmem => ?_) id
      rw [← Bool.not_eq_true]
      exact fun hbit => hon ⟨batch, hmem, hbit⟩

/-- An entry leaves the coordinator alone. -/
theorem storeSet_transactions (hdecodes : ProducedSet.Decodes entry.2.decoded entry.2) :
    (engine.storeSet n transactionalId view entry).transactions = view.transactions := by
  by_cases h : engine.Storable view.transactions transactionalId entry
  · obtain ⟨tag, state, -, heq⟩ := storeSet_of_storable (n := n) hdecodes h
    rw [heq]
    rfl
  · rw [storeSet_of_not_storable hdecodes h]

/-- An entry keeps the logs well-formed. -/
theorem storeSet_formed (hdecodes : ProducedSet.Decodes entry.2.decoded entry.2)
    (hformed : ∀ key, (view.logs key).WellFormed) (key : TopicPartition) :
    ((engine.storeSet n transactionalId view entry).logs key).WellFormed := by
  by_cases h : engine.Storable view.transactions transactionalId entry
  · obtain ⟨tag, state, htags, heq⟩ := storeSet_of_storable (n := n) hdecodes h
    rw [heq]
    rcases eq_or_ne key (entryKey entry) with rfl | hne
    · rw [appended_logs_self]
      refine PartitionLog.appendBatch_wellFormed (hformed _) _ fun htag => ?_
      cases htags with
      | plain => rfl
      | transactional => cases htag
    · rw [appended_logs_of_ne hne]
      exact hformed key
  · rw [storeSet_of_not_storable hdecodes h]
    exact hformed key

/-- What an append stores, it stores in the log of the entry's partition. -/
theorem mem_newBatches_appended (hformed : ∀ key, (view.logs key).WellFormed)
    (happ : Appendable (recordsOf entry.2.recordSet))
    {tag : Option Int} {state : BatchState} {key : TopicPartition} {stored : StoredBatch} :
    stored ∈ newBatches (view.logs key) ((appended view entry tag state).logs key) ↔
      key = entryKey entry ∧
        stored = newBatch (view.logs (entryKey entry)) (recordsOf entry.2.recordSet) tag state := by
  rcases eq_or_ne key (entryKey entry) with rfl | hne
  · rw [appended_logs_self, mem_newBatches_append (hformed _) happ]
    simp
  · rw [appended_logs_of_ne hne, newBatches_self (hformed key)]
    simp [hne]

/-- **One entry.** It is stored as its bits say exactly if it is not stored at all or the bits say
what the request says. -/
theorem asFlagged_iff (hdecodes : ProducedSet.Decodes entry.2.decoded entry.2)
    (hformed : ∀ key, (view.logs key).WellFormed) :
    AsFlagged transactionalId view (engine.storeSet n transactionalId view entry)
        entry.2.recordSet ↔
      (engine.Storable view.transactions transactionalId entry →
        BitsMatch transactionalId entry.2.recordSet) := by
  by_cases h : engine.Storable view.transactions transactionalId entry
  · rw [forall_prop_of_true h]
    obtain ⟨tag, state, htags, heq⟩ := storeSet_of_storable (n := n) hdecodes h
    have hlogs : ∀ key, ((engine.storeSet n transactionalId view entry).logs key).WellFormed :=
      storeSet_formed hdecodes hformed
    rw [heq] at hlogs ⊢
    constructor
    · intro hflagged batch hbatch hne
      have hstored := hflagged (entryKey entry) _
        ((mem_newBatches_appended hformed h.sized).mpr ⟨rfl, rfl⟩) batch hbatch
        ((holds_newBatch hbatch).mpr hne)
      cases htags with
      | plain =>
          rw [Option.isSome_none, ← Bool.not_eq_true]
          intro hbit
          cases (hstored.producer hbit).1
      | transactional =>
          rw [Option.isSome_some, ← Bool.not_eq_false]
          intro hbit
          cases hstored.plain hbit
    · intro hmatch key stored hstored batch hbatch hholds
      obtain ⟨rfl, rfl⟩ := (mem_newBatches_appended hformed h.sized).mp hstored
      have hbit := hmatch batch hbatch ((holds_newBatch hbatch).mp hholds)
      have hin := (List.mem_filter.mp hstored).1
      cases htags with
      | plain =>
          rw [Option.isSome_none] at hbit
          refine ⟨fun hon => ?_, fun hon => ?_, fun hon => ?_, fun _ => rfl⟩
          all_goals exact absurd (hon.symm.trans hbit) Bool.noConfusion
      | @transactional id other mem bit validated =>
          rw [Option.isSome_some] at hbit
          -- all batches with the bit carry the identity the set was decoded with
          have hsame : other.producer = batch.producer :=
            Option.some.inj (((decoded_entry hdecodes).2.2.1 other mem bit).symm.trans
              ((decoded_entry hdecodes).2.2.1 batch hbatch hbit))
          have hidentity : other.identity = batch.identity := by
            rw [FlaggedBatch.identity, FlaggedBatch.identity, hsame]
          rw [hidentity] at validated hin hlogs ⊢
          refine ⟨fun _ => ⟨rfl, rfl⟩, fun _ => ⟨id, rfl, validated⟩, fun _ later hlater => ?_,
            fun hoff => absurd (hoff.symm.trans hbit) Bool.noConfusion⟩
          intro record hrecord
          exact (hlogs (entryKey entry)).hides_until_commit hin rfl (fun h => by cases h) hlater
            hrecord
  · rw [storeSet_of_not_storable hdecodes h]
    refine iff_of_true (fun key stored hstored => ?_) fun hstorable => absurd hstorable h
    rw [newBatches_self (hformed key)] at hstored
    exact absurd hstored List.not_mem_nil

/-! ## Frames -/

theorem storing_concat (transactionalId : Option Bytes) (view : View)
    (entries : List (Bytes × ProducedSet)) (entry : Bytes × ProducedSet) :
    engine.storing n transactionalId view (entries ++ [entry]) =
      engine.storeSet n transactionalId (engine.storing n transactionalId view entries) entry := by
  rw [storing, List.foldl_append]
  rfl

/-- What entries keep: the coordinator, and the form of the logs. -/
theorem storing_keeps {entries : List (Bytes × ProducedSet)}
    (hdecodes : ∀ entry ∈ entries, ProducedSet.Decodes entry.2.decoded entry.2)
    (hformed : ∀ key, (view.logs key).WellFormed) :
    (engine.storing n transactionalId view entries).transactions = view.transactions ∧
      ∀ key, ((engine.storing n transactionalId view entries).logs key).WellFormed := by
  induction entries generalizing view with
  | nil => exact ⟨rfl, hformed⟩
  | cons entry entries ih =>
      have hentry := hdecodes entry List.mem_cons_self
      have hnext : ∀ key, ((engine.storeSet n transactionalId view entry).logs key).WellFormed :=
        storeSet_formed hentry hformed
      obtain ⟨htransactions, hlogs⟩ := ih
        (fun entry' hin => hdecodes entry' (List.mem_cons_of_mem _ hin)) hnext
      exact ⟨htransactions.trans (storeSet_transactions hentry), hlogs⟩

/-- **Entries in order.** -/
theorem storesAsFlagged_entries {entries : List (Bytes × ProducedSet)}
    (hdecodes : ∀ entry ∈ entries, ProducedSet.Decodes entry.2.decoded entry.2)
    (hformed : ∀ key, (view.logs key).WellFormed) :
    engine.StoresAsFlagged n transactionalId view entries ↔
      engine.FlagsMatch view.transactions transactionalId entries := by
  have hone : ∀ before entry after, entries = before ++ entry :: after →
      (AsFlagged transactionalId (engine.storing n transactionalId view before)
          (engine.storing n transactionalId view (before ++ [entry])) entry.2.recordSet ↔
        (engine.Storable view.transactions transactionalId entry →
          BitsMatch transactionalId entry.2.recordSet)) := by
    rintro before entry after rfl
    obtain ⟨htransactions, hlogs⟩ : (engine.storing n transactionalId view before).transactions =
        view.transactions ∧
          ∀ key, ((engine.storing n transactionalId view before).logs key).WellFormed :=
      storing_keeps (fun entry hin => hdecodes entry (List.mem_append_left _ hin)) hformed
    rw [storing_concat, asFlagged_iff (hdecodes entry (by simp)) hlogs, htransactions]
  constructor
  · intro hflagged entry hentry
    obtain ⟨before, after, hsplit⟩ := List.append_of_mem hentry
    exact (hone before entry after hsplit).mp (hflagged before entry after hsplit)
  · intro hmatch before entry after hsplit
    refine (hone before entry after hsplit).mpr (hmatch entry ?_)
    rw [hsplit]
    simp

theorem eq_map_decoded {partitions : List ProducePartition} {sets : List ProducedSet}
    (h : List.Forall₂ ProducedSet.Decodes partitions sets) :
    partitions = sets.map ProducedSet.decoded ∧
      ∀ set ∈ sets, ProducedSet.Decodes set.decoded set := by
  induction h with
  | nil => exact ⟨rfl, fun _ hset => absurd hset List.not_mem_nil⟩
  | @cons partition set partitions sets hhead htail ih =>
      obtain rfl := hhead.eq
      refine ⟨congrArg _ ih.1, fun other hother => ?_⟩
      rcases List.mem_cons.mp hother with rfl | hin
      · exact hhead
      · exact ih.2 other hin

/-- The entries of a frame, decoded, are the entries of its request. -/
theorem entriesOf_decoded {topics : List (Topic ProducePartition)} {sets : List (Topic ProducedSet)}
    (h : List.Forall₂ (fun entry entry' => entry.name = entry'.name ∧
      List.Forall₂ ProducedSet.Decodes entry.partitions entry'.partitions) topics sets) :
    entriesOf topics = (entriesOf sets).map (fun entry => (entry.1, entry.2.decoded)) ∧
      ∀ entry ∈ entriesOf sets, ProducedSet.Decodes entry.2.decoded entry.2 := by
  induction h with
  | nil => exact ⟨rfl, fun _ hentry => absurd hentry List.not_mem_nil⟩
  | @cons topic set topics sets hhead htail ih =>
      obtain ⟨hname, hpartitions⟩ := hhead
      obtain ⟨hmap, hall⟩ := eq_map_decoded hpartitions
      rw [entriesOf_cons, entriesOf_cons, ih.1, hname, hmap, List.map_append, List.map_map,
        List.map_map]
      refine ⟨rfl, fun entry hentry => ?_⟩
      rcases List.mem_append.mp hentry with hin | hin
      · obtain ⟨one, hone, rfl⟩ := List.mem_map.mp hin
        exact hall one hone
      · exact ih.2 entry hin

/-- **A Produce frame respects the transactional bits exactly if they match the request.** -/
theorem storesAsFlagged_iff (engine : Engine) (state : BrokerState engine.broker n) {frame : Bytes}
    {header : Header} {transactionalId : Option Bytes} {acks : Int16} {timeoutMs : Int32}
    {topics : List (Topic ProducePartition)}
    (h : decodeRequest frame = .ok ⟨header, .produce transactionalId acks timeoutMs topics⟩) :
    viewOf engine.broker (engine.handle state.shards frame).1 =
        engine.storing n transactionalId (viewOf engine.broker state.shards)
          (entriesOf (producedTopics frame)) ∧
      (engine.StoresAsFlagged n transactionalId (viewOf engine.broker state.shards)
          (entriesOf (producedTopics frame)) ↔
        engine.FlagsMatch (viewOf engine.broker state.shards).transactions transactionalId
          (entriesOf (producedTopics frame))) := by
  obtain ⟨hentries, hdecodes⟩ := entriesOf_decoded (decodes_producedTopics h)
  refine ⟨?_, storesAsFlagged_entries hdecodes state.formed⟩
  rw [(viewOf_handle engine state.shards frame).1, onView_of_decode h]
  obtain ⟨visits, hsweeps, hvisited, -⟩ := sweeps_eachPartition
    (fun view (shard : Fin n) => View.serve engine.broker view shard)
    (viewOf engine.broker state.shards) (engine.producePartition transactionalId) topics
  have hfold := hsweeps.eq_foldl
  rw [hvisited, hentries, List.foldl_map] at hfold
  have hexec : (engine.exec (viewOf engine.broker state.shards)
      (engine.handleRequest (n := n) ⟨header, .produce transactionalId acks timeoutMs topics⟩)).1 =
        (engine.exec (viewOf engine.broker state.shards)
          (eachPartition (n := n) topics (engine.producePartition transactionalId))).1 :=
    congrArg Prod.fst (exec_bind _ _ _)
  exact hexec.trans hfold

/-- A record set of one batch with these attributes and the first producer's identity. It holds one
record. -/
def oneBatchSet (attributes : Int16) : Bytes :=
  let covered := i16Bytes attributes ++ i32Bytes 0 ++ i64Bytes 0 ++ i64Bytes 0 ++ i64Bytes 1 ++
    i16Bytes 0 ++ i32Bytes (-1) ++ i32Bytes 1 ++ [14, 0, 0, 0, 1, 2, 97, 0]
  let body := batchBody (crc32c covered) covered
  i64Bytes 0 ++ (i32Bytes (Int32.ofNat body.length) ++ body)

/-- A Produce frame with this record set for one partition. -/
def setFrame (transactionalId : Option Bytes) (recordSet : Bytes) : Bytes :=
  bytesField (headerField ⟨0, 3, 0, none⟩ ++ (nullableStringField transactionalId ++
    (i16Bytes 1 ++ (i32Bytes 0 ++ arrayField (topicField fun set : ProducedSet =>
      i32Bytes set.partition ++ bytesField set.recordSet) [⟨[116], [⟨0, recordSet⟩]⟩]))))

/-- A broker at which the first producer has a transaction with the partition. -/
def enlisted : BrokerState oneTopicEngine.broker 2 :=
  .after oneTopicEngine 2 [(bare (.initProducerId (some [120]) 0)).ser,
    (bare (.addPartitionsToTxn [120] 1 0 [⟨[116], [0]⟩])).ser]

/-- A batch with the bit in a request with the transactional id is stored as flagged: pending under
its producer. -/
theorem storesAsFlagged_enlisted :
    let frame := setFrame (some [120]) (oneBatchSet 0x10)
    let key : TopicPartition := ⟨[116], 0⟩
    (∃ topics, decodeRequest frame = .ok ⟨⟨0, 3, 0, none⟩, .produce (some [120]) 1 0 topics⟩) ∧
      ((((oneTopicEngine.handle enlisted.shards frame).1 (shardIndex 2 key)).log oneTopic
        key).batches.map fun batch => (batch.transaction, batch.state)) = [(some 1, .pending)] ∧
      oneTopicEngine.StoresAsFlagged 2 (some [120]) (viewOf oneTopic enlisted.shards)
        (entriesOf (producedTopics frame)) := by
  intro frame key
  have hdecode : decodeRequest frame = .ok ⟨⟨0, 3, 0, none⟩, .produce (some [120]) 1 0
      [⟨[116], [⟨0, [⟨0, none, some [97]⟩], some (1, 0)⟩]⟩]⟩ := by decide +kernel
  have hall : ∀ entry ∈ entriesOf (producedTopics frame),
      ∀ batch ∈ flaggedBatches entry.2.recordSet, batch.transactional = true := by decide +kernel
  refine ⟨⟨_, hdecode⟩, by decide +kernel,
    (storesAsFlagged_iff oneTopicEngine enlisted hdecode).2.mpr ?_⟩
  exact fun entry hentry _ batch hbatch _ => hall entry hentry batch hbatch

/-- A batch with the bit in a request without a transactional id is stored outside any transaction,
and a read-committed fetch returns its record at once. -/
theorem not_storesAsFlagged_without_id :
    let frame := setFrame none (oneBatchSet 0x10)
    let key : TopicPartition := ⟨[116], 0⟩
    (∃ topics, decodeRequest frame = .ok ⟨⟨0, 3, 0, none⟩, .produce none 1 0 topics⟩) ∧
      (flaggedBatches (oneBatchSet 0x10)).map FlaggedBatch.transactional = [true] ∧
      (((((oneTopicEngine.handle (startShards 2) frame).1 (shardIndex 2 key)).log oneTopic
        key).fetchWithIsolation 0 1 100 true).toOption.map fun window =>
          window.records.map Record.data) = some [⟨0, none, some [97]⟩] ∧
      ¬ oneTopicEngine.StoresAsFlagged 2 none
        (viewOf oneTopic (BrokerState.after oneTopicEngine 2 []).shards)
        (entriesOf (producedTopics frame)) := by
  intro frame key
  have hdecode : decodeRequest frame = .ok ⟨⟨0, 3, 0, none⟩, .produce none 1 0
      [⟨[116], [⟨0, [⟨0, none, some [97]⟩], some (1, 0)⟩]⟩]⟩ := by decide +kernel
  have hbatches : flaggedBatches (oneBatchSet 0x10) =
      [⟨true, (1, 0), [⟨0, none, some [97]⟩]⟩] := by decide +kernel
  have hentries : entriesOf (producedTopics frame) = [([116], ⟨0, oneBatchSet 0x10⟩)] := by
    decide +kernel
  refine ⟨⟨_, hdecode⟩, by rw [hbatches]; rfl, by decide +kernel, fun hflagged => ?_⟩
  have hdecodes := (entriesOf_decoded (decodes_producedTopics hdecode)).2
  rw [hentries] at hdecodes hflagged
  have hmatch := (asFlagged_iff (hdecodes _ List.mem_cons_self)
    (BrokerState.after oneTopicEngine 2 []).formed).mp (hflagged [] _ [] rfl)
      ⟨by decide +kernel, by rw [recordsOf, hbatches]; exact ⟨by decide, by decide⟩,
        fun id hid => by cases hid⟩
  rw [BitsMatch, hbatches] at hmatch
  exact absurd (hmatch _ List.mem_cons_self (by decide)) (by decide)

end Engine

end CharlotteBroker
