import CharlotteBroker.Runtime.RealTime
import CharlotteBroker.Runtime.Tenure
import CharlotteBroker.Runtime.Transactions

/-!
# What readers see of transactions

Among any number of clients, in any order of the steps: the state of a stored batch is that of the
last resolution of its producer since the batch was appended, and a read-committed fetch goes by it.
Consumer offsets that belong to a transaction come after its records.

* `LogStep`: what an event can do to the log of a partition, said once.
* `batch_origin`: a batch was stored by one append, and its state is that of the last resolution
  since (`stateSince`).
* `no_dirty_reads`: a read-committed fetch returns records of committed appends only, none of them
  is left out, and a commit is one that the coordinator accepted before.
* `outputs_before_offsets`: the offset that a group reads was committed by a request of its own, or
  in a transaction whose records were committed before.

A resolution names its producer and not its transaction. What is proved here is therefore about the
last resolution of the producer, in whichever of its transactions; `Race` says when that is the
batch's own.
-/

namespace CharlotteBroker.Runtime

open CharlotteBroker.Core Lib Lib.Rpc

variable {T : Type} {n : ℕ} [NeZero n] (config : ShardConfig)

variable {event : BrokerEvent T n} {producerId : Int} {batch : StoredBatch}

/-! ## Appends and resolutions in a history -/

/-- An append of these records to `key` was applied at `k`, and given the offsets from `base` on. -/
def StoredAt (history : List (BrokerEvent T n)) (key : TopicPartition) (records : List RecordData)
    (transaction : Option Int) (base : Int) (k : ℕ) : Prop :=
  ∃ chan command, At history k (.applied (shardIndex n key) chan command (.produced base)) ∧
    command.appends = some (key, records, transaction)

/-- How an event resolves the producer's batches in the log of `key`, if it does. -/
def resolutionBy (key : TopicPartition) (producerId : Int) : BrokerEvent T n → Option Bool
  | .applied shard _ (.resolveTransaction producerId' commit) _ =>
      if shard = shardIndex n key ∧ producerId' = producerId then some commit else none
  | _ => none

/-- The last resolution of the producer's batches in `key` after `k₀` and before `k`. -/
def lastResolution (history : List (BrokerEvent T n)) (key : TopicPartition) (producerId : Int)
    (k₀ k : ℕ) : Option Bool :=
  lastBetween (resolutionBy key producerId) history k₀ k

/-- The state at `k` of a batch appended at `k₀`. -/
def stateSince (history : List (BrokerEvent T n)) (key : TopicPartition) (transaction : Option Int)
    (k₀ k : ℕ) : BatchState :=
  match transaction with
  | none => .committed
  | some producerId => ((lastResolution history key producerId k₀ k).map outcome).getD .pending

/-- The append at `k₀` is committed at `k`: it belongs to no transaction, or the last resolution of
its producer is a commit. -/
def CommittedSince (history : List (BrokerEvent T n)) (key : TopicPartition)
    (transaction : Option Int) (k₀ k : ℕ) : Prop :=
  ∀ producerId ∈ transaction, lastResolution history key producerId k₀ k = some true

theorem stateSince_first (history : List (BrokerEvent T n)) (key : TopicPartition)
    (transaction : Option Int) (k : ℕ) :
    stateSince history key transaction k (k + 1) = firstState transaction := by
  rcases transaction with _ | producerId
  · rfl
  · simp only [stateSince, lastResolution, lastBetween_self]
    rfl

theorem committedSince_iff {history : List (BrokerEvent T n)} {key : TopicPartition}
    {transaction : Option Int} {k₀ k : ℕ} :
    CommittedSince history key transaction k₀ k ↔
      transaction.isSome = false ∨ stateSince history key transaction k₀ k = .committed := by
  rcases transaction with _ | producerId
  · simp [CommittedSince]
  · rcases hlast : lastResolution history key producerId k₀ k with _ | _ | _ <;>
      simp [CommittedSince, stateSince, hlast, outcome]

/-! ## One event -/

/-- What an event can do to the log of `key`. -/
inductive LogStep (history : List (BrokerEvent T n)) (key : TopicPartition) (k : ℕ)
    (event : BrokerEvent T n) : Prop
  | kept (same : logAt config history key (k + 1) = logAt config history key k)
      (unresolved : ∀ producerId, resolutionBy key producerId event = none)
  | appended (records : List RecordData) (transaction : Option Int) (base : Int)
      (stored : StoredAt history key records transaction base k)
      (unresolved : ∀ producerId, resolutionBy key producerId event = none)
  | resolved (producerId : Int) (commit : Bool)
      (log_eq : logAt config history key (k + 1) =
        (logAt config history key k).commitTransaction producerId commit)
      (resolves : ∀ producerId', resolutionBy key producerId' event =
        if producerId = producerId' then some commit else none)

theorem logAt_succ {history : List (BrokerEvent T n)} {k : ℕ} (hat : At history k event)
    (key : TopicPartition) :
    logAt config history key (k + 1) =
      (viewStep config (viewAfter config (history.take k)) event).logs key := by
  unfold logAt
  rw [hat.take_succ, viewAfter_snoc]

/-- A command that does nothing to the log of `key` leaves it as it was. -/
theorem View.serve_logs_of_not_does (view : View) (shard : Fin n) {command : PartitionCommand}
    {key : TopicPartition} (h : ∀ op, ¬ command.Does key op) :
    (view.serve config shard command).1.logs key = view.logs key := by
  obtain ⟨ops, -, hdoes, hops⟩ := View.serve_logs config view shard command key
  rcases ops with _ | ⟨op, ops⟩
  · exact hops
  · exact absurd (hdoes op List.mem_cons_self) (h op)

/-- A refused append leaves every log as it was. -/
theorem View.serve_logs_of_refused (view : View) (shard : Fin n) {command : PartitionCommand}
    {key : TopicPartition} {records : List RecordData} {transaction : Option Int}
    (hcommand : command.appends = some (key, records, transaction))
    (h : ∀ base, (view.serve config shard command).2 ≠ .produced base) :
    (view.serve config shard command).1.logs key = view.logs key := by
  have honLog := PartitionCommand.onLog_appends hcommand
  rw [View.serve_onLog config view shard honLog] at h ⊢
  unfold View.withLog at h ⊢
  rcases hcheck : config.catalog.checkPartition key.topic key.partition with error | ⟨⟩
  · rfl
  · simp only [hcheck, Function.update_self] at h ⊢
    rcases hdone : ((view.logs key).appendBatch records transaction (firstState transaction)).2 with
      error | base
    · exact PartitionLog.appendBatch_error hdone
    · rw [hdone] at h
      exact absurd rfl (h base)

section Runs

variable {config} {broker : BrokerConfig} [DecidableEq T] {history : List (BrokerEvent T n)}
  {net : BrokerNet T n} {key : TopicPartition} {records : List RecordData}
  {transaction : Option Int} {base : Int} {k₀ k : ℕ}

variable (h : Runs (system broker config) (startShards n) history net)
include h

theorem StoredAt.appendedAt (hstored : StoredAt history key records transaction base k) :
    AppendedAt config history key records transaction base k := by
  obtain ⟨chan, command, hk, hcommand⟩ := hstored
  exact (applied_appends h hk hcommand).2

/-- **One event** leaves the log of a partition as it was, appends one batch to it, or resolves the
batches of one producer in it. -/
theorem logStep (hat : At history k event) (key : TopicPartition) :
    LogStep config history key k event := by
  have hsucc := logAt_succ config hat key
  cases event with
  | applied shard chan command result =>
      have hanswer := applied_answer h hat
      have hrouted := applied_routed h hat
      cases hcommand : command.appends with
      | some append =>
          obtain ⟨key', records, transaction⟩ := append
          have hunresolved : ∀ producerId,
              resolutionBy key producerId (.applied shard chan command result : BrokerEvent T n) =
                none := by
            intro producerId
            cases command <;> cases hcommand <;> rfl
          rcases eq_or_ne key' key with rfl | hne
          · by_cases hproduced : ∃ base, result = .produced base
            · obtain ⟨base, rfl⟩ := hproduced
              have hshard := hrouted.eq_shardIndex (PartitionCommand.onLog_appends hcommand)
              exact .appended records transaction base ⟨chan, command, hshard ▸ hat, hcommand⟩
                hunresolved
            · refine .kept (hsucc.trans ?_) hunresolved
              refine View.serve_logs_of_refused config _ shard hcommand fun base hbase => ?_
              exact hproduced ⟨base, hanswer.trans hbase⟩
          · refine .kept (hsucc.trans ?_) hunresolved
            refine View.serve_logs_of_not_does config _ shard fun op hdoes => ?_
            cases command <;> cases hcommand <;> exact hne hdoes.1.symm
      | none =>
          cases command with
          | resolveTransaction producerId commit =>
              by_cases howns : shard = shardIndex n key
              · refine .resolved producerId commit (hsucc.trans (if_pos howns.symm)) fun id => ?_
                simp only [resolutionBy, howns, true_and]
              · refine .kept (hsucc.trans (if_neg (Ne.symm howns))) fun id => ?_
                simp only [resolutionBy, howns, false_and, if_false]
          | produce topic partition records => cases hcommand
          | produceTransactional topic partition records producerId => cases hcommand
          | _ =>
              exact .kept (hsucc.trans (View.serve_logs_of_not_does config _ shard fun _ => id))
                fun _ => rfl
  | _ => exact .kept hsucc fun _ => rfl

/-! ## The state of a batch -/

omit h [DecidableEq T] in
theorem stateSince_of_unresolved (hat : At history k event) (hlt : k₀ < k)
    (h : ∀ producerId, resolutionBy key producerId event = none) :
    stateSince history key transaction k₀ (k + 1) = stateSince history key transaction k₀ k := by
  rcases transaction with _ | producerId
  · rfl
  · simp only [stateSince, lastResolution, lastBetween_succ _ hat hlt, h, Option.none_or]

omit h [DecidableEq T] in
/-- A resolution gives the batches of its producer their state, and no others. -/
theorem stateSince_resolve (hat : At history k event) (hlt : k₀ < k) {commit : Bool}
    (h : ∀ producerId', resolutionBy key producerId' event =
      if producerId = producerId' then some commit else none)
    (hstate : batch.state = stateSince history key batch.transaction k₀ k) :
    (batch.resolve producerId commit).state =
      stateSince history key batch.transaction k₀ (k + 1) := by
  by_cases hsame : batch.transaction = some producerId
  · rw [resolve_of_eq commit hsame, hsame]
    simp only [stateSince, lastResolution, lastBetween_succ _ hat hlt, h, if_true, Option.some_or]
    rfl
  · rw [resolve_of_ne commit hsame, hstate]
    rcases htransaction : batch.transaction with _ | other
    · rfl
    · have hne : producerId ≠ other := by
        rintro rfl
        exact hsame htransaction
      simp only [stateSince, lastResolution, lastBetween_succ _ hat hlt, h, if_neg hne,
        Option.none_or]

/-- **Where a batch comes from.** Every batch of a log was stored by an append, and its state is
that of the last resolution of its producer since. -/
theorem batch_origin (hk : k ≤ history.length) (hb : batch ∈ (logAt config history key k).batches) :
    ∃ k₀ records, k₀ < k ∧ StoredAt history key records batch.transaction batch.baseOffset k₀ ∧
      batch.records = assignOffsets batch.baseOffset records ∧
      batch.state = stateSince history key batch.transaction k₀ k := by
  induction k generalizing batch with
  | zero =>
      have hempty : (newLog config.partitionMaxBytes).batches = [] := by
        cases config.partitionMaxBytes <;> rfl
      change batch ∈ (newLog config.partitionMaxBytes).batches at hb
      simp [hempty] at hb
  | succ k ih =>
      have hat : At history k (history.get ⟨k, hk⟩) := List.getElem?_eq_getElem _
      cases logStep h hat key with
      | kept hsame hunresolved =>
          rw [hsame] at hb
          obtain ⟨k₀, records, hlt, hstored, hrecords, hstate⟩ := ih (by omega) hb
          refine ⟨k₀, records, by omega, hstored, hrecords, ?_⟩
          rw [hstate, stateSince_of_unresolved hat hlt hunresolved]
      | appended records transaction base hstored hunresolved =>
          have happended := hstored.appendedAt h
          have hlog := logAt_wellFormed config history key k
          obtain ⟨-, hbase, -⟩ := PartitionLog.appendBatch_ok hlog (congrArg Prod.snd happended)
          have hfirst : ((logAt config history key k).appendBatch records transaction
              (firstState transaction)).1 = logAt config history key (k + 1) :=
            congrArg Prod.fst happended
          rw [← hfirst] at hb
          rcases PartitionLog.mem_appendBatch hlog hb with hold | ⟨-, rfl⟩
          · obtain ⟨k₀, old, hlt, hstored', hrecords, hstate⟩ := ih (by omega) hold
            refine ⟨k₀, old, by omega, hstored', hrecords, ?_⟩
            rw [hstate, stateSince_of_unresolved hat hlt hunresolved]
          · refine ⟨k, records, by omega, ?_, rfl, (stateSince_first ..).symm⟩
            rw [hbase] at hstored
            exact hstored
      | resolved producerId commit hlog hresolves =>
          rw [hlog] at hb
          obtain ⟨old, hold, rfl⟩ := List.mem_map.mp hb
          obtain ⟨k₀, records, hlt, hstored, hrecords, hstate⟩ := ih (by omega) hold
          refine ⟨k₀, records, by omega, ?_, ?_, ?_⟩
          · rwa [resolve_transaction, resolve_baseOffset]
          · rwa [resolve_records, resolve_baseOffset]
          · rw [resolve_transaction]
            exact stateSince_resolve hat hlt hresolves hstate

/-- Two appends with one base offset are one. -/
theorem StoredAt.unique {records' : List RecordData} {transaction' : Option Int} {k' : ℕ}
    (hk : StoredAt history key records transaction base k)
    (hk' : StoredAt history key records' transaction' base k') :
    k = k' ∧ records = records' ∧ transaction = transaction' := by
  -- an append moves the watermark, at which the next one begins
  have hnot : ∀ {k k' : ℕ} {records records' : List RecordData}
      {transaction transaction' : Option Int},
      StoredAt history key records transaction base k →
      StoredAt history key records' transaction' base k' → ¬ k < k' := by
    intro k k' records records' transaction transaction' hk hk' hlt
    have happended := hk.appendedAt h
    have hbefore := (hk'.appendedAt h).report.1
    have hafter := happended.report.2
    have hforward := Bound.forward config history key (Nat.le_refl Bound.watermark.rank)
      (show k + 1 ≤ k' from hlt)
    obtain ⟨⟨hne, -⟩, -⟩ := PartitionLog.appendBatch_ok (logAt_wellFormed config history key k)
      (congrArg Prod.snd happended)
    have hpos := List.length_pos_of_ne_nil hne
    simp only at hbefore hafter
    omega
  obtain rfl : k = k' := by
    have hle := hnot hk hk'
    have hge := hnot hk' hk
    omega
  obtain ⟨chan, command, hat, hcommand⟩ := hk
  obtain ⟨chan', command', hat', hcommand'⟩ := hk'
  cases hat.eq hat'
  cases hcommand.symm.trans hcommand'
  exact ⟨rfl, rfl, rfl⟩

/-- An append is in the log with the state its producer's resolutions gave it, or retention dropped
it. -/
theorem StoredAt.kept (hstored : StoredAt history key records transaction base k₀) (hlt : k₀ < k)
    (hk : k ≤ history.length) :
    (∃ batch ∈ (logAt config history key k).batches,
        batch.records = assignOffsets base records ∧ batch.transaction = transaction ∧
        batch.state = stateSince history key transaction k₀ k) ∨
      base + records.length ≤ (logAt config history key k).startOffset := by
  rcases (hstored.appendedAt h).kept hlt with ⟨batch, hb, rfl, hrecords, rfl⟩ | hdropped
  · obtain ⟨k₁, records', -, hstored', -, hstate⟩ := batch_origin h hk hb
    obtain ⟨rfl, -, -⟩ := hstored.unique h hstored'
    exact Or.inl ⟨batch, hb, hrecords, rfl, hstate⟩
  · exact Or.inr hdropped

omit h [DecidableEq T] in
theorem hiddenFrom_iff (hstate : batch.state = stateSince history key batch.transaction k₀ k) :
    batch.hiddenFrom true = false ↔ CommittedSince history key batch.transaction k₀ k := by
  rw [committedSince_iff, ← hstate]
  unfold StoredBatch.hiddenFrom
  rcases batch.transaction.isSome with _ | _ <;> simp

/-! ## Commits -/

/-- The producer's batches in `key` were committed at `m`. The coordinator had accepted a commit of
that producer before, of a transaction with a partition of the same shard. -/
def CommitApplied (history : List (BrokerEvent T n)) (key : TopicPartition) (producerId : Int)
    (m : ℕ) : Prop :=
  ∃ chan q chan' tid producer completion,
    At history m
      (.applied (shardIndex n key) chan (.resolveTransaction producerId true) .resolved) ∧
    At history q (accepted tid producer true completion chan') ∧ q < m ∧ producer.id = producerId ∧
    ∃ enlisted ∈ completion.partitions, shardIndex n enlisted = shardIndex n key

/-- A resolution is applied only after the coordinator accepted the end it is of. -/
theorem resolution_accepted {m chan : ℕ} {shard : Fin n} {commit : Bool} {result : PartitionResult}
    (hm : At history m (.applied shard chan (.resolveTransaction producerId commit) result)) :
    ∃ q chan' tid producer completion,
      At history q (accepted tid producer commit completion chan') ∧ q < m ∧
      producer.id = producerId ∧
        ∃ enlisted ∈ completion.partitions, shard = shardIndex n enlisted := by
  obtain ⟨p, t, hpm, hopened⟩ := h.applied_opened hm
  obtain ⟨call, next, i, exchanges, -, hfollows, hexplained, -⟩ := opened_by h hopened
  obtain ⟨tid, producer, completion, chan', rest, -, hid, henlisted, rfl⟩ :=
    follows_resolve hfollows
  obtain ⟨-, q, -, -, hqp, -, hq⟩ := hexplained.mem List.mem_cons_self
  exact ⟨q, chan', tid, producer, completion, hq, by omega, hid, henlisted⟩

omit h [DecidableEq T] in
theorem resolutionBy_some {commit : Bool} (h : resolutionBy key producerId event = some commit) :
    ∃ chan result,
      event = .applied (shardIndex n key) chan (.resolveTransaction producerId commit) result := by
  rcases event with _ | _ | _ | _ | _ | _ | ⟨shard, chan, command, result⟩ | _ | _ | _ | _ | _
  all_goals try cases h
  cases command with
  | resolveTransaction producerId' commit' =>
      simp only [resolutionBy] at h
      split at h
      · next hsame =>
          obtain ⟨rfl, rfl⟩ := hsame
          cases h
          exact ⟨chan, result, rfl⟩
      · cases h
  | _ => cases h

/-- **A committed append** of a transaction was committed after it was stored, and nothing else has
been heard of its producer since. -/
theorem CommittedSince.commitApplied
    (hcommitted : CommittedSince history key (some producerId) k₀ k) (hk : k ≤ history.length) :
    ∃ m, k₀ < m ∧ m < k ∧ CommitApplied history key producerId m ∧
      Between history m k fun event => resolutionBy key producerId event = none := by
  obtain ⟨m, event, hlow, hhigh, hm, hpick, hlast⟩ := lastBetween_some (hcommitted _ rfl) hk
  obtain ⟨chan, result, rfl⟩ := resolutionBy_some hpick
  obtain ⟨q, chan', tid, producer, completion, hq, hqm, hid, enlisted, henlisted, hshard⟩ :=
    resolution_accepted h hm
  have hresult := applied_answer h hm
  subst hresult
  exact ⟨m, hlow, hhigh, ⟨chan, q, chan', tid, producer, completion, hm, hq, hqm, hid, enlisted,
    henlisted, hshard.symm⟩, hlast⟩

/-! ## Read-committed fetches -/

/-- The records are what a read-committed reader may see at `k`, from `offset` on. -/
structure ReadsCommitted (config : ShardConfig) (history : List (BrokerEvent T n))
    (key : TopicPartition) (offset : Int) (records : List Record) (k : ℕ) : Prop where
  /-- Every record is of an append that belongs to no transaction, or whose producer has committed
  since. -/
  sound : ∀ record ∈ records, ∃ k₀ inputs transaction base, k₀ < k ∧
    StoredAt history key inputs transaction base k₀ ∧ record ∈ assignOffsets base inputs ∧
    ∀ producerId ∈ transaction, ∃ m, k₀ < m ∧ m < k ∧ CommitApplied history key producerId m ∧
      Between history m k fun event => resolutionBy key producerId event = none
  /-- No record of another append is among them: neither of one that waits for its resolution, nor
  of one that was aborted. -/
  hidden : ∀ k₀ inputs transaction base, k₀ < k → StoredAt history key inputs transaction base k₀ →
    ¬ CommittedSince history key transaction k₀ k → ∀ record ∈ assignOffsets base inputs,
      record ∉ records
  /-- No committed record is left out, up to the last one returned. -/
  shown : ∀ k₀ inputs transaction base, k₀ < k → StoredAt history key inputs transaction base k₀ →
    CommittedSince history key transaction k₀ k → ∀ record ∈ assignOffsets base inputs,
      offset ≤ record.offset → (logAt config history key k).startOffset ≤ record.offset →
      (∃ later ∈ records, record.offset ≤ later.offset) → record ∈ records

/-- What the log shows to a read-committed reader at `k`. -/
theorem readsCommitted_of_fetch (hk : k ≤ history.length) {offset : Int} {maxRecords maxBytes : ℕ}
    {window : FetchWindow}
    (hfetch : (logAt config history key k).fetchWithIsolation offset maxRecords maxBytes true =
      .ok window) :
    ReadsCommitted config history key offset window.records k where
  sound record hrecord := by
    have hlog := logAt_wellFormed config history key k
    rw [(PartitionLog.fetchWithIsolation_ok hlog hfetch).2.2] at hrecord
    obtain ⟨batch, hb, hshow, hr, -⟩ := mem_visible.mp (mem_of_mem_takeWithin hrecord)
    obtain ⟨k₀, inputs, hlt, hstored, hrecords, hstate⟩ := batch_origin h hk hb
    refine ⟨k₀, inputs, batch.transaction, batch.baseOffset, hlt, hstored, hrecords ▸ hr, ?_⟩
    intro producerId hproducer
    have hcommitted := (hiddenFrom_iff hstate).mp hshow
    rw [Option.mem_def.mp hproducer] at hcommitted
    exact hcommitted.commitApplied h hk
  hidden k₀ inputs transaction base hlt hstored hnot record hr hrecord := by
    have hlog := logAt_wellFormed config history key k
    rcases hstored.kept h hlt hk with ⟨batch, hb, hrecords, rfl, hstate⟩ | hdropped
    · have hhide : batch.hiddenFrom true = true := by
        rw [← Bool.not_eq_false, hiddenFrom_iff hstate]
        exact hnot
      exact hlog.hides hb hhide (hrecords ▸ hr) offset maxRecords maxBytes window hfetch hrecord
    · -- a record that retention dropped is below everything that is returned
      rw [(PartitionLog.fetchWithIsolation_ok hlog hfetch).2.2] at hrecord
      obtain ⟨batch, hb, -, hr', -⟩ := mem_visible.mp (mem_of_mem_takeWithin hrecord)
      have hstart := (hlog.inRange hb hr').1
      have hbound := ((offsetsFrom_assignOffsets base inputs).bounds hr).2
      rw [length_assignOffsets] at hbound
      omega
  shown k₀ inputs transaction base hlt hstored hcommitted record hr hoffset hstart hlater := by
    have hlog := logAt_wellFormed config history key k
    rcases hstored.kept h hlt hk with ⟨batch, hb, hrecords, rfl, hstate⟩ | hdropped
    · have hshow := (hiddenFrom_iff hstate).mpr hcommitted
      exact (hlog.shows hb hshow (hrecords ▸ hr)).2 offset maxRecords maxBytes window hfetch hoffset
        hlater
    · have hbound := ((offsetsFrom_assignOffsets base inputs).bounds hr).2
      rw [length_assignOffsets] at hbound
      omega

omit h

/-- **No dirty reads.** What a read-committed fetch returns is, at a moment of its interval, what is
committed and nothing else, whatever other clients do meanwhile. -/
theorem no_dirty_reads (h : Runs (system broker config) (startShards n) history net) {t : T}
    {topic : Bytes} {partition offset : Int} {maxRecords maxBytes i j : ℕ} {answer : Answer}
    (hran : Ran history t (.fetchWithIsolation topic partition offset maxRecords maxBytes true)
      (.ok answer) i j) :
    ∃ k window, i ≤ k ∧ k < j ∧ answer = .window window ∧
      ReadsCommitted config history ⟨topic, partition⟩ offset window.records k := by
  obtain ⟨k, window, hik, hkj, rfl, -, hfetch⟩ := hran.fetched_ok h
  have hk : k ≤ history.length := by
    have := hran.returned.lt
    omega
  exact ⟨k, window, hik, hkj, rfl, readsCommitted_of_fetch h hk hfetch⟩

end Runs

/-- A client appends in a transaction, commits it, and appends in the next; another one then
reads. -/
def committedThenPending : List (Label (Fin 2) (Fin 2) Call) := List.flatten
  [visit 0 (.initProducer [120]) [0], visit 0 (.addTransactionPartition [120] ⟨1, 0⟩ [116] 0) [0],
    visit 0 (.produceTransactional [120] ⟨1, 0⟩ [116] 0 [⟨1, none, none⟩]) [0, 1],
    visit 0 (.endTransaction [120] ⟨1, 0⟩ true) [0, 1],
    visit 0 (.addTransactionPartition [120] ⟨1, 0⟩ [116] 0) [0],
    visit 0 (.produceTransactional [120] ⟨1, 0⟩ [116] 0 [⟨2, none, none⟩]) [0, 1],
    visit 1 (.fetchWithIsolation [116] 0 0 10 4096 true) [1]]

theorem no_dirty_reads_committedThenPending :
    ∃ (history : List (BrokerEvent (Fin 2) 2)) (net : BrokerNet (Fin 2) 2),
      Runs (system oneTopicBroker oneTopic) (startShards 2) history net ∧
        Ran history 1 (.fetchWithIsolation [116] 0 0 10 4096 true)
          (.ok (.window ⟨2, 1, [⟨0, 1, none, none⟩]⟩)) 66 73 ∧
        ∃ k, 66 ≤ k ∧ k < 73 ∧
          ReadsCommitted oneTopic history ⟨[116], 0⟩ 0 [⟨0, 1, none, none⟩] k := by
  obtain ⟨history, net, hrun, hran⟩ :=
    exists_run (system oneTopicBroker oneTopic) (startShards 2) committedThenPending
      (fun history _ => Ran history 1 (.fetchWithIsolation [116] 0 0 10 4096 true)
        (.ok (.window ⟨2, 1, [⟨0, 1, none, none⟩]⟩)) 66 73) (by decide +kernel)
  obtain ⟨k, window, hik, hkj, hwindow, hreads⟩ := no_dirty_reads hrun hran
  cases hwindow
  exact ⟨history, net, hrun, hran, k, hik, hkj, hreads⟩

/-! ## Consumer offsets of a transaction -/

section Programs

variable {exchanges : List (Exchange (Fin n) PartitionCommand PartitionResult)} {shard : Fin n}
  {command : PartitionCommand}

/-- The request that commits an enlisted offset. -/
def commitRequest (enlisted : TransactionOffset) : CoordinationRequest :=
  .commitOffset enlisted.groupId enlisted.generation enlisted.topic enlisted.partition
    enlisted.offset

theorem follows_commitOffsets_call {offsets : List TransactionOffset}
    {next : Except Fault PartitionResult →
      Prog (Fin n) PartitionCommand PartitionResult (Except BrokerError Unit)}
    (h : (commitOffsets offsets).run.Follows exchanges (.call shard command next)) :
    ∃ enlisted ∈ offsets, command = .coordinate (commitRequest enlisted) := by
  induction offsets generalizing exchanges with
  | nil => cases ((Prog.follows_ret _ _ _).mp h).2
  | cons enlisted rest ih =>
      rcases Prog.Follows.of_bind_ok_call h with
        ⟨next', hfirst⟩ | ⟨first, second, ⟨⟩, -, -, hrest⟩
      · rcases Prog.Follows.of_bind_ok_call hfirst with
          ⟨next'', hcall⟩ | ⟨_, _, answer, -, -, hlook⟩
        · obtain ⟨-, -, rfl⟩ := follows_coordinateCall_call hcall
          exact ⟨enlisted, List.mem_cons_self, rfl⟩
        · exact absurd hlook (looks_applied answer).not_call
      · obtain ⟨other, hother, hcommand⟩ := ih hrest
        exact ⟨other, List.mem_cons_of_mem _ hother, hcommand⟩

/-- An offset is committed by the call that asks for it, or by the commit of a transaction that has
enlisted it, once every partition of the transaction is resolved. -/
theorem follows_commitOffset {catalog : TopicCatalog} {call : Call} {group topic : Bytes}
    {generation partition offset : Int}
    {next : Except Fault PartitionResult →
      Prog (Fin n) PartitionCommand PartitionResult (Except BrokerError Answer)}
    (h : (call.program catalog).run.Follows exchanges
      (.call shard (.coordinate (.commitOffset group generation topic partition offset)) next)) :
    call = .commitGroupOffset group generation topic partition offset ∨
      ∃ tid producer completion chan rest, call = .endTransaction tid producer true ∧
        (∃ enlisted ∈ completion.offsets,
          commitRequest enlisted = .commitOffset group generation topic partition offset) ∧
        exchanges = ⟨chan, 0, .coordinate (.endTransaction tid producer true),
          .ok (.coordination (.ok (.transactionCompleted completion)))⟩ :: rest ∧
        ∀ key ∈ completion.partitions, ∃ chan',
          ⟨chan', shardIndex n key, .resolveTransaction producer.id true, .ok .resolved⟩ ∈ rest := by
  have hsends := ((program_sends catalog call).follows h).1
  cases call <;> simp [Call.Sends, Call.request] at hsends
  case commitGroupOffset =>
    obtain ⟨-, rfl, rfl, rfl, rfl, rfl⟩ := hsends
    exact Or.inl rfl
  case endTransaction tid producer commit =>
    obtain ⟨rfl, -⟩ := hsends
    obtain ⟨next', hprogram⟩ := follows_map_call h
    rcases Prog.Follows.of_bind_ok_call hprogram with
      ⟨next'', hcoordinate⟩ | ⟨first, second, answer, rfl, hend, hrest⟩
    · cases (follows_coordinateCall_call hcoordinate).2.2
    · obtain ⟨chan, rfl⟩ := follows_coordinateCall_ok hend
      cases answer with
      | transactionCompleted completion =>
          rcases Prog.Follows.of_bind_ok_call hrest with
            ⟨next'', hresolve⟩ | ⟨resolves, offsets, ⟨⟩, rfl, hresolves, hoffsets⟩
          · cases (follows_resolvePartitions_call hresolve).1
          · obtain ⟨enlisted, henlisted, hcommand⟩ := follows_commitOffsets_call hoffsets
            refine Or.inr ⟨tid, producer, completion, chan, resolves ++ offsets, rfl,
              ⟨enlisted, henlisted, (PartitionCommand.coordinate.inj hcommand).symm⟩, rfl, ?_⟩
            intro key hkey
            obtain ⟨chan', hmem⟩ := follows_resolvePartitions_ok hresolves hkey
            exact ⟨chan', List.mem_append_left _ hmem⟩
      | _ => cases ((Prog.follows_ret _ _ _).mp hrest).2

end Programs

/-- Where the offset committed at `m` comes from. -/
inductive OffsetSource (history : List (BrokerEvent T n)) (group topic : Bytes)
    (partition offset : Int) (m : ℕ) : Prop
  /-- A client asked for it. -/
  | request (t : T) (generation : Int) (i p : ℕ)
      (spans : Spans history t (.commitGroupOffset group generation topic partition offset) i p)
      (before : p < m)
  /-- It was enlisted in a transaction that the coordinator committed at `q`. Whatever the producer
  had stored in a partition of the transaction was committed before the offset was. -/
  | transaction (tid : Bytes) (producer : ProducerIdentity) (completion : TransactionCompletion)
      (enlisted : TransactionOffset) (q chan : ℕ)
      (committed : At history q (accepted tid producer true completion chan))
      (mem : enlisted ∈ completion.offsets)
      (names : commitRequest enlisted =
        .commitOffset group enlisted.generation topic partition offset)
      (outputs : ∀ key ∈ completion.partitions, ∃ r, q < r ∧ r < m ∧
        ∀ records base k₀, StoredAt history key records (some producer.id) base k₀ → k₀ < r →
          CommittedSince history key (some producer.id) k₀ (r + 1))

section Runs

variable {config} {broker : BrokerConfig} [DecidableEq T] {history : List (BrokerEvent T n)}
  {net : BrokerNet T n} {group topic : Bytes} {partition offset : Int}

omit [DecidableEq T] in
/-- A commit of the producer commits what it has stored in the partition. -/
theorem committedSince_of_applied {key : TopicPartition} {r chan k₀ : ℕ} (hr : At history r
      (.applied (shardIndex n key) chan (.resolveTransaction producerId true) .resolved))
    (hlt : k₀ < r) : CommittedSince history key (some producerId) k₀ (r + 1) := by
  rintro _ ⟨⟩
  rw [lastResolution, lastBetween_succ _ hr hlt, resolutionBy, if_pos ⟨rfl, rfl⟩]
  rfl

theorem offsetSource (h : Runs (system broker config) (startShards n) history net) {m : ℕ}
    (hm : CommittedAt history group topic partition offset m) :
    OffsetSource history group topic partition offset m := by
  obtain ⟨generation, value, chan, hat⟩ := hm
  obtain ⟨p, t, hpm, hopened⟩ := h.applied_opened hat
  obtain ⟨call, next, i, exchanges, hspans, hfollows, hexplained, -⟩ := opened_by h hopened
  rcases follows_commitOffset hfollows with
    rfl | ⟨tid, producer, completion, chan', rest, rfl, ⟨enlisted, hmem, hnames⟩, rfl, hresolved⟩
  · exact .request t generation i p hspans hpm
  · obtain ⟨-, q, -, -, -, hq, hrest⟩ := hexplained
    have hgeneration : enlisted.generation = generation := by
      injection hnames
    refine .transaction tid producer completion enlisted q chan' hq hmem
      (hgeneration ▸ hnames) fun key hkey => ?_
    obtain ⟨chan'', hsent⟩ := hresolved key hkey
    obtain ⟨_, r, hqp, hpr, hrp, -, hr⟩ := hrest.mem hsent
    exact ⟨r, by omega, by omega, fun _ _ _ _ hlt => committedSince_of_applied hr hlt⟩

end Runs

/-- A member of a group appends in a transaction, enlists the offset it has read up to and commits;
the offset is then read. -/
def offsetInTransaction : List (Label (Fin 2) (Fin 2) Call) := List.flatten
  [visit 0 (.initProducer [120]) [0], visit 0 (.joinGroup [103] [109] []) [0],
    visit 0 (.addTransactionPartition [120] ⟨1, 0⟩ [116] 0) [0],
    visit 0 (.produceTransactional [120] ⟨1, 0⟩ [116] 0 [⟨1, none, none⟩]) [0, 1],
    visit 0 (.addTransactionOffset [120] ⟨1, 0⟩ ⟨[103], 1, [116], 1, 7⟩) [0],
    visit 0 (.endTransaction [120] ⟨1, 0⟩ true) [0, 1, 0], visit 1 (.groupOffset [103] [116] 1) [0]]

end CharlotteBroker.Runtime
