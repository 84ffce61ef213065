import CharlotteBroker.Core.Kept
import CharlotteBroker.Core.Offsets
import CharlotteBroker.Runtime.Atomic

/-!
# What a client may rely on from one call to the next

A call that returned before another was invoked acted before it. What the first said about a
partition therefore bounds what the second finds there, whichever clients made them and whatever
happens in between.

* `Ran`: a call with its interval. `Ran.acted`, `Ran.appended`: the moment at which it acted.
* `Call.reports`: the offsets a call tells its client, each with the bound of the log it is.
* `reports_forward`: offsets told one after the other never go backwards.
* `read_your_writes`: what was acknowledged is read by a later fetch, from its own offset on, until
  retention drops it.
-/

namespace CharlotteBroker.Runtime

open CharlotteBroker.Core Lib Lib.Rpc

variable {T : Type} {n : ℕ} [NeZero n]

variable {command : PartitionCommand} {partition base : Int} {topic : Bytes} {readCommitted : Bool}
  {log : PartitionLog} {maxRecords k : ℕ}

/-! ## Calls and their intervals -/

/-- The call of `t` was invoked at `i` and returned `result` at `j`. -/
abbrev Ran (history : List (BrokerEvent T n)) (t : T) (call : Call)
    (result : Except BrokerError Answer) (i j : ℕ) : Prop :=
  Lib.Rpc.Completed history t call result i j

variable (config : ShardConfig)

/-- The log of a partition before the event at `k`. -/
noncomputable def logAt (history : List (BrokerEvent T n)) (key : TopicPartition) (k : ℕ) :
    PartitionLog :=
  (viewAfter config (history.take k)).logs key

theorem logAt_wellFormed (history : List (BrokerEvent T n)) (key : TopicPartition) (k : ℕ) :
    (logAt config history key k).WellFormed :=
  viewAfter_wellFormed config (history.take k) key

theorem logAt_run (history : List (BrokerEvent T n)) (key : TopicPartition) {i j : ℕ}
    (hij : i ≤ j) :
    ∃ ops, logAt config history key j = (logAt config history key i).run ops :=
  viewAfter_logs_take config history key hij

section Runs

variable {config} {broker : BrokerConfig} [DecidableEq T] {history : List (BrokerEvent T n)}
  {net : BrokerNet T n} {t : T} {call : Call} {result : Except BrokerError Answer} {i j : ℕ}

theorem Ran.callEnd (h : Runs (system broker config) (startShards n) history net)
    (hran : Ran history t call result i j) (hatomic : call.atomic = true) :
    CallEnd config history t call i j result := by
  obtain ⟨i', hlt, hspans, hend⟩ := returned_callEnd h hran.returned hatomic
  obtain ⟨rfl, -⟩ := hran.spans.unique hspans hran.lt (Nat.le_refl j) hlt (Nat.le_refl j)
  exact hend

/-- An answered call acted at a moment of its interval. -/
theorem Ran.acted (h : Runs (system broker config) (startShards n) history net)
    (hran : Ran history t call result i j) (hatomic : call.atomic = true)
    (hanswered : Answered result) :
    ∃ k, i ≤ k ∧ k < j ∧ (viewAfter config (history.take k)).perform config n call =
      (viewAfter config (history.take (k + 1)), result) := by
  cases hran.callEnd h hatomic with
  | acted k hik hkj _ _ hperforms _ => exact ⟨k, hik, hkj, hperforms⟩
  | unheard hresult _ =>
      subst hresult
      exact hanswered.elim
  | unanswered hresult _ _ =>
      subst hresult
      exact hanswered.elim

end Runs

/-! ## Appends -/

/-- What the two kinds of produce append, and for which producer. -/
def Call.appends : Call → Option (TopicPartition × List RecordData × Option Int)
  | .produce topic partition records => some (⟨topic, partition⟩, records, none)
  | .produceTransactional _ producer topic partition records =>
      some (⟨topic, partition⟩, records, some producer.id)
  | _ => none

/-- The state a batch is appended in. -/
def firstState (transaction : Option Int) : BatchState :=
  if transaction.isSome then .pending else .committed

/-- The batch was appended to the log of `key` at `k`, from offset `base` on. -/
def AppendedAt (history : List (BrokerEvent T n)) (key : TopicPartition) (records : List RecordData)
    (transaction : Option Int) (base : Int) (k : ℕ) : Prop :=
  (logAt config history key k).appendBatch records transaction (firstState transaction) =
    (logAt config history key (k + 1), .ok base)

/-- The commands of the two kinds of produce. -/
def PartitionCommand.appends :
    PartitionCommand → Option (TopicPartition × List RecordData × Option Int)
  | .produce topic partition records => some (⟨topic, partition⟩, records, none)
  | .produceTransactional topic partition records producerId =>
      some (⟨topic, partition⟩, records, some producerId)
  | _ => none

section Programs

variable {exchanges : List (Exchange (Fin n) PartitionCommand PartitionResult)}

/-- The command whose answer the produce looks at was answered with the offset it returns. -/
theorem follows_append_call
    (h : (call topic partition command >>= producedOffset (n := n)).run.Follows exchanges
      (.ret (.ok base))) :
    ∃ chan, ⟨chan, shardIndex n ⟨topic, partition⟩, command, .ok (.produced base)⟩ ∈ exchanges := by
  obtain ⟨sent, looked, result, rfl, hcall, hlook⟩ := Prog.Follows.of_bind_ok h
  obtain ⟨chan, rfl⟩ := follows_callShard_ok hcall
  cases result with
  | produced offset =>
      obtain ⟨rfl, rfl⟩ := follows_pure_ok hlook
      exact ⟨chan, by simp⟩
  | _ => exact absurd hlook not_follows_throw_ok

/-- A produce that succeeds has had its command answered with the offset it returns. -/
theorem follows_appends_ok {catalog : TopicCatalog} {call : Call} {key : TopicPartition}
    {records : List RecordData} {transaction : Option Int} {answer : Answer}
    (hcall : call.appends = some (key, records, transaction))
    (h : (call.program catalog).run.Follows exchanges (.ret (.ok answer))) :
    ∃ base chan command, answer = .offset base ∧
      command.appends = some (key, records, transaction) ∧
      ⟨chan, shardIndex n key, command, .ok (.produced base)⟩ ∈ exchanges := by
  cases call <;> cases hcall
  case produce topic partition =>
    rw [Call.program, map_eq_pure_bind] at h
    obtain ⟨first, last, base, rfl, hprogram, hanswer⟩ := Prog.Follows.of_bind_ok h
    obtain ⟨rfl, rfl⟩ := follows_pure_ok hanswer
    obtain ⟨checking, sent, ⟨⟩, rfl, -, hsent⟩ := Prog.Follows.of_bind_ok hprogram
    obtain ⟨chan, hmem⟩ := follows_append_call hsent
    refine ⟨base, chan, .produce topic partition records, rfl, rfl, ?_⟩
    simp [hmem]
  case produceTransactional tid producer topic partition =>
    rw [Call.program, map_eq_pure_bind] at h
    obtain ⟨first, last, base, rfl, hprogram, hanswer⟩ := Prog.Follows.of_bind_ok h
    obtain ⟨rfl, rfl⟩ := follows_pure_ok hanswer
    obtain ⟨asked, rest, ⟨⟩, rfl, -, hrest⟩ := Prog.Follows.of_bind_ok hprogram
    obtain ⟨checking, sent, ⟨⟩, rfl, -, hsent⟩ := Prog.Follows.of_bind_ok hrest
    obtain ⟨chan, hmem⟩ := follows_append_call hsent
    refine ⟨base, chan, .produceTransactional topic partition records producer.id, rfl, rfl, ?_⟩
    simp [hmem]

end Programs

/-- What an append does to the log, and how it is answered. -/
theorem PartitionCommand.onLog_appends {key : TopicPartition} {records : List RecordData}
    {transaction : Option Int} (h : command.appends = some (key, records, transaction)) :
    command.onLog = some (key, fun log =>
      ((log.appendBatch records transaction (firstState transaction)).1,
        answer .produced (log.appendBatch records transaction (firstState transaction)).2)) := by
  cases command <;> cases h <;> rfl

section Runs

variable {config} {broker : BrokerConfig} [DecidableEq T] {history : List (BrokerEvent T n)}
  {net : BrokerNet T n} {t : T} {call : Call} {answer : Answer} {i j : ℕ} {key : TopicPartition}
  {records : List RecordData} {transaction : Option Int}

variable (h : Runs (system broker config) (startShards n) history net)
include h

/-- An append answered with an offset took place, in a partition the catalog knows. -/
theorem applied_appends {chan : ℕ} {shard : Fin n}
    (hk : At history k (.applied shard chan command (.produced base)))
    (hcommand : command.appends = some (key, records, transaction)) :
    config.catalog.checkPartition key.topic key.partition = .ok () ∧
      AppendedAt config history key records transaction base k := by
  have honLog := PartitionCommand.onLog_appends hcommand
  have hcheck : config.catalog.checkPartition key.topic key.partition = .ok () := by
    have hanswer := applied_answer h hk
    rw [View.serve_onLog config _ _ honLog] at hanswer
    unfold View.withLog at hanswer
    rcases hcheck : config.catalog.checkPartition key.topic key.partition with error | ⟨⟩
    · simp only [hcheck] at hanswer
      cases hanswer
    · rfl
  obtain ⟨hanswer, hlog⟩ := applied_onLog h hk honLog hcheck
  refine ⟨hcheck, Prod.ext hlog.symm ?_⟩
  change _ = answer _ ((logAt config history key k).appendBatch records transaction
    (firstState transaction)).2 at hanswer
  rcases hdone : ((logAt config history key k).appendBatch records transaction
    (firstState transaction)).2 with error | offset
  · rw [hdone] at hanswer
    cases hanswer
  · rw [hdone] at hanswer
    cases hanswer
    rfl

/-- The command of an acknowledged produce was applied at a moment of its interval. -/
theorem Ran.applied_append (hran : Ran history t call (.ok answer) i j)
    (hcall : call.appends = some (key, records, transaction)) :
    ∃ base p k chan command, answer = .offset base ∧ i < p ∧ p ≤ k ∧ k < j ∧
      command.appends = some (key, records, transaction) ∧
      At history p (.opened t chan (shardIndex n key) command) ∧
      At history k (.applied (shardIndex n key) chan command (.produced base)) := by
  obtain ⟨i', exchanges, hspans, hfollows, hexplained, -⟩ := returned_by h hran.returned
  obtain ⟨rfl, -⟩ := hran.spans.unique hspans hran.lt (Nat.le_refl j) hexplained.lt (Nat.le_refl j)
  obtain ⟨base, chan, command, hanswer, hcommand, hmem⟩ := follows_appends_ok hcall hfollows
  obtain ⟨p, k, hip, hpk, hkj, hopened, happlied⟩ := hexplained.mem hmem
  exact ⟨base, p, k, chan, command, hanswer, hip, hpk, hkj, hcommand, hopened, happlied⟩

/-- An acknowledged append took place at a moment of its call's interval. -/
theorem Ran.appended (hran : Ran history t call (.ok answer) i j)
    (hcall : call.appends = some (key, records, transaction)) :
    config.catalog.checkPartition key.topic key.partition = .ok () ∧
      ∃ base k, answer = .offset base ∧ i ≤ k ∧ k < j ∧
        AppendedAt config history key records transaction base k := by
  obtain ⟨base, p, k, chan, command, hanswer, hip, hpk, hkj, hcommand, -, happlied⟩ :=
    hran.applied_append h hcall
  obtain ⟨hcheck, happended⟩ := applied_appends h happlied hcommand
  exact ⟨hcheck, base, k, hanswer, by omega, hkj, happended⟩

end Runs

/-- An append that took place is in the log from then on, or retention dropped it. -/
theorem AppendedAt.kept {config : ShardConfig} {history : List (BrokerEvent T n)}
    {key : TopicPartition} {records : List RecordData} {transaction : Option Int}
    (h : AppendedAt config history key records transaction base k) {m : ℕ} (hm : k < m) :
    (∃ batch ∈ (logAt config history key m).batches, batch.baseOffset = base ∧
        batch.records = assignOffsets base records ∧ batch.transaction = transaction) ∨
      base + records.length ≤ (logAt config history key m).startOffset := by
  have hwf := logAt_wellFormed config history key
  obtain ⟨-, hbase, hmem, -⟩ := PartitionLog.appendBatch_ok (hwf k) (congrArg Prod.snd h)
  rw [h] at hmem
  obtain ⟨ops, hops⟩ := logAt_run config history key hm
  have hkept := mem_run_kept (hwf (k + 1)) ops hmem
  rw [← hops, StoredBatch.endOffset] at hkept
  unfold newBatch at hkept
  simp only [length_assignOffsets, ← hbase] at hkept
  exact hkept

/-- The log of a partition is made by log operations from the start. -/
theorem logAt_eq_run (history : List (BrokerEvent T n)) (key : TopicPartition) (k : ℕ) :
    ∃ ops, logAt config history key k = (newLog config.partitionMaxBytes).run ops :=
  viewAfter_logs_append config [] (history.take k) key

/-! ## Offsets told to clients -/

/-- The three offsets that bound a log, from the lowest to the highest. -/
inductive Bound
  | start
  | stable
  | watermark
  deriving DecidableEq, Repr

def Bound.rank : Bound → ℕ
  | .start => 0
  | .stable => 1
  | .watermark => 2

/-- The bound of a log. -/
def Bound.of (log : PartitionLog) : Bound → Int
  | .start => log.startOffset
  | .stable => log.lastStableOffset
  | .watermark => log.highWatermark

/-- An offset a call tells its client: a bound of the partition's log as the call found it, and as
it left it. -/
structure Report where
  key : TopicPartition
  bound : Bound
  before : Int
  after : Int
  deriving DecidableEq, Repr

/-- The offsets in a call's answer. -/
def Call.reports : Call → Answer → List Report
  | .produce topic partition records, .offset base =>
      [⟨⟨topic, partition⟩, .watermark, base, base + records.length⟩]
  | .produceTransactional _ _ topic partition records, .offset base =>
      [⟨⟨topic, partition⟩, .watermark, base, base + records.length⟩]
  | .fetchWithIsolation topic partition _ _ _ _, .window window =>
      [⟨⟨topic, partition⟩, .watermark, window.highWatermark, window.highWatermark⟩,
        ⟨⟨topic, partition⟩, .stable, window.lastStableOffset, window.lastStableOffset⟩]
  | .listOffset topic partition earliest, .offset offset =>
      [⟨⟨topic, partition⟩, if earliest then .start else .watermark, offset, offset⟩]
  | _, _ => []

theorem Bound.of_le (hlog : log.WellFormed) {bound bound' : Bound} (h : bound.rank ≤ bound'.rank) :
    bound.of log ≤ bound'.of log := by
  have hstart := hlog.startOffset_le_lastStableOffset
  have hstable := hlog.lastStableOffset_le
  cases bound <;> cases bound' <;>
    simp only [Bound.rank, Bound.of, PartitionLog.highWatermark] at h ⊢ <;> omega

theorem Bound.of_le_apply (hlog : log.WellFormed) (bound : Bound) (op : LogOp) :
    bound.of log ≤ bound.of (op.apply log) := by
  cases bound with
  | start => exact op.startOffset_le_apply hlog
  | stable => exact op.lastStableOffset_le_apply hlog
  | watermark => exact op.nextOffset_le_apply hlog

/-- No operation moves a bound back. -/
theorem Bound.of_le_run (hlog : log.WellFormed) (bound : Bound) (ops : List LogOp) :
    bound.of log ≤ bound.of (log.run ops) := by
  induction ops generalizing log with
  | nil => exact le_refl _
  | cons op ops ih =>
      exact (Bound.of_le_apply hlog bound op).trans (ih (op.apply_wellFormed hlog))

theorem Bound.forward (history : List (BrokerEvent T n)) (key : TopicPartition)
    {bound bound' : Bound} (hrank : bound.rank ≤ bound'.rank) {k' : ℕ} (hk : k ≤ k') :
    bound.of (logAt config history key k) ≤ bound'.of (logAt config history key k') := by
  obtain ⟨ops, hops⟩ := logAt_run config history key hk
  have hwf := logAt_wellFormed config history key
  calc bound.of (logAt config history key k)
      ≤ bound.of ((logAt config history key k).run ops) := Bound.of_le_run (hwf k) bound ops
    _ = bound.of (logAt config history key k') := by rw [hops]
    _ ≤ bound'.of (logAt config history key k') := Bound.of_le (hwf k') hrank

/-- The report is of the log before and after the event at `k`. -/
def Report.Holds (report : Report) (history : List (BrokerEvent T n)) (k : ℕ) : Prop :=
  report.before = report.bound.of (logAt config history report.key k) ∧
    report.after = report.bound.of (logAt config history report.key (k + 1))

variable {config} in
theorem AppendedAt.report {history : List (BrokerEvent T n)} {key : TopicPartition}
    {records : List RecordData} {transaction : Option Int}
    (h : AppendedAt config history key records transaction base k) :
    Report.Holds config ⟨key, .watermark, base, base + records.length⟩ history k := by
  obtain ⟨-, hbase, -, hnext⟩ :=
    PartitionLog.appendBatch_ok (logAt_wellFormed config history key k) (congrArg Prod.snd h)
  rw [h, ← hbase] at hnext
  exact ⟨hbase, hnext.symm⟩

section Runs

variable {config} {broker : BrokerConfig} [DecidableEq T] {history : List (BrokerEvent T n)}
  {net : BrokerNet T n} {t : T} {call : Call} {answer : Answer} {i j : ℕ}

variable (h : Runs (system broker config) (startShards n) history net)
include h

/-- What a fetch returned is the log's answer at a moment of its interval, and it changed
nothing. -/
theorem Ran.fetched {offset : Int} {maxBytes : ℕ} {result : Except BrokerError Answer}
    (hran : Ran history t
      (.fetchWithIsolation topic partition offset maxRecords maxBytes readCommitted) result i j)
    (hanswered : Answered result) :
    ∃ k, i ≤ k ∧ k < j ∧
      viewAfter config (history.take (k + 1)) = viewAfter config (history.take k) ∧
      result = ((config.catalog.checkPartition topic partition >>= fun _ =>
        (logAt config history ⟨topic, partition⟩ k).fetchWithIsolation offset maxRecords maxBytes
          readCommitted).mapError .core).map .window := by
  obtain ⟨k, hik, hkj, hperforms⟩ := hran.acted h rfl hanswered
  unfold View.perform at hperforms
  rw [Call.program, View.run_map, run_fetchWithIsolation] at hperforms
  obtain ⟨hview, hresult⟩ := Prod.mk.inj hperforms
  exact ⟨k, hik, hkj, hview.symm, hresult.symm⟩

theorem Ran.fetched_ok {offset : Int} {maxBytes : ℕ} (hran : Ran history t
      (.fetchWithIsolation topic partition offset maxRecords maxBytes readCommitted) (.ok answer) i
      j) :
    ∃ k window, i ≤ k ∧ k < j ∧ answer = .window window ∧
      viewAfter config (history.take (k + 1)) = viewAfter config (history.take k) ∧
      (logAt config history ⟨topic, partition⟩ k).fetchWithIsolation offset maxRecords maxBytes
        readCommitted = .ok window := by
  obtain ⟨k, hik, hkj, hview, hresult⟩ := hran.fetched h trivial
  rcases hcheck : config.catalog.checkPartition topic partition with error | ⟨⟩
  · rw [hcheck] at hresult
    cases hresult
  · rw [hcheck] at hresult
    change _ = (((logAt config history ⟨topic, partition⟩ k).fetchWithIsolation offset maxRecords
      maxBytes readCommitted).mapError BrokerError.core).map Answer.window at hresult
    rcases hfetch : (logAt config history ⟨topic, partition⟩ k).fetchWithIsolation offset maxRecords
      maxBytes readCommitted with error | window
    · rw [hfetch] at hresult
      cases hresult
    · rw [hfetch] at hresult
      cases hresult
      exact ⟨k, window, hik, hkj, rfl, hview, hfetch⟩

theorem Ran.listed_ok {earliest : Bool}
    (hran : Ran history t (.listOffset topic partition earliest) (.ok answer) i j) :
    ∃ k, i ≤ k ∧ k < j ∧
      viewAfter config (history.take (k + 1)) = viewAfter config (history.take k) ∧
      answer = .offset ((logAt config history ⟨topic, partition⟩ k).listOffset earliest) := by
  obtain ⟨k, hik, hkj, hperforms⟩ := hran.acted h rfl trivial
  unfold View.perform at hperforms
  rw [Call.program, View.run_map, run_listOffset] at hperforms
  obtain ⟨hview, hresult⟩ := Prod.mk.inj hperforms
  refine ⟨k, hik, hkj, hview.symm, ?_⟩
  rcases hcheck : config.catalog.checkPartition topic partition with error | ⟨⟩
  · rw [hcheck] at hresult
    cases hresult
  · rw [hcheck] at hresult
    exact (Except.ok.inj hresult).symm

/-- **What a call tells is true** of the log at a moment of its interval. -/
theorem Ran.reports (hran : Ran history t call (.ok answer) i j) :
    ∃ k, i ≤ k ∧ k < j ∧ ∀ report ∈ call.reports answer, report.Holds config history k := by
  cases call with
  | produce topic partition records =>
      obtain ⟨-, base, k, rfl, hik, hkj, happended⟩ := hran.appended h rfl
      refine ⟨k, hik, hkj, fun report hreport => ?_⟩
      rw [List.mem_singleton.mp hreport]
      exact happended.report
  | produceTransactional tid producer topic partition records =>
      obtain ⟨-, base, k, rfl, hik, hkj, happended⟩ := hran.appended h rfl
      refine ⟨k, hik, hkj, fun report hreport => ?_⟩
      rw [List.mem_singleton.mp hreport]
      exact happended.report
  | fetchWithIsolation topic partition offset maxRecords maxBytes readCommitted =>
      obtain ⟨k, window, hik, hkj, rfl, hview, hfetch⟩ := hran.fetched_ok h
      have hsame : logAt config history ⟨topic, partition⟩ (k + 1) =
          logAt config history ⟨topic, partition⟩ k := by
        unfold logAt
        rw [hview]
      obtain ⟨hstable, hmark⟩ := PartitionLog.fetchInner_reports hfetch
      refine ⟨k, hik, hkj, fun report hreport => ?_⟩
      unfold Report.Holds
      rcases List.mem_pair.mp hreport with rfl | rfl
      · rw [hsame]
        exact ⟨hmark, hmark⟩
      · rw [hsame]
        exact ⟨hstable, hstable⟩
  | listOffset topic partition earliest =>
      obtain ⟨k, hik, hkj, hview, rfl⟩ := hran.listed_ok h
      have hsame : logAt config history ⟨topic, partition⟩ (k + 1) =
          logAt config history ⟨topic, partition⟩ k := by
        unfold logAt
        rw [hview]
      refine ⟨k, hik, hkj, fun report hreport => ?_⟩
      rw [List.mem_singleton.mp hreport]
      unfold Report.Holds
      rw [hsame]
      cases earliest <;> exact ⟨rfl, rfl⟩
  | _ => exact ⟨i, Nat.le_refl i, hran.lt, fun report hreport => absurd hreport List.not_mem_nil⟩

omit h

/-- **Offsets told one after the other never go backwards.** When a call returned before another was
invoked, a bound of a log that the first left is at most what the second finds of the same or a
higher bound: its start never passes its last stable offset, nor that its watermark, and none of
them moves back, whichever clients ask. -/
theorem reports_forward (h : Runs (system broker config) (startShards n) history net) {t' : T}
    {call' : Call} {answer' : Answer} {i' j' : ℕ} (hran : Ran history t call (.ok answer) i j)
    (hran' : Ran history t' call' (.ok answer') i' j') (hbefore : j < i') {report report' : Report}
    (hreport : report ∈ call.reports answer) (hreport' : report' ∈ call'.reports answer')
    (hkey : report.key = report'.key) (hrank : report.bound.rank ≤ report'.bound.rank) :
    report.after ≤ report'.before := by
  obtain ⟨k, -, hkj, hholds⟩ := hran.reports h
  obtain ⟨k', hik', -, hholds'⟩ := hran'.reports h
  rw [(hholds report hreport).2, (hholds' report' hreport').1, ← hkey]
  exact Bound.forward config history report.key hrank (by omega)

/-! ## Reading what was written -/

omit [DecidableEq T] in
/-- A window of the log from an offset of an appended batch starts with the batch's records, as
many as the budgets allow and at least one, unless retention has dropped them. -/
theorem AppendedAt.fetched {key : TopicPartition} {records : List RecordData}
    {transaction : Option Int} {offset : Int} {k' : ℕ} (maxBytes : ℕ)
    (happended : AppendedAt config history key records transaction base k) (hlater : k < k')
    (hlow : base ≤ offset) (hhigh : offset < base + records.length) (hmax : 0 < maxRecords)
    (hreader : transaction = none ∨ readCommitted = false) :
    (∃ window rest, (logAt config history key k').fetchWithIsolation offset maxRecords maxBytes
          readCommitted = .ok window ∧
        rest = (assignOffsets base records).drop (offset - base).toNat ∧ window.records ≠ [] ∧
        (window.records <+: rest ∨ rest <+: window.records)) ∨
      (logAt config history key k').fetchWithIsolation offset maxRecords maxBytes readCommitted =
        .error .offsetOutOfRange ∧ config.partitionMaxBytes ≠ none := by
  have hwf := logAt_wellFormed config history key k'
  unfold PartitionLog.fetchWithIsolation
  rw [PartitionLog.fetchInner_eq hwf]
  simp only
  rcases happended.kept hlater with ⟨batch, hb, hbase, hrecords, htransaction⟩ | hdropped
  · -- the batch is there, and the window starts inside it
    left
    have hbounds := hwf.mem_bounds hb
    rw [StoredBatch.endOffset, hbase, hrecords, length_assignOffsets] at hbounds
    rw [if_pos ⟨hbounds.1.trans hlow, by omega⟩]
    have hshow : batch.hiddenFrom readCommitted = false := by
      unfold StoredBatch.hiddenFrom
      rcases hreader with hnone | hall
      · rw [htransaction, hnone]
        simp
      · rw [hall]
        rfl
    obtain ⟨later, hvisible⟩ := visible_from hwf hb hshow (hbase ▸ hlow)
    rw [hbase, hrecords] at hvisible
    refine ⟨_, _, rfl, rfl, ?_, ?_⟩
    · have hne : (assignOffsets base records).drop (offset - base).toNat ≠ [] := by
        rw [Ne, List.drop_eq_nil_iff, length_assignOffsets]
        omega
      intro hnil
      have hhead := @head?_takeWithin _ recordSize maxRecords maxBytes
        ((logAt config history key k').visible readCommitted offset) hmax
      simp only at hnil
      rw [hnil, hvisible, List.head?_nil, eq_comm, List.head?_eq_none_iff] at hhead
      exact hne (List.append_eq_nil_iff.mp hhead).1
    · refine List.prefix_or_prefix_of_prefix (takeWithin_prefix_of _) ?_
      rw [hvisible]
      exact List.prefix_append _ _
  · -- the offset was dropped, so there is a budget
    right
    rw [if_neg (fun hin => absurd hin.1 (by omega))]
    refine ⟨rfl, fun hnone => ?_⟩
    obtain ⟨ops, hops⟩ := logAt_eq_run config history key k'
    rw [hops, hnone, startOffset_run_unlimited] at hdropped
    obtain ⟨-, hnext, -⟩ :=
      PartitionLog.appendBatch_ok (logAt_wellFormed config history key k)
        (congrArg Prod.snd happended)
    have hnonneg := (logAt_wellFormed config history key k).nonneg
    have hle := (logAt_wellFormed config history key k).startOffset_le
    omega

/-- **Acknowledged records are read.** A fetch invoked after an append was acknowledged, from an
offset of it, returns the appended records from that offset on, as many as its budgets allow and at
least one. The only other answer is that retention, if there is any, has dropped the offset. A
transactional append is meant for readers of everything here. -/
theorem read_your_writes (h : Runs (system broker config) (startShards n) history net) {t' : T}
    {base offset : Int} {key : TopicPartition} {records : List RecordData}
    {transaction : Option Int} {maxRecords maxBytes i' j' : ℕ} {readCommitted : Bool}
    {result : Except BrokerError Answer} (hran : Ran history t call (.ok (.offset base)) i j)
    (hcall : call.appends = some (key, records, transaction))
    (hran' : Ran history t' (.fetchWithIsolation key.topic key.partition offset maxRecords maxBytes
      readCommitted) result i' j') (hbefore : j < i') (hanswered : Answered result)
    (hlow : base ≤ offset) (hhigh : offset < base + records.length) (hmax : 0 < maxRecords)
    (hreader : transaction = none ∨ readCommitted = false) :
    (∃ window rest, result = .ok (.window window) ∧
        rest = (assignOffsets base records).drop (offset - base).toNat ∧ window.records ≠ [] ∧
        (window.records <+: rest ∨ rest <+: window.records)) ∨
      result = .error (.core .offsetOutOfRange) ∧ config.partitionMaxBytes ≠ none := by
  obtain ⟨hcheck, base', k, hbase', -, hkj, happended⟩ := hran.appended h hcall
  cases hbase'
  obtain ⟨k', hik', -, -, hresult⟩ := hran'.fetched h hanswered
  rw [hcheck] at hresult
  change _ = (((logAt config history key k').fetchWithIsolation offset maxRecords maxBytes
    readCommitted).mapError BrokerError.core).map Answer.window at hresult
  have hlater : k < k' := by omega
  rcases happended.fetched maxBytes hlater hlow hhigh hmax hreader with
    ⟨window, rest, hfetch, hrest⟩ | ⟨hfetch, hlimit⟩
  · exact Or.inl ⟨window, rest, by rw [hresult, hfetch]; rfl, hrest⟩
  · exact Or.inr ⟨by rw [hresult, hfetch]; rfl, hlimit⟩

end Runs

/-- A record is written by one client, then read by another. -/
def writeThenRead : List (Label (Fin 2) (Fin 2) Call) := List.flatten
  [visit 0 (.produce [116] 0 [⟨5, none, some [107]⟩]) [1],
    visit 1 (.fetchWithIsolation [116] 0 0 10 4096 true) [1]]

/-- The two calls of `writeThenRead`, each with its interval. -/
def WroteThenRead (history : List (BrokerEvent (Fin 2) 2)) : Prop :=
  Ran history 0 (.produce [116] 0 [⟨5, none, some [107]⟩]) (.ok (.offset 0)) 0 7 ∧
    Ran history 1 (.fetchWithIsolation [116] 0 0 10 4096 true)
      (.ok (.window ⟨1, 1, [⟨0, 5, none, some [107]⟩]⟩)) 8 15

instance (history : List (BrokerEvent (Fin 2) 2)) : Decidable (WroteThenRead history) :=
  inferInstanceAs (Decidable (_ ∧ _))

theorem exists_writeThenRead :
    ∃ (history : List (BrokerEvent (Fin 2) 2)) (net : BrokerNet (Fin 2) 2),
      Runs (system oneTopicBroker oneTopic) (startShards 2) history net ∧
        WroteThenRead history :=
  exists_run (system oneTopicBroker oneTopic) (startShards 2) writeThenRead _ (by decide +kernel)

theorem reports_forward_writeThenRead :
    ∃ (history : List (BrokerEvent (Fin 2) 2)) (net : BrokerNet (Fin 2) 2),
      Runs (system oneTopicBroker oneTopic) (startShards 2) history net ∧
        WroteThenRead history ∧
        Report.after ⟨⟨[116], 0⟩, .watermark, 0, 0 + 1⟩ ≤
          Report.before ⟨⟨[116], 0⟩, .watermark, 1, 1⟩ := by
  obtain ⟨history, net, hrun, hwrote, hread⟩ := exists_writeThenRead
  exact ⟨history, net, hrun, ⟨hwrote, hread⟩,
    reports_forward hrun hwrote hread (by decide) List.mem_cons_self List.mem_cons_self rfl
      (by decide)⟩

theorem read_your_writes_writeThenRead :
    ∃ (history : List (BrokerEvent (Fin 2) 2)) (net : BrokerNet (Fin 2) 2),
      Runs (system oneTopicBroker oneTopic) (startShards 2) history net ∧
        WroteThenRead history ∧
        ∃ window rest, window = ⟨1, 1, [⟨0, 5, none, some [107]⟩]⟩ ∧
          rest = (assignOffsets 0 [⟨5, none, some [107]⟩]).drop 0 ∧
          (FetchWindow.records window <+: rest ∨ rest <+: FetchWindow.records window) := by
  obtain ⟨history, net, hrun, hwrote, hread⟩ := exists_writeThenRead
  refine ⟨history, net, hrun, ⟨hwrote, hread⟩, ?_⟩
  have happends : Call.appends (.produce [116] 0 [⟨5, none, some [107]⟩]) =
      some (⟨[116], 0⟩, [⟨5, none, some [107]⟩], none) := rfl
  rcases read_your_writes hrun hwrote happends hread (by decide) trivial (by decide) (by decide)
    (by decide) (Or.inl rfl) with ⟨window, rest, hwindow, hrest, -, hprefix⟩ | ⟨hout, -⟩
  · cases hwindow
    exact ⟨_, rest, rfl, hrest, hprefix⟩
  · cases hout

end CharlotteBroker.Runtime
