import CharlotteBroker.Runtime.System

/-!
# The sharded broker is one log per partition

For producers and readers of a partition, the broker with its shards, mailboxes and reply channels
is a single log on which every call acts at one moment between its invocation and its return.

* `Call.sequential` is the call on one log: which partition, what it does there and returns.
* `Linearized` says what a returned call did: acted once, at one moment, with that result; or not at
  all, if its mailbox was unavailable; or at most once, if its reply did not come in time.
* `linearizable`: every run of any number of clients, whatever else they call, is of that kind; logs
  live on their owners, acknowledged ranges are disjoint and keep the records they acknowledge.
-/

namespace CharlotteBroker.Runtime

open CharlotteBroker.Core Lib Lib.Rpc

variable {key : TopicPartition} {operate : PartitionLog → PartitionLog × Except BrokerError Answer}
  {records : List RecordData} {baseOffset : Int} {result : Except BrokerError Answer}

/-- The calls about one partition, on one log: which partition, the log they leave, the result. -/
def Call.sequential :
    Call → Option (TopicPartition × (PartitionLog → PartitionLog × Except BrokerError Answer))
  | .produce topic partition records =>
      some (⟨topic, partition⟩, fun log =>
        ((log.appendData records).1,
          ((log.appendData records).2.map Answer.offset).mapError BrokerError.core))
  | .fetchWithIsolation topic partition offset maxRecords maxBytes readCommitted =>
      some (⟨topic, partition⟩, fun log =>
        (log, ((log.fetchWithIsolation offset maxRecords maxBytes readCommitted).map
          Answer.window).mapError BrokerError.core))
  | .listOffset topic partition earliest =>
      some (⟨topic, partition⟩, fun log => (log, .ok (.offset (log.listOffset earliest))))
  | _ => none

variable {T : Type} {n : ℕ} [NeZero n] (config : ShardConfig)

/-- The call of `t` that ran from `i` to `j` had a command of its own applied at `k`. -/
def AppliedFor (history : List (BrokerEvent T n)) (t : T) (i j k : ℕ) : Prop :=
  ∃ p chan shard command result, i < p ∧ p < j ∧
    At history p (.opened t chan shard command) ∧
    At history k (.applied shard chan command result)

/-- What the call of `t` that ran from `i` to `j` did to the log of `key`, by its result. -/
def Linearized (history : List (BrokerEvent T n)) (t : T) (i j : ℕ) (key : TopicPartition)
    (operate : PartitionLog → PartitionLog × Except BrokerError Answer)
    (result : Except BrokerError Answer) : Prop :=
  let acted := ∃ k, i < k ∧ k < j ∧ AppliedFor history t i j k ∧
    (∀ k', AppliedFor history t i j k' → k' = k) ∧
    result = (operate ((viewAfter config (history.take k)).logs key)).2 ∧
    (viewAfter config (history.take (k + 1))).logs key =
      (operate ((viewAfter config (history.take k)).logs key)).1
  match result with
  | .ok _ => acted
  | .error (.core _) => acted
  | .error .mailboxUnavailable => ∀ k, ¬ AppliedFor history t i j k
  | .error .replyTimeout => ∀ k k', AppliedFor history t i j k → AppliedFor history t i j k' → k = k'
  | .error _ => False

/-- A produce call on `key` returned at `j` with this base offset. -/
def Acknowledged (history : List (BrokerEvent T n)) (key : TopicPartition)
    (records : List RecordData) (baseOffset : Int) (j : ℕ) : Prop :=
  ∃ t, At history j
    (.returned t (.produce key.topic key.partition records) (.ok (.offset baseOffset)))

/-- The run is one of sequential logs, one for each partition. -/
structure Linearizable (history : List (BrokerEvent T n)) (net : BrokerNet T n) : Prop where
  refines : Refines config (shardsOf net) (viewAfter config history)
  linearized : ∀ j t call result key operate, At history j (.returned t call result) →
    call.sequential = some (key, operate) →
    config.catalog.checkPartition key.topic key.partition = .ok () →
    ∃ i < j, Spans history t call i j ∧ Linearized config history t i j key operate result
  disjoint : ∀ key records records' baseOffset baseOffset' j j',
    Acknowledged history key records baseOffset j →
    Acknowledged history key records' baseOffset' j' → j ≠ j' →
    baseOffset + records.length ≤ baseOffset' ∨ baseOffset' + records'.length ≤ baseOffset
  holds : ∀ key records baseOffset j, Acknowledged history key records baseOffset j →
    let log := (shardsOf net (shardIndex n key)).log config key
    log.between baseOffset (baseOffset + records.length) = assignOffsets baseOffset records ∨
      baseOffset + records.length ≤ log.startOffset

/-! ## The programs of the calls -/

/-- A result of the log itself: success or a log error. -/
def Settled : Except BrokerError Answer → Prop
  | .ok _ => True
  | .error (.core _) => True
  | _ => False

/-- What a call about one partition sends, and what it makes of the reply. -/
structure OneCommand (catalog : TopicCatalog) (call : Call) (key : TopicPartition)
    (operate : PartitionLog → PartitionLog × Except BrokerError Answer) where
  command : PartitionCommand
  onShard : PartitionLog → PartitionLog × PartitionResult
  finish : Except BrokerError PartitionResult → Except BrokerError Answer
  onLog : command.onLog = some (key, onShard)
  program : (call.program (n := n) catalog).run =
    .call (shardIndex n key) command fun reply => .ret (finish (reply.mapError faultError))
  finish_error : ∀ error, finish (.error error) = .error error
  finish_ok : ∀ log, finish (.ok (onShard log).2) = (operate log).2
  log_eq : ∀ log, (onShard log).1 = (operate log).1
  settled : ∀ log, Settled (operate log).2

/-- What a call makes of a shard's result; faults are passed on. -/
def finishWith (settle : PartitionResult → Except BrokerError Answer) :
    Except BrokerError PartitionResult → Except BrokerError Answer
  | .ok result => settle result
  | .error error => .error error

/-- What a produce makes of the shard's result. -/
def settleProduced : PartitionResult → Except BrokerError Answer
  | .produced baseOffset => .ok (.offset baseOffset)
  | .failed error => .error (.core error)
  | _ => .error .unexpectedReply

/-- What a fetch makes of the shard's result. -/
def settleFetched : PartitionResult → Except BrokerError Answer
  | .fetched window => .ok (.window window)
  | .failed error => .error (.core error)
  | _ => .error .unexpectedReply

/-- What a question for an offset makes of the shard's result. -/
def settleOffset : PartitionResult → Except BrokerError Answer
  | .offset offset => .ok (.offset offset)
  | .failed error => .error (.core error)
  | _ => .error .unexpectedReply

/-- A catalog check that passes, one command to the owner, and a look at the answer. -/
theorem run_checkedCall {α : Type} (topic : Bytes) (partition : Int) (command : PartitionCommand)
    {next : PartitionResult → BrokerM n α} {f : α → Answer}
    {settle : PartitionResult → Except BrokerError Answer}
    (hnext : ∀ result, (f <$> next result).run = .ret (settle result)) :
    (f <$> (checked (.ok ()) >>= fun _ => call topic partition command >>= next)).run =
      .call (shardIndex n ⟨topic, partition⟩) command fun reply =>
        .ret (finishWith settle (reply.mapError faultError)) := by
  refine congrArg (Prog.call _ _) (funext fun reply => ?_)
  rcases reply with fault | result
  · rfl
  · exact hnext result

theorem program_sequential {catalog : TopicCatalog} {call : Call}
    (h : call.sequential = some (key, operate))
    (hcheck : catalog.checkPartition key.topic key.partition = .ok ()) :
    Nonempty (OneCommand (n := n) catalog call key operate) := by
  cases call <;> cases h
  case produce topic partition records =>
    refine ⟨.produce topic partition records, _, finishWith settleProduced, rfl, ?_, fun _ => rfl,
      ?_, fun _ => rfl, ?_⟩
    · simp only [Call.program, produce, hcheck]
      refine run_checkedCall topic partition _ fun result => ?_
      cases result <;> rfl
    · intro log
      rcases log.appendData records with ⟨log', _ | _⟩ <;> rfl
    · intro log
      rcases log.appendData records with ⟨log', _ | _⟩ <;> trivial
  case fetchWithIsolation topic partition offset maxRecords maxBytes readCommitted =>
    refine ⟨.fetch topic partition offset maxRecords maxBytes readCommitted, _,
      finishWith settleFetched, rfl, ?_, fun _ => rfl, ?_, fun _ => rfl, ?_⟩
    · simp only [Call.program, fetchWithIsolation, hcheck]
      refine run_checkedCall topic partition _ fun result => ?_
      cases result <;> rfl
    · intro log
      rcases log.fetchWithIsolation offset maxRecords maxBytes readCommitted with _ | _ <;> rfl
    · intro log
      rcases log.fetchWithIsolation offset maxRecords maxBytes readCommitted with _ | _ <;> trivial
  case listOffset topic partition earliest =>
    refine ⟨.listOffset topic partition earliest, _, finishWith settleOffset, rfl, ?_, fun _ => rfl,
      fun _ => rfl, fun _ => rfl, fun _ => trivial⟩
    simp only [Call.program, listOffset, hcheck]
    refine run_checkedCall topic partition _ fun result => ?_
    cases result <;> rfl

/-! ## What a returned call did -/

section Runs

variable {config} {broker : BrokerConfig} [DecidableEq T] {history : List (BrokerEvent T n)}
  {net : BrokerNet T n}

/-- A call with one command goes through one exchange. -/
theorem follows_oneCommand {catalog : TopicCatalog} {call : Call}
    (one : OneCommand (n := n) catalog call key operate)
    {exchanges : List (Exchange (Fin n) PartitionCommand PartitionResult)}
    (h : (call.program catalog).run.Follows exchanges (.ret result)) :
    ∃ chan reply, exchanges = [⟨chan, shardIndex n key, one.command, reply⟩] ∧
      result = one.finish (reply.mapError faultError) := by
  rw [one.program] at h
  rcases exchanges with _ | ⟨⟨chan, shard, command, reply⟩, rest⟩
  · rw [Prog.follows_nil] at h
    cases h
  · obtain ⟨hshard, hcommand, hrest⟩ := h
    simp only at hshard hcommand
    subst hshard hcommand
    rw [Prog.follows_ret] at hrest
    obtain ⟨rfl, hret⟩ := hrest
    exact ⟨chan, reply, rfl, Prog.ret.inj hret⟩

variable (h : Runs (system broker config) (startShards n) history net)
include h

/-- **What an applied command about one partition did**: it operated on the one log there is. -/
theorem applied_onLog {k : ℕ} {shard : Fin n} {chan : ℕ} {command : PartitionCommand}
    {result : PartitionResult} (hk : At history k (.applied shard chan command result))
    {onShard : PartitionLog → PartitionLog × PartitionResult}
    (hlog : command.onLog = some (key, onShard))
    (hcheck : config.catalog.checkPartition key.topic key.partition = .ok ()) :
    result = (onShard ((viewAfter config (history.take k)).logs key)).2 ∧
      (viewAfter config (history.take (k + 1))).logs key =
        (onShard ((viewAfter config (history.take k)).logs key)).1 := by
  rw [hk.take_succ, viewAfter_snoc, viewStep, applied_answer h hk,
    View.serve_onLog config _ shard hlog, View.withLog_ok config _ hcheck]
  exact ⟨rfl, Function.update_self ..⟩

/-- **A returned call is linearized.** -/
theorem returned_linearized {j : ℕ} {t : T} {call : Call}
    (hat : At history j (.returned t call result)) (hseq : call.sequential = some (key, operate))
    (hcheck : config.catalog.checkPartition key.topic key.partition = .ok ()) :
    ∃ i < j, Spans history t call i j ∧ Linearized config history t i j key operate result := by
  obtain ⟨one⟩ := program_sequential (n := n) hseq hcheck
  obtain ⟨i, exchanges, hspans, hfollows, hexplained, hcomplete⟩ := returned_by h hat
  obtain ⟨chan, reply, rfl, hresult⟩ := follows_oneCommand one hfollows
  refine ⟨i, hexplained.lt, hspans, ?_⟩
  obtain ⟨p, k, hip, hpk, hopened, htold, hrest⟩ := hexplained
  have hkj : k < j := hrest
  -- the call opened this one channel only
  have hchan : ∀ k', AppliedFor history t i j k' →
      ∃ shard command answer, At history k' (.applied shard chan command answer) := by
    rintro k' ⟨p', chan', shard, command, answer, hip', hpj', hopened', happlied⟩
    obtain ⟨e, he, rfl⟩ := hcomplete p' chan' shard command hip' hpj' hopened'
    rw [List.mem_singleton] at he
    subst he
    exact ⟨shard, command, answer, happlied⟩
  rcases reply with (_ | _) | answer
  · -- the sender gave up
    rw [hresult]
    simp only [Except.mapError, faultError, one.finish_error, Linearized]
    intro k' hk'
    obtain ⟨shard, command, answer, happlied⟩ := hchan k' hk'
    exact htold k' shard command answer happlied
  · -- the reply did not come in time
    rw [hresult]
    simp only [Except.mapError, faultError, one.finish_error, Linearized]
    intro k₁ k₂ hk₁ hk₂
    obtain ⟨_, _, _, happlied₁⟩ := hchan k₁ hk₁
    obtain ⟨_, _, _, happlied₂⟩ := hchan k₂ hk₂
    exact h.applied_once happlied₁ happlied₂
  · -- the command was applied, at `k`
    have happlied : At history k (.applied (shardIndex n key) chan one.command answer) := htold
    obtain ⟨hanswer, hlog⟩ := applied_onLog h happlied one.onLog hcheck
    have hlin : result = (operate ((viewAfter config (history.take k)).logs key)).2 := by
      rw [hresult, ← one.finish_ok, ← hanswer]
      rfl
    have hacted : i < k ∧ k < j ∧ AppliedFor history t i j k ∧
        (∀ k', AppliedFor history t i j k' → k' = k) ∧
        result = (operate ((viewAfter config (history.take k)).logs key)).2 ∧
        (viewAfter config (history.take (k + 1))).logs key =
          (operate ((viewAfter config (history.take k)).logs key)).1 := by
      refine ⟨by omega, hkj, ⟨p, chan, _, _, answer, hip, by omega, hopened, happlied⟩, ?_, hlin,
        by rw [hlog, one.log_eq]⟩
      intro k' hk'
      obtain ⟨_, _, _, happlied'⟩ := hchan k' hk'
      exact h.applied_once happlied' happlied
    have hsettled := one.settled ((viewAfter config (history.take k)).logs key)
    rw [← hlin] at hsettled
    unfold Linearized
    rcases result with (_ | _ | _ | _ | _ | _) | _
    all_goals first | exact hsettled.elim | exact ⟨k, hacted⟩

/-! ## Acknowledged ranges -/

/-- A successful produce passed the caller's catalog check. -/
theorem checkPartition_of_acknowledged {j : ℕ}
    (hack : Acknowledged history key records baseOffset j) :
    config.catalog.checkPartition key.topic key.partition = .ok () := by
  obtain ⟨t, hat⟩ := hack
  rcases hcheck : config.catalog.checkPartition key.topic key.partition with error | ⟨⟩
  · obtain ⟨i, exchanges, -, hfollows, -⟩ := returned_by h hat
    have hprogram : ((Call.produce key.topic key.partition records).program (n := n)
        config.catalog).run = .ret (.error (.core error)) := by
      simp only [Call.program, produce, hcheck]
      rfl
    rw [hprogram, Prog.follows_ret] at hfollows
    cases hfollows.2
  · rfl

/-- An acknowledged produce was appended at one moment between its invocation and its return. -/
theorem acknowledged_appended {j : ℕ} (hack : Acknowledged history key records baseOffset j) :
    ∃ t i k, i < k ∧ k < j ∧ Spans history t (.produce key.topic key.partition records) i j ∧
      (∃ result, At history j (.returned t (.produce key.topic key.partition records) result)) ∧
      AppliedFor history t i j k ∧
      ((viewAfter config (history.take k)).logs key).appendData records =
        ((viewAfter config (history.take (k + 1))).logs key, .ok baseOffset) := by
  have hcheck := checkPartition_of_acknowledged h hack
  obtain ⟨t, hat⟩ := hack
  obtain ⟨i, -, hspans, k, hik, hkj, happlied, -, hresult, hlog⟩ :=
    returned_linearized h hat rfl hcheck
  refine ⟨t, i, k, hik, hkj, hspans, ⟨_, hat⟩, happlied, Prod.ext hlog.symm ?_⟩
  simp only at hresult
  rcases hdone : (((viewAfter config (history.take k)).logs key).appendData records).2
    with error | base
  · rw [hdone] at hresult
    cases hresult
  · rw [hdone] at hresult
    cases hresult
    rfl

/-- A command is applied for one call only. -/
theorem AppliedFor.eq {t t' : T} {call call' : Call} {i i' j j' k : ℕ}
    (hspans : Spans history t call i j) (hspans' : Spans history t' call' i' j')
    (hret : ∃ result, At history j (.returned t call result))
    (hret' : ∃ result, At history j' (.returned t' call' result))
    (happlied : AppliedFor history t i j k) (happlied' : AppliedFor history t' i' j' k) :
    j = j' := by
  obtain ⟨p, chan, shard, command, result, hip, hpj, hopened, hk⟩ := happlied
  obtain ⟨p', chan', shard', command', result', hip', hpj', hopened', hk'⟩ := happlied'
  obtain ⟨answer, hj⟩ := hret
  obtain ⟨answer', hj'⟩ := hret'
  cases hk.eq hk'
  obtain rfl := h.opened_once hopened hopened'
  cases hopened.eq hopened'
  -- the thread opened the channel in both calls, and neither can end inside the other
  rcases Nat.lt_trichotomy j j' with hlt | heq | hgt
  · exact absurd rfl (hspans'.2 j _ (by omega) hlt hj)
  · exact heq
  · exact absurd rfl (hspans.2 j' _ (by omega) hgt hj')

omit h

omit [DecidableEq T] in
/-- An append that comes later gets a later range. -/
theorem appended_le {records' : List RecordData} {baseOffset' : Int} {k k' : ℕ} (hlt : k < k')
    (happend : ((viewAfter config (history.take k)).logs key).appendData records =
      ((viewAfter config (history.take (k + 1))).logs key, .ok baseOffset))
    (happend' : ((viewAfter config (history.take k')).logs key).appendData records' =
      ((viewAfter config (history.take (k' + 1))).logs key, .ok baseOffset')) :
    baseOffset + records.length ≤ baseOffset' := by
  have hok := PartitionLog.appendBatch_ok (viewAfter_wellFormed config (history.take k) key)
    (congrArg Prod.snd happend)
  have hok' := PartitionLog.appendBatch_ok (viewAfter_wellFormed config (history.take k') key)
    (congrArg Prod.snd happend')
  obtain ⟨-, hbase, -, hnext⟩ := hok
  obtain ⟨-, hbase', -⟩ := hok'
  obtain ⟨ops, hops⟩ := viewAfter_logs_take config history key (i := k + 1) (j := k') hlt
  have hmono := nextOffset_le_run (viewAfter_wellFormed config (history.take (k + 1)) key) [] ops
  simp only [PartitionLog.run_nil, List.nil_append] at hmono
  rw [← hops, ← hbase'] at hmono
  have hnext' : ((viewAfter config (history.take (k + 1))).logs key).nextOffset =
      baseOffset + records.length := by
    rw [hbase, ← hnext]
    exact congrArg (fun appended => appended.1.nextOffset) happend.symm
  omega

omit [DecidableEq T] in
/-- The records of an append stay where they were put until retention drops them. -/
theorem appended_between {k : ℕ} (hk : k < history.length)
    (happend : ((viewAfter config (history.take k)).logs key).appendData records =
      ((viewAfter config (history.take (k + 1))).logs key, .ok baseOffset)) :
    ((viewAfter config history).logs key).between baseOffset (baseOffset + records.length) =
        assignOffsets baseOffset records ∨
      baseOffset + records.length ≤ ((viewAfter config history).logs key).startOffset := by
  have hok := PartitionLog.appendBatch_ok (viewAfter_wellFormed config (history.take k) key)
    (congrArg Prod.snd happend)
  obtain ⟨-, hbase, hmem, -⟩ := hok
  have hlog : (((viewAfter config (history.take k)).logs key).appendBatch records none
      .committed).1 = (viewAfter config (history.take (k + 1))).logs key :=
    congrArg Prod.fst happend
  rw [hlog] at hmem
  obtain ⟨ops, hops⟩ := viewAfter_logs_take config history key (i := k + 1) (j := history.length) hk
  rw [List.take_length] at hops
  have hend : (newBatch ((viewAfter config (history.take k)).logs key) records none
      .committed).endOffset = baseOffset + records.length := by
    rw [hbase, ← length_assignOffsets]
    rfl
  rcases mem_run_or_dropped (viewAfter_wellFormed config (history.take (k + 1)) key) ops hmem
    with ⟨kept, hkept, hkeptBase, hkeptRecords⟩ | hdropped
  · left
    have hkeptEnd : kept.endOffset = baseOffset + records.length := by
      rw [← hend]
      unfold StoredBatch.endOffset
      rw [hkeptBase, hkeptRecords]
    rw [← hops] at hkept
    have hbetween := (viewAfter_wellFormed config history key).between_batch hkept
    rw [hkeptEnd, hkeptBase, hkeptRecords] at hbetween
    subst hbase
    exact hbetween
  · right
    rwa [hend, ← hops] at hdropped

/-- **The sharded broker refines one sequential log per partition**, for any number of clients and
every interleaving. -/
theorem linearizable (h : Runs (system broker config) (startShards n) history net) :
    Linearizable config history net := by
  refine ⟨runs_refine h, fun j t call result key operate => returned_linearized h, ?_, ?_⟩
  · intro key records records' baseOffset baseOffset' j j' hack hack' hne
    obtain ⟨t, i, k, -, -, hspans, hret, happlied, happend⟩ := acknowledged_appended h hack
    obtain ⟨t', i', k', -, -, hspans', hret', happlied', happend'⟩ :=
      acknowledged_appended h hack'
    rcases Nat.lt_trichotomy k k' with hlt | rfl | hgt
    · exact Or.inl (appended_le hlt happend happend')
    · exact absurd (AppliedFor.eq h hspans hspans' hret hret' happlied happlied') hne
    · exact Or.inr (appended_le hgt happend' happend)
  · intro key records baseOffset j hack
    obtain ⟨t, i, k, -, hkj, -, ⟨result, hret⟩, -, happend⟩ := acknowledged_appended h hack
    have hlog : (shardsOf net (shardIndex n key)).log config key =
        (viewAfter config history).logs key :=
      congrArg (fun view => view.logs key) (runs_refine h).2
    simp only [hlog]
    exact appended_between (Nat.lt_trans hkj hret.lt) happend

end Runs

/-- A call returns successfully. -/
def succeeds {T : Type} {n : ℕ} : BrokerEvent T n → Bool
  | .returned _ _ (.ok _) => true
  | _ => false

/-- Two clients produce to one partition at once; the second reply is read first. -/
def twoProducers : List (Label (Fin 2) (Fin 2) Call) :=
  let call := Call.produce [116] 0 [⟨0, none, none⟩]
  [.invoke 0 call, .invoke 1 call, .openChan 0, .openChan 1, .send 0, .send 1, .take 1, .apply 1,
    .answer 1, .take 1, .apply 1, .answer 1, .receive 1, .finish 1, .receive 0, .finish 0]

theorem linearizable_twoProducers :
    ∃ (history : List (BrokerEvent (Fin 2) 2)) (net : BrokerNet (Fin 2) 2),
      Runs (system oneTopicBroker oneTopic) (startShards 2) history net ∧
        history.countP succeeds = 2 ∧
        Linearizable oneTopic history net := by
  obtain ⟨history, net, hrun, hcheck⟩ :=
    exists_run (system oneTopicBroker oneTopic) (startShards 2) twoProducers
      (fun history _ => history.countP succeeds = 2) (by decide +kernel)
  exact ⟨history, net, hrun, hcheck, linearizable hrun⟩

end CharlotteBroker.Runtime
