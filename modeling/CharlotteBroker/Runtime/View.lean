import CharlotteBroker.Core.LogInvariant
import CharlotteBroker.Lib.OrderedMap
import CharlotteBroker.Runtime.Broker

/-!
# The broker without shards

What the sharded broker is for: one coordinator and one log per partition (`View`). A command at
a shard acts on the view (`View.serve`), a resolution on the logs that shard owns.

* `viewOf_serve`, `serve_refines`: on commands that go where the broker sends them (`Routed`), a
  shard step is a view step with the same answer, and a log only ever lives on the shard that owns
  it.
* `program_sends`: every call sends its own commands only, and sends them there.
* `perform_refines`: so a sequential call on the shards is the call on the view (`viewOf_perform`
  from any shards).
-/

namespace CharlotteBroker.Runtime

open Std CharlotteBroker.Core Lib

variable {α : Type} {command : PartitionCommand}

/-- The state of the broker with the shards taken away. -/
@[ext]
structure View where
  transactions : TransactionCoordinator
  groups : GroupCoordinator
  logs : TopicPartition → PartitionLog

variable {n : ℕ} [NeZero n] (config : ShardConfig)

/-- The view of a broker's shards: coordination from shard zero, each log from its owner. -/
def viewOf (shards : Fin n → Shard) : View where
  transactions := (shards 0).transactions
  groups := (shards 0).groups
  logs key := (shards (shardIndex n key)).log config key

/-- A broker that has just started. -/
def View.start : View := ⟨.new, .new, fun _ => newLog config.partitionMaxBytes⟩

/-- One command about one partition. -/
def View.withLog (view : View) (key : TopicPartition)
    (operate : PartitionLog → PartitionLog × PartitionResult) : View × PartitionResult :=
  match config.catalog.checkPartition key.topic key.partition with
  | .error error => (view, .failed error)
  | .ok () =>
      ({ view with logs := Function.update view.logs key (operate (view.logs key)).1 },
        (operate (view.logs key)).2)

/-- The shard owns the partition. -/
def Owns (shard : Fin n) (key : TopicPartition) : Prop := shardIndex n key = shard

open Classical in
/-- The logs after a resolution at `shard`. -/
noncomputable def View.resolve (view : View) (shard : Fin n) (producerId : Int) (commit : Bool) :
    View :=
  { view with
    logs := fun key =>
      if Owns shard key then (view.logs key).commitTransaction producerId commit
      else view.logs key }

/-- What one command at one shard does to the view, and its answer. -/
noncomputable def View.serve (view : View) (shard : Fin n) (command : PartitionCommand) :
    View × PartitionResult :=
  match command.onLog with
  | some (key, operate) => view.withLog config key operate
  | none =>
      match command with
      | .coordinate request =>
          let (coordinators, result) := coordinate view.transactions view.groups request
          ({ view with transactions := coordinators.1, groups := coordinators.2 },
            .coordination result)
      | .resolveTransaction producerId commit =>
          (view.resolve shard producerId commit, .resolved)
      | _ => (view, .stopped)

/-- A method run on the view. -/
noncomputable def View.run {α : Type} (view : View) (program : BrokerM n α) :
    View × Except BrokerError α :=
  Prog.run (fun view (shard : Fin n) => View.serve config view shard) view program

/-- A call made on the view. -/
noncomputable def View.perform (n : ℕ) [NeZero n] (view : View) (call : Call) :
    View × Except BrokerError Answer :=
  view.run config (call.program (n := n) config.catalog)

/-! ## Refinement -/

/-- The command goes to the shard the broker sends it to. -/
def Routed (shard : Fin n) : PartitionCommand → Prop
  | .coordinate _ => shard = 0
  | .produce topic partition _ => shard = shardIndex n ⟨topic, partition⟩
  | .produceTransactional topic partition _ _ => shard = shardIndex n ⟨topic, partition⟩
  | .fetch topic partition _ _ _ _ => shard = shardIndex n ⟨topic, partition⟩
  | .listOffset topic partition _ => shard = shardIndex n ⟨topic, partition⟩
  | .resolveTransaction _ _ => True
  | .shutdown => False

/-- Logs live on the shards that own them. -/
def Located (shards : Fin n → Shard) : Prop :=
  ∀ shard key log, (shards shard).logs[key]? = some log → shard = shardIndex n key

/-- The shards show this view. -/
def Refines (shards : Fin n → Shard) (view : View) : Prop :=
  Located shards ∧ viewOf config shards = view

theorem Routed.eq_shardIndex {shard : Fin n} {key : TopicPartition}
    {operate : PartitionLog → PartitionLog × PartitionResult} (h : Routed shard command)
    (hlog : command.onLog = some (key, operate)) : shard = shardIndex n key := by
  cases command <;> cases hlog <;> exact h

omit [NeZero n] in
@[simp] theorem log_insert (shard : Shard) (key key' : TopicPartition) (log : PartitionLog) :
    Shard.log config { shard with logs := shard.logs.insert key log } key' =
      if key' = key then log else shard.log config key' := by
  unfold Shard.log
  rw [getElem?_insert_eq_ite]
  split <;> rfl

theorem newLog_commitTransaction (partitionMaxBytes : Option ℕ) (producerId : Int)
    (commit : Bool) :
    (newLog partitionMaxBytes).commitTransaction producerId commit = newLog partitionMaxBytes := by
  cases partitionMaxBytes <;> rfl

/-- Resolving every stored log resolves the log of every partition: one not yet created has
nothing to resolve. -/
theorem log_map_commitTransaction (shard : Shard) (key : TopicPartition) (producerId : Int)
    (commit : Bool) :
    Shard.log config
      { shard with logs := shard.logs.map fun _ log => log.commitTransaction producerId commit }
      key = (shard.log config key).commitTransaction producerId commit := by
  unfold Shard.log
  rw [ExtTreeMap.getElem?_map]
  cases shard.logs[key]? with
  | none => exact (newLog_commitTransaction _ _ _).symm
  | some log => rfl

/-- Replacing the logs of one shard changes the view's logs only. -/
theorem viewOf_update_logs (shards : Fin n → Shard) (shard : Fin n)
    (logs : ExtTreeMap TopicPartition PartitionLog) :
    viewOf config (Function.update shards shard { shards shard with logs := logs }) =
      { viewOf config shards with
        logs := fun key =>
          if shardIndex n key = shard then Shard.log config { shards shard with logs := logs } key
          else (shards (shardIndex n key)).log config key } := by
  refine View.ext ?_ ?_ (funext fun key => ?_)
  · show (Function.update shards shard _ 0).transactions = (shards 0).transactions
    rcases eq_or_ne 0 shard with rfl | hne
    · rw [Function.update_self]
    · rw [Function.update_of_ne hne]
  · show (Function.update shards shard _ 0).groups = (shards 0).groups
    rcases eq_or_ne 0 shard with rfl | hne
    · rw [Function.update_self]
    · rw [Function.update_of_ne hne]
  · show Shard.log config (Function.update shards shard _ (shardIndex n key)) key = _
    rcases eq_or_ne (shardIndex n key) shard with heq | hne
    · rw [heq, Function.update_self]
      exact (if_pos heq).symm
    · rw [Function.update_of_ne hne]
      exact (if_neg hne).symm

/-- Logs stay where they belong if the replaced shard got no log it does not own. -/
theorem Located.update {shards : Fin n → Shard} (h : Located shards) {shard : Fin n}
    {shard' : Shard}
    (hnew : ∀ key log, shard'.logs[key]? = some log →
      shard = shardIndex n key ∨ ∃ old, (shards shard).logs[key]? = some old) :
    Located (Function.update shards shard shard') := by
  intro i key log hget
  rcases eq_or_ne i shard with rfl | hne
  · rw [Function.update_self] at hget
    rcases hnew key log hget with heq | ⟨old, hold⟩
    · exact heq
    · exact h i key old hold
  · rw [Function.update_of_ne hne] at hget
    exact h i key log hget

/-- The commands about one partition, shard by view. -/
theorem viewOf_withLog (shards : Fin n → Shard) {shard : Fin n} {key : TopicPartition}
    (hroute : shard = shardIndex n key)
    (operate : PartitionLog → PartitionLog × PartitionResult) :
    let handled := (shards shard).withLog config key operate
    let served := (viewOf config shards).withLog config key operate
    viewOf config (Function.update shards shard handled.1) = served.1 ∧ handled.2 = served.2 := by
  unfold Shard.withLog View.withLog
  rcases config.catalog.checkPartition key.topic key.partition with error | ⟨⟩
  · simp only [Function.update_eq_self, and_self]
  · have hlog : (viewOf config shards).logs key = (shards shard).log config key := by
      rw [hroute]
      rfl
    simp only [hlog, and_true]
    rw [viewOf_update_logs]
    refine View.ext rfl rfl (funext fun key' => ?_)
    simp only [log_insert]
    rcases eq_or_ne key' key with rfl | hne
    · rw [if_pos hroute.symm, if_pos rfl, Function.update_self]
    · rw [if_neg hne, Function.update_of_ne hne]
      split
      · next heq =>
          rw [← heq]
          rfl
      · rfl

/-- **One shard step is one view step**, wherever else logs may lie. -/
theorem viewOf_serve (shards : Fin n → Shard) {shard : Fin n} (hroute : Routed shard command) :
    viewOf config (serve config shards shard command).1 =
        ((viewOf config shards).serve config shard command).1 ∧
      (serve config shards shard command).2 =
        ((viewOf config shards).serve config shard command).2 := by
  unfold serve View.serve
  rcases hlog : command.onLog with _ | ⟨key, operate⟩
  · cases command with
    | coordinate request =>
        cases hroute
        refine ⟨View.ext ?_ ?_ (funext fun key => ?_), rfl⟩
        · show (Function.update shards 0 _ 0).transactions = _
          rw [Function.update_self]
          rfl
        · show (Function.update shards 0 _ 0).groups = _
          rw [Function.update_self]
          rfl
        · show Shard.log config (Function.update shards 0 _ (shardIndex n key)) key =
            Shard.log config (shards (shardIndex n key)) key
          rcases eq_or_ne (shardIndex n key) 0 with heq | hne
          · rw [heq, Function.update_self]
            rfl
          · rw [Function.update_of_ne hne]
    | resolveTransaction producerId commit =>
        refine ⟨?_, rfl⟩
        simp only [Shard.handle]
        rw [viewOf_update_logs]
        refine View.ext rfl rfl (funext fun key => ?_)
        simp only [log_map_commitTransaction, View.resolve]
        rcases eq_or_ne (shardIndex n key) shard with heq | hne
        · have howns : Owns shard key := heq
          rw [if_pos heq, if_pos howns, ← heq]
          rfl
        · have howns : ¬ Owns shard key := hne
          rw [if_neg hne, if_neg howns]
          rfl
    | shutdown => exact hroute.elim
    | _ => cases hlog
  · simp only [Shard.handle_onLog config _ hlog]
    exact viewOf_withLog config shards (hroute.eq_shardIndex hlog) operate

/-- Logs stay where they belong. -/
theorem Located.serve {shards : Fin n → Shard} (h : Located shards) {shard : Fin n}
    (hroute : Routed shard command) :
    Located (serve config shards shard command).1 := by
  refine h.update fun key log hget => ?_
  rcases hlog : command.onLog with _ | ⟨key', operate⟩
  · cases command with
    | coordinate request => exact Or.inr ⟨log, hget⟩
    | resolveTransaction producerId commit =>
        simp only [Shard.handle] at hget
        rw [ExtTreeMap.getElem?_map, Option.map_eq_some_iff] at hget
        obtain ⟨old, hold, -⟩ := hget
        exact Or.inr ⟨old, hold⟩
    | shutdown => exact hroute.elim
    | _ => cases hlog
  · rw [Shard.handle_onLog config _ hlog] at hget
    unfold Shard.withLog at hget
    rcases hcheck : config.catalog.checkPartition key'.topic key'.partition with error | ⟨⟩
    · rw [hcheck] at hget
      exact Or.inr ⟨log, hget⟩
    · rw [hcheck] at hget
      simp only [getElem?_insert_eq_ite] at hget
      split at hget
      · next heq => exact Or.inl (heq ▸ hroute.eq_shardIndex hlog)
      · exact Or.inr ⟨log, hget⟩

/-- One shard step keeps the refinement. -/
theorem serve_refines {shards : Fin n → Shard} {view : View} (h : Refines config shards view)
    {shard : Fin n} (hroute : Routed shard command) :
    Refines config (serve config shards shard command).1 (view.serve config shard command).1 ∧
      (serve config shards shard command).2 = (view.serve config shard command).2 := by
  obtain ⟨hloc, rfl⟩ := h
  obtain ⟨hview, hresult⟩ := viewOf_serve config shards hroute
  exact ⟨⟨hloc.serve config hroute, hview⟩, hresult⟩

/-! ## What the calls send, and where -/

/-- The request a call makes of the coordinators, when that is all it does. -/
def Call.request (catalog : TopicCatalog) : Call → Option CoordinationRequest
  | .initProducer transactionalId => some (.initProducer transactionalId)
  | .addTransactionPartition transactionalId producer topic partition =>
      some (.addPartition transactionalId producer topic partition)
  | .validateTransactionalProduce transactionalId producer topic partition =>
      some (.validateProduce transactionalId producer topic partition)
  | .addTransactionOffset transactionalId producer offset =>
      some (.addOffset transactionalId producer offset)
  | .joinGroup groupId memberId subscriptions =>
      some (.joinGroup groupId memberId subscriptions (catalogPartitions catalog))
  | .heartbeatGroup groupId memberId generation => some (.heartbeat groupId memberId generation)
  | .leaveGroup groupId memberId generation => some (.leaveGroup groupId memberId generation)
  | .leaveGroupAny groupId memberId => some (.leaveGroupAny groupId memberId)
  | .commitGroupOffset groupId generation topic partition offset =>
      some (.commitOffset groupId generation topic partition offset)
  | .groupOffset groupId topic partition => some (.fetchOffset groupId topic partition)
  | _ => none

/-- The commands a call may send, and the shards it sends them to. -/
def Call.Sends (catalog : TopicCatalog) (call : Call) (shard : Fin n)
    (command : PartitionCommand) : Prop :=
  match call with
  | .produce topic partition records =>
      shard = shardIndex n ⟨topic, partition⟩ ∧ command = .produce topic partition records
  | .fetchWithIsolation topic partition offset maxRecords maxBytes readCommitted =>
      shard = shardIndex n ⟨topic, partition⟩ ∧
        command = .fetch topic partition offset maxRecords maxBytes readCommitted
  | .listOffset topic partition earliest =>
      shard = shardIndex n ⟨topic, partition⟩ ∧ command = .listOffset topic partition earliest
  | .produceTransactional transactionalId producer topic partition records =>
      shard = 0 ∧
          command = .coordinate (.validateProduce transactionalId producer topic partition) ∨
        shard = shardIndex n ⟨topic, partition⟩ ∧
          command = .produceTransactional topic partition records producer.id
  | .endTransaction transactionalId producer commit =>
      shard = 0 ∧ command = .coordinate (.endTransaction transactionalId producer commit) ∨
        command = .resolveTransaction producer.id commit ∨
        commit = true ∧ shard = 0 ∧ ∃ groupId generation topic partition offset,
          command = .coordinate (.commitOffset groupId generation topic partition offset)
  | call =>
      shard = 0 ∧ ∃ request, call.request catalog = some request ∧ command = .coordinate request

/-- A call sends every command where the broker routes it. -/
theorem Call.Sends.routed {catalog : TopicCatalog} {call : Call} {shard : Fin n}
    (h : call.Sends catalog shard command) :
    Routed shard command := by
  cases call with
  | produce | fetchWithIsolation | listOffset =>
      obtain ⟨rfl, rfl⟩ := h
      exact rfl
  | produceTransactional =>
      rcases h with ⟨rfl, rfl⟩ | ⟨rfl, rfl⟩ <;> exact rfl
  | endTransaction =>
      rcases h with ⟨rfl, rfl⟩ | rfl | ⟨-, rfl, groupId, generation, topic, partition, offset, rfl⟩
      · exact rfl
      · trivial
      · exact rfl
  | _ =>
      obtain ⟨rfl, request, -, rfl⟩ := h
      exact rfl

/-- Every command of the method satisfies `P`. -/
abbrev Issues {α : Type} (P : Fin n → PartitionCommand → Prop) (program : BrokerM n α) : Prop :=
  Prog.Issues P (program.run)

section Issues

variable {P : Fin n → PartitionCommand → Prop}

omit [NeZero n] in
theorem Issues.bind {β : Type} {program : BrokerM n α} {next : α → BrokerM n β}
    (hprogram : Issues P program) (hnext : ∀ a, Issues P (next a)) :
    Issues P (program >>= next) := by
  unfold Issues
  rw [ExceptT.run_bind]
  refine Prog.Issues.bind hprogram fun result => ?_
  cases result with
  | ok a => exact hnext a
  | error error => trivial

omit [NeZero n] in
theorem Issues.map {β : Type} {program : BrokerM n α} (hprogram : Issues P program) (f : α → β) :
    Issues P (f <$> program) := by
  rw [map_eq_pure_bind]
  exact hprogram.bind fun _ => trivial

omit [NeZero n] in
theorem Issues.of_map {β : Type} {program : BrokerM n α} {f : α → β}
    (h : Issues P (f <$> program)) :
    Issues P program := by
  unfold Issues at h
  rw [ExceptT.run_map] at h
  exact Prog.Issues.of_map h

omit [NeZero n] in
theorem issues_callShard {shard : Fin n} (h : P shard command) :
    Issues P (callShard shard command) :=
  ⟨h, fun _ => trivial⟩

theorem issues_coordinateCall {request : CoordinationRequest} (h : P 0 (.coordinate request)) :
    Issues P (coordinateCall request) := by
  refine Issues.bind (issues_callShard h) fun result => ?_
  rcases result with _ | _ | _ | _ | (_ | _) | _ | _ <;> trivial

omit [NeZero n] in
theorem issues_applied (result : CoordinationResult) : Issues P (applied result) := by
  cases result <;> trivial

omit [NeZero n] in
theorem issues_checked (result : Except LogError Unit) : Issues P (checked result) := by
  rcases result with _ | _ <;> trivial

omit [NeZero n] in
theorem issues_producedOffset (result : PartitionResult) : Issues P (producedOffset result) := by
  cases result <;> trivial

theorem issues_resolvePartitions {producerId : Int} {commit : Bool}
    (h : ∀ shard, P shard (.resolveTransaction producerId commit))
    (partitions : List TopicPartition) :
    Issues P (resolvePartitions producerId commit partitions) := by
  induction partitions with
  | nil => trivial
  | cons key rest ih =>
      refine Issues.bind (issues_callShard (h _)) fun result => ?_
      cases result with
      | resolved => exact ih
      | _ => trivial

theorem issues_commitOffsets
    (h : ∀ groupId generation topic partition offset,
      P 0 (.coordinate (.commitOffset groupId generation topic partition offset)))
    (offsets : List TransactionOffset) : Issues P (commitOffsets offsets) := by
  induction offsets with
  | nil => trivial
  | cons offset rest ih =>
      exact ((issues_coordinateCall (h _ _ _ _ _)).bind issues_applied).bind fun _ => ih

/-- A catalog check, one command to the owner of a partition, and a look at the answer. -/
theorem issues_checkedCall {result : Except LogError Unit} {topic : Bytes} {partition : Int}
    {next : PartitionResult → BrokerM n α} (h : P (shardIndex n ⟨topic, partition⟩) command)
    (hnext : ∀ result, Issues P (next result)) :
    Issues P (checked result >>= fun _ => call topic partition command >>= next) :=
  (issues_checked _).bind fun _ => (issues_callShard h).bind hnext

end Issues

/-- **Every call sends its own commands only.** -/
theorem program_sends (catalog : TopicCatalog) (call : Call) :
    Issues (call.Sends (n := n) catalog) (call.program catalog) := by
  cases call with
  | produce topic partition records =>
      exact (issues_checkedCall ⟨rfl, rfl⟩ issues_producedOffset).map _
  | fetchWithIsolation topic partition offset maxRecords maxBytes readCommitted =>
      refine (issues_checkedCall ⟨rfl, rfl⟩ fun result => ?_).map _
      cases result <;> trivial
  | listOffset topic partition earliest =>
      refine (issues_checkedCall ⟨rfl, rfl⟩ fun result => ?_).map _
      cases result <;> trivial
  | initProducer transactionalId =>
      refine ((issues_coordinateCall ⟨rfl, _, rfl, rfl⟩).bind fun result => ?_).map _
      cases result <;> trivial
  | produceTransactional transactionalId producer topic partition records =>
      refine Issues.map ?_ _
      refine ((issues_coordinateCall (Or.inl ⟨rfl, rfl⟩)).bind issues_applied).bind fun _ => ?_
      exact issues_checkedCall (Or.inr ⟨rfl, rfl⟩) issues_producedOffset
  | endTransaction transactionalId producer commit =>
      refine ((issues_coordinateCall (Or.inl ⟨rfl, rfl⟩)).bind fun result => ?_).map _
      cases result with
      | transactionCompleted completion =>
          refine (issues_resolvePartitions (fun _ => Or.inr (Or.inl rfl)) _).bind fun _ => ?_
          cases commit with
          | false => trivial
          | true =>
              refine issues_commitOffsets (fun _ _ _ _ _ => ?_) _
              exact Or.inr (Or.inr ⟨rfl, rfl, _, _, _, _, _, rfl⟩)
      | _ => trivial
  | joinGroup groupId memberId subscriptions =>
      refine ((issues_coordinateCall ⟨rfl, _, rfl, rfl⟩).bind fun result => ?_).map _
      cases result <;> trivial
  | groupOffset groupId topic partition =>
      refine ((issues_coordinateCall ⟨rfl, _, rfl, rfl⟩).bind fun result => ?_).map _
      cases result <;> trivial
  | _ => exact ((issues_coordinateCall ⟨rfl, _, rfl, rfl⟩).bind issues_applied).map _

/-! ## Calls and runs -/

/-- **A sequential call on the shards is the call on the view.** -/
theorem perform_refines {shards : Fin n → Shard} {view : View} (h : Refines config shards view)
    (call : Call) :
    Refines config (perform config shards call).1 (view.perform config n call).1 ∧
      (perform config shards call).2 = (view.perform config n call).2 := by
  have hserve : ∀ (shards : Fin n → Shard) (view : View) (shard : Fin n)
      (command : PartitionCommand), Refines config shards view → Routed shard command →
        Refines config (serve config shards shard command).1
            (view.serve config shard command).1 ∧
          (serve config shards shard command).2 = (view.serve config shard command).2 :=
    fun _ _ _ _ hR hP => serve_refines config hR hP
  exact Prog.exec_simulates (R := Refines config) hserve
    ((program_sends config.catalog call).mono fun _ _ => Call.Sends.routed) h

/-- A sequential call on the shards is the call on their view, wherever else logs may lie. -/
theorem viewOf_perform (shards : Fin n → Shard) (call : Call) :
    viewOf config (perform config shards call).1 =
        ((viewOf config shards).perform config n call).1 ∧
      (perform config shards call).2 = ((viewOf config shards).perform config n call).2 := by
  refine Prog.exec_simulates (R := fun shards view => viewOf config shards = view) ?_
    ((program_sends config.catalog call).mono fun _ _ => Call.Sends.routed) rfl
  rintro shards _ shard command rfl hroute
  exact viewOf_serve config shards hroute

theorem refines_start : Refines config (startShards n) (View.start config) := by
  refine ⟨?_, rfl⟩
  intro shard key log hget
  simp [startShards, Shard.new] at hget

end CharlotteBroker.Runtime
