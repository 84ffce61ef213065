import CharlotteBroker.Runtime.View

/-!
# What each call does to the view

One equation per method of the broker, on the view: the coordination calls are the coordinator's
operation, `produceTransactional` is a validation followed by an append, and `endTransaction` is
the coordinator's step, then one resolution of every shard that owns an enlisted partition
(`View.resolveAll`), then the enlisted consumer offsets one by one (`commitAll`).

Proofs about sequential runs cite these equations and never unfold a program.
-/

namespace CharlotteBroker.Runtime

open Std CharlotteBroker.Core Lib

variable {n : ℕ} [NeZero n] (config : ShardConfig)

variable {α β : Type} {command : PartitionCommand} {key : TopicPartition}
  {operate : PartitionLog → PartitionLog × PartitionResult} {error : CoordinationError}

/-- The view after a coordination request. -/
def View.coordinated (view : View) (request : CoordinationRequest) : View :=
  { view with
    transactions := (coordinate view.transactions view.groups request).1.1
    groups := (coordinate view.transactions view.groups request).1.2 }

/-- What is left of a call once a statement of it has ended in `view` with `result`. -/
noncomputable def View.andThen {α β : Type} (view : View) (result : Except BrokerError α)
    (next : α → BrokerM n β) : View × Except BrokerError β :=
  Prog.andThen (fun view (shard : Fin n) => View.serve config view shard) view result next

@[simp] theorem View.andThen_ok (view : View) (a : α) (next : α → BrokerM n β) :
    view.andThen config (.ok a) next = view.run config (next a) := rfl

@[simp] theorem View.andThen_error (view : View) (error : BrokerError) (next : α → BrokerM n β) :
    view.andThen config (.error error) next = (view, .error error) := rfl

@[simp] theorem View.run_pure (view : View) (a : α) :
    view.run config (pure a : BrokerM n α) = (view, .ok a) := rfl

@[simp] theorem View.run_throw (view : View) (error : BrokerError) :
    view.run config (throw error : BrokerM n α) = (view, .error error) := rfl

variable {config} in
theorem View.run_bind {view view' : View} {program : BrokerM n α} {result : Except BrokerError α}
    (h : view.run config program = (view', result)) (next : α → BrokerM n β) :
    view.run config (program >>= next) = view'.andThen config result next :=
  Prog.run_bind h next

theorem run_callShard (view : View) (shard : Fin n) (command : PartitionCommand) :
    view.run config (callShard shard command) =
      ((view.serve config shard command).1, .ok (view.serve config shard command).2) := rfl

/-- A coordination call is the coordinators' own operation. -/
theorem run_coordinateCall (view : View) (request : CoordinationRequest) :
    view.run config (coordinateCall (n := n) request) =
      (view.coordinated request,
        (coordinate view.transactions view.groups request).2.mapError .coordination) := by
  unfold coordinateCall
  rw [View.run_bind (run_callShard config view 0 (.coordinate request))]
  have hserve : view.serve config (0 : Fin n) (.coordinate request) =
      (view.coordinated request,
        .coordination (coordinate view.transactions view.groups request).2) := rfl
  rw [hserve]
  rcases (coordinate view.transactions view.groups request).2 with error | result <;> rfl

theorem View.run_map (view : View) (program : BrokerM n α) (f : α → β) :
    view.run config (f <$> program) =
      ((view.run config program).1, (view.run config program).2.map f) := by
  rw [map_eq_pure_bind, View.run_bind (Prod.mk.eta (p := view.run config program)).symm]
  rcases (view.run config program).2 with error | a <;> rfl

/-- A call whose answer is read off the coordinators' result leaves the coordinators' state. -/
theorem run_coordinateCall_bind (view : View) (request : CoordinationRequest)
    (next : CoordinationResult → BrokerM n α)
    (hnext : ∀ result (view : View), (view.run config (next result)).1 = view) :
    (view.run config (coordinateCall request >>= next)).1 = view.coordinated request := by
  rw [View.run_bind (run_coordinateCall config view request)]
  rcases (coordinate view.transactions view.groups request).2 with error | result
  · rfl
  · exact hnext result _

/-! ## Calls that are one coordination request -/

/-- **Coordination calls.** The view afterwards is the coordinators' own doing. -/
theorem perform_request (view : View) {call : Call} {request : CoordinationRequest}
    (h : call.request config.catalog = some request) :
    (view.perform config n call).1 = view.coordinated request := by
  unfold View.perform
  cases call <;> cases h <;> rw [Call.program, View.run_map] <;>
    refine run_coordinateCall_bind config view _ _ fun result view => ?_ <;> cases result <;> rfl

theorem run_initProducer (view : View) (transactionalId : Bytes) :
    view.run config (initProducer (n := n) transactionalId) =
      ({ view with transactions := (view.transactions.init transactionalId).1 },
        (view.transactions.init transactionalId).2.mapError .coordination) := by
  unfold initProducer
  rw [View.run_bind (run_coordinateCall config view _)]
  show View.andThen config _ (Except.mapError _
    ((view.transactions.init transactionalId).2.map CoordinationResult.producer)) _ = _
  rcases (view.transactions.init transactionalId).2 with error | identity <;> rfl

theorem perform_initProducer (view : View) (transactionalId : Bytes) :
    view.perform config n (.initProducer transactionalId) =
      ({ view with transactions := (view.transactions.init transactionalId).1 },
        ((view.transactions.init transactionalId).2.mapError .coordination).map .identity) := by
  unfold View.perform
  rw [Call.program, View.run_map, run_initProducer]

/-- A coordination request that is only applied. -/
theorem run_coordinateCall_applied (view : View) {request : CoordinationRequest}
    {result : Except CoordinationError Unit}
    (h : (coordinate view.transactions view.groups request).2 = result.map fun _ => .applied) :
    view.run config (coordinateCall (n := n) request >>= applied) =
      (view.coordinated request, result.mapError .coordination) := by
  rw [View.run_bind (run_coordinateCall config view request), h]
  rcases result with error | ⟨⟩ <;> rfl

theorem run_addTransactionPartition (view : View) (transactionalId : Bytes)
    (producer : ProducerIdentity) (topic : Bytes) (partition : Int) :
    view.run config (addTransactionPartition (n := n) transactionalId producer topic partition) =
      ({ view with
          transactions :=
            (view.transactions.addPartition transactionalId producer topic partition).1 },
        (view.transactions.addPartition transactionalId producer topic partition).2.mapError
          .coordination) :=
  run_coordinateCall_applied config view rfl

theorem perform_addTransactionPartition (view : View) (transactionalId : Bytes)
    (producer : ProducerIdentity) (topic : Bytes) (partition : Int) :
    view.perform config n (.addTransactionPartition transactionalId producer topic partition) =
      ({ view with
          transactions :=
            (view.transactions.addPartition transactionalId producer topic partition).1 },
        ((view.transactions.addPartition transactionalId producer topic partition).2.mapError
          .coordination).map fun _ => .done) := by
  unfold View.perform
  rw [Call.program, View.run_map, run_addTransactionPartition]

theorem perform_addTransactionOffset (view : View) (transactionalId : Bytes)
    (producer : ProducerIdentity) (offset : TransactionOffset) :
    view.perform config n (.addTransactionOffset transactionalId producer offset) =
      ({ view with
          transactions := (view.transactions.addOffset transactionalId producer offset).1 },
        ((view.transactions.addOffset transactionalId producer offset).2.mapError
          .coordination).map fun _ => .done) := by
  have hrun : view.run config
      (addTransactionOffset (n := n) transactionalId producer offset) =
        ({ view with
            transactions := (view.transactions.addOffset transactionalId producer offset).1 },
          (view.transactions.addOffset transactionalId producer offset).2.mapError
            .coordination) := run_coordinateCall_applied config view rfl
  unfold View.perform
  rw [Call.program, View.run_map, hrun]

section Groups

variable (view : View) (groupId memberId : Bytes)

theorem run_heartbeatGroup (generation : Int) :
    view.run config (heartbeatGroup (n := n) groupId memberId generation) =
      ({ view with groups := (view.groups.heartbeat groupId memberId generation).1 },
        (view.groups.heartbeat groupId memberId generation).2.mapError .coordination) :=
  run_coordinateCall_applied config view rfl

theorem run_commitGroupOffset (generation : Int) (topic : Bytes) (partition offset : Int) :
    view.run config (commitGroupOffset (n := n) groupId generation topic partition offset) =
      ({ view with
          groups := (view.groups.commitOffset groupId generation topic partition offset).1 },
        (view.groups.commitOffset groupId generation topic partition offset).2.mapError
          .coordination) :=
  run_coordinateCall_applied config view rfl

theorem run_joinGroup (catalog : TopicCatalog) (subscriptions : List Bytes) :
    view.run config (joinGroup (n := n) catalog groupId memberId subscriptions) =
      ({ view with
          groups :=
            (view.groups.join groupId memberId subscriptions (catalogPartitions catalog)).1 },
        (view.groups.join groupId memberId subscriptions (catalogPartitions catalog)).2.mapError
          .coordination) := by
  unfold joinGroup
  rw [View.run_bind (run_coordinateCall config view _)]
  show View.andThen config _ (Except.mapError _ (Except.map _
    (view.groups.join groupId memberId subscriptions (catalogPartitions catalog)).2)) _ = _
  rcases (view.groups.join groupId memberId subscriptions (catalogPartitions catalog)).2 with
    error | joined <;> rfl

theorem run_groupOffset (topic : Bytes) (partition : Int) :
    view.run config (groupOffset (n := n) groupId topic partition) =
      (view, (view.groups.offset groupId topic partition).mapError .coordination) := by
  unfold groupOffset
  rw [View.run_bind (run_coordinateCall config view _)]
  show View.andThen config view (Except.mapError _ (Except.map _
    (view.groups.offset groupId topic partition))) _ = _
  rcases view.groups.offset groupId topic partition with error | offset <;> rfl

end Groups

/-! ## Appends -/

/-- A command about a partition the catalog knows. -/
theorem View.withLog_ok (view : View)
    (hcheck : config.catalog.checkPartition key.topic key.partition = .ok ())
    (operate : PartitionLog → PartitionLog × PartitionResult) :
    view.withLog config key operate =
      ({ view with logs := Function.update view.logs key (operate (view.logs key)).1 },
        (operate (view.logs key)).2) := by
  unfold View.withLog
  rw [hcheck]

theorem View.serve_onLog (view : View) (shard : Fin n) (h : command.onLog = some (key, operate)) :
    view.serve config shard command = view.withLog config key operate := by
  unfold View.serve
  rw [h]

theorem run_checked (view : View) (result : Except LogError Unit) :
    view.run config (checked (n := n) result) = (view, result.mapError .core) := by
  rcases result with error | value <;> rfl

theorem run_producedOffset_answer (view : View) (result : Except LogError Int) :
    view.run config (producedOffset (n := n) (answer .produced result)) =
      (view, result.mapError .core) := by
  rcases result with error | baseOffset <;> rfl

/-- An append to one log, of a partition the catalog may know. -/
def View.appendTo (view : View) (key : TopicPartition)
    (append : PartitionLog → PartitionLog × Except LogError Int) : View × Except BrokerError Int :=
  match config.catalog.checkPartition key.topic key.partition with
  | .error error => (view, .error (.core error))
  | .ok () =>
      ({ view with logs := Function.update view.logs key (append (view.logs key)).1 },
        (append (view.logs key)).2.mapError .core)

theorem run_appendTo (view : View) (key : TopicPartition)
    {append : PartitionLog → PartitionLog × Except LogError Int} (hcommand : command.onLog =
      some (key, fun log => ((append log).1, answer .produced (append log).2))) :
    view.run config (do
        checked (n := n) (config.catalog.checkPartition key.topic key.partition)
        producedOffset (← call key.topic key.partition command)) =
      view.appendTo config key append := by
  rw [View.run_bind (run_checked config view _)]
  unfold View.appendTo
  rcases hcheck : config.catalog.checkPartition key.topic key.partition with error | ⟨⟩
  · rfl
  · have hcall := run_callShard config view (shardIndex n key) command
    rw [View.serve_onLog config view _ hcommand, View.withLog_ok config view hcheck] at hcall
    simp only [Except.mapError, View.andThen_ok]
    unfold call
    rw [View.run_bind hcall]
    simp only [View.andThen_ok]
    rw [run_producedOffset_answer]
    rfl

/-- **An append** goes to the one log. -/
theorem run_produce (view : View) (topic : Bytes) (partition : Int) (records : List RecordData) :
    view.run config (produce (n := n) config.catalog topic partition records) =
      view.appendTo config ⟨topic, partition⟩ fun log => log.appendData records :=
  run_appendTo config view ⟨topic, partition⟩ rfl

theorem run_validateTransactionalProduce (view : View) (transactionalId : Bytes)
    (producer : ProducerIdentity) (topic : Bytes) (partition : Int) :
    view.run config
        (validateTransactionalProduce (n := n) transactionalId producer topic partition) =
      (view, (view.transactions.validateProduce transactionalId producer topic partition).mapError
        .coordination) :=
  run_coordinateCall_applied config view rfl

section ProduceTransactional

variable (view : View) {transactionalId : Bytes} {producer : ProducerIdentity} {topic : Bytes}
  {partition : Int} (records : List RecordData)

/-- An append the coordinator does not validate changes nothing. -/
theorem run_produceTransactional_invalid
    (hvalid : view.transactions.validateProduce transactionalId producer topic partition =
      .error error) :
    view.run config (produceTransactional (n := n) config.catalog transactionalId producer topic
        partition records) =
      (view, .error (.coordination error)) := by
  have hrun := run_validateTransactionalProduce (n := n) config view transactionalId producer topic
    partition
  rw [hvalid] at hrun
  unfold produceTransactional
  rw [View.run_bind hrun]
  rfl

/-- **A validated append** goes to the one log. -/
theorem run_produceTransactional
    (hvalid : view.transactions.validateProduce transactionalId producer topic partition =
      .ok ()) :
    view.run config (produceTransactional (n := n) config.catalog transactionalId producer topic
        partition records) =
      view.appendTo config ⟨topic, partition⟩ fun log =>
        log.appendTransactional records producer.id := by
  have hrun := run_validateTransactionalProduce (n := n) config view transactionalId producer topic
    partition
  rw [hvalid] at hrun
  unfold produceTransactional
  rw [View.run_bind hrun]
  simp only [Except.mapError, View.andThen_ok]
  exact run_appendTo config view ⟨topic, partition⟩ rfl

theorem perform_produceTransactional_invalid
    (hvalid : view.transactions.validateProduce transactionalId producer topic partition =
      .error error) :
    view.perform config n
        (.produceTransactional transactionalId producer topic partition records) =
      (view, .error (.coordination error)) := by
  unfold View.perform
  rw [Call.program, View.run_map, run_produceTransactional_invalid config view records hvalid]
  rfl

/-- An append to a partition the catalog does not know changes nothing. -/
theorem perform_produceTransactional_unknown {error : LogError}
    (hvalid : view.transactions.validateProduce transactionalId producer topic partition = .ok ())
    (hcheck : config.catalog.checkPartition topic partition = .error error) :
    view.perform config n
        (.produceTransactional transactionalId producer topic partition records) =
      (view, .error (.core error)) := by
  unfold View.perform
  rw [Call.program, View.run_map, run_produceTransactional config view records hvalid]
  simp only [View.appendTo, hcheck]
  rfl

theorem perform_produceTransactional
    (hvalid : view.transactions.validateProduce transactionalId producer topic partition = .ok ())
    (hcheck : config.catalog.checkPartition topic partition = .ok ()) :
    view.perform config n
        (.produceTransactional transactionalId producer topic partition records) =
      ({ view with
          logs := Function.update view.logs ⟨topic, partition⟩
            ((view.logs ⟨topic, partition⟩).appendTransactional records producer.id).1 },
        (((view.logs ⟨topic, partition⟩).appendTransactional records producer.id).2.mapError
          .core).map .offset) := by
  unfold View.perform
  rw [Call.program, View.run_map, run_produceTransactional config view records hvalid]
  simp only [View.appendTo, hcheck]

end ProduceTransactional

/-! ## Reads -/

/-- A command that only reads the log, of a partition the catalog may know. -/
theorem run_readLog (view : View) (key : TopicPartition) {read : PartitionLog → PartitionResult}
    (hread : command.onLog = some (key, fun log => (log, read log)))
    (next : PartitionResult → BrokerM n α) :
    view.run config (do
        checked (config.catalog.checkPartition key.topic key.partition)
        next (← call key.topic key.partition command)) =
      match config.catalog.checkPartition key.topic key.partition with
      | .error error => (view, .error (.core error))
      | .ok () => view.run config (next (read (view.logs key))) := by
  rw [View.run_bind (run_checked config view _)]
  rcases hcheck : config.catalog.checkPartition key.topic key.partition with error | ⟨⟩
  · rfl
  · have hcall := run_callShard config view (shardIndex n key) command
    rw [View.serve_onLog config view _ hread, View.withLog_ok config view hcheck] at hcall
    simp only [Function.update_eq_self] at hcall
    simp only [Except.mapError, View.andThen_ok]
    unfold call
    rw [View.run_bind hcall]
    rfl

/-- **A fetch** is the log's own, of a partition the catalog knows. -/
theorem run_fetchWithIsolation (view : View) (topic : Bytes) (partition offset : Int)
    (maxRecords maxBytes : ℕ) (readCommitted : Bool) :
    view.run config (fetchWithIsolation (n := n) config.catalog topic partition offset maxRecords
        maxBytes readCommitted) =
      (view, (config.catalog.checkPartition topic partition >>= fun _ =>
        (view.logs ⟨topic, partition⟩).fetchWithIsolation offset maxRecords maxBytes
          readCommitted).mapError .core) := by
  refine (run_readLog config view ⟨topic, partition⟩ rfl _).trans ?_
  rcases config.catalog.checkPartition topic partition with error | ⟨⟩
  · rfl
  · simp only []
    rcases (view.logs ⟨topic, partition⟩).fetchWithIsolation offset maxRecords maxBytes readCommitted
      with error | window <;> rfl

theorem run_listOffset (view : View) (topic : Bytes) (partition : Int) (earliest : Bool) :
    view.run config (listOffset (n := n) config.catalog topic partition earliest) =
      (view, (config.catalog.checkPartition topic partition >>= fun _ =>
        .ok ((view.logs ⟨topic, partition⟩).listOffset earliest)).mapError .core) := by
  refine (run_readLog config view ⟨topic, partition⟩ rfl _).trans ?_
  rcases config.catalog.checkPartition topic partition with error | ⟨⟩ <;> rfl

/-- A fetch of a known partition, as a call. -/
theorem perform_fetchWithIsolation (view : View)
    (hcheck : config.catalog.checkPartition key.topic key.partition = .ok ()) (offset : Int)
    (maxRecords maxBytes : ℕ) (readCommitted : Bool) :
    (view.perform config n
        (.fetchWithIsolation key.topic key.partition offset maxRecords maxBytes readCommitted)).2 =
      (((view.logs key).fetchWithIsolation offset maxRecords maxBytes readCommitted).mapError
        .core).map .window := by
  unfold View.perform
  rw [Call.program, View.run_map, run_fetchWithIsolation, hcheck]
  rfl

/-! ## The end of a transaction -/

/-- The shard of some listed partition owns `key`. -/
def Reached (n : ℕ) [NeZero n] (partitions : List TopicPartition) (key : TopicPartition) : Prop :=
  ∃ partition ∈ partitions, Owns (shardIndex n partition) key

open Classical in
/-- The view after the resolutions of a whole transaction. -/
noncomputable def View.resolveAll (n : ℕ) [NeZero n] (view : View)
    (partitions : List TopicPartition) (producerId : Int) (commit : Bool) : View :=
  { view with
    logs := fun key =>
      if Reached n partitions key then (view.logs key).commitTransaction producerId commit
      else view.logs key }

/-- A second resolution with the same outcome changes nothing. -/
theorem commitTransaction_idem (log : PartitionLog) (producerId : Int) (commit : Bool) :
    (log.commitTransaction producerId commit).commitTransaction producerId commit =
      log.commitTransaction producerId commit := by
  unfold PartitionLog.commitTransaction
  rw [List.map_map]
  congr 1
  refine List.map_congr_left fun batch _ => ?_
  show StoredBatch.resolve producerId commit (StoredBatch.resolve producerId commit batch) = _
  by_cases h : batch.transaction = some producerId
  · simp [StoredBatch.resolve, h]
  · simp [StoredBatch.resolve, h]

theorem reached_nil (key : TopicPartition) : ¬ Reached n [] key := by
  rintro ⟨partition, hmem, -⟩
  cases hmem

theorem reached_cons (partition : TopicPartition) (rest : List TopicPartition)
    (key : TopicPartition) :
    Reached n (partition :: rest) key ↔
      Owns (shardIndex n partition) key ∨ Reached n rest key := by
  unfold Reached
  rw [List.exists_mem_cons_iff]

section Projections

open Classical

variable (view : View) (shard : Fin n) (partitions : List TopicPartition) (producerId : Int)
  (commit : Bool)

theorem View.resolve_logs (key : TopicPartition) :
    (view.resolve shard producerId commit).logs key =
      if Owns shard key then (view.logs key).commitTransaction producerId commit
      else view.logs key := rfl

@[simp] theorem View.resolve_transactions :
    (view.resolve shard producerId commit).transactions = view.transactions := rfl

@[simp] theorem View.resolve_groups :
    (view.resolve shard producerId commit).groups = view.groups := rfl

theorem View.resolveAll_logs (key : TopicPartition) :
    (view.resolveAll n partitions producerId commit).logs key =
      if Reached n partitions key then (view.logs key).commitTransaction producerId commit
      else view.logs key := rfl

@[simp] theorem View.resolveAll_transactions :
    (view.resolveAll n partitions producerId commit).transactions = view.transactions := rfl

@[simp] theorem View.resolveAll_groups :
    (view.resolveAll n partitions producerId commit).groups = view.groups := rfl

end Projections

theorem View.resolveAll_nil (view : View) (producerId : Int) (commit : Bool) :
    view.resolveAll n [] producerId commit = view := by
  refine View.ext rfl rfl (funext fun key => ?_)
  rw [View.resolveAll_logs, if_neg (reached_nil key)]

/-- Resolving one shard and then the rest; a shard reached twice is resolved twice. -/
theorem View.resolveAll_resolve (view : View) (partition : TopicPartition)
    (rest : List TopicPartition) (producerId : Int) (commit : Bool) :
    (view.resolve (shardIndex n partition) producerId commit).resolveAll n rest producerId commit =
      view.resolveAll n (partition :: rest) producerId commit := by
  refine View.ext (by simp) (by simp) (funext fun key => ?_)
  rw [View.resolveAll_logs, View.resolveAll_logs, View.resolve_logs]
  by_cases hhead : Owns (shardIndex n partition) key
  · rw [if_pos hhead, if_pos ((reached_cons _ _ _).mpr (Or.inl hhead))]
    split
    · exact commitTransaction_idem _ _ _
    · rfl
  · rw [if_neg hhead]
    by_cases hrest : Reached n rest key
    · rw [if_pos hrest, if_pos ((reached_cons _ _ _).mpr (Or.inr hrest))]
    · rw [if_neg hrest, if_neg fun h => ((reached_cons _ _ _).mp h).elim hhead hrest]

/-- **The first loop of the end of a transaction** resolves every shard that owns an enlisted
partition. -/
theorem run_resolvePartitions (view : View) (producerId : Int) (commit : Bool)
    (partitions : List TopicPartition) :
    view.run config (resolvePartitions (n := n) producerId commit partitions) =
      (view.resolveAll n partitions producerId commit, .ok ()) := by
  induction partitions generalizing view with
  | nil =>
      rw [View.resolveAll_nil]
      rfl
  | cons key rest ih =>
      have hcall := run_callShard config view (shardIndex n key)
        (.resolveTransaction producerId commit)
      rw [resolvePartitions, call, View.run_bind hcall, View.andThen_ok, ← View.resolveAll_resolve,
        ← ih]
      rfl

/-- The offset commits of a transaction, one after another up to the first refused one. -/
def commitAll (groups : GroupCoordinator) :
    List TransactionOffset → GroupCoordinator × Except CoordinationError Unit
  | [] => (groups, .ok ())
  | offset :: rest =>
      match groups.commitEnlisted offset with
      | (groups', .ok ()) => commitAll groups' rest
      | (groups', .error error) => (groups', .error error)

/-- **The second loop of the end of a transaction** commits the enlisted offsets. -/
theorem run_commitOffsets (view : View) (offsets : List TransactionOffset) :
    view.run config (commitOffsets (n := n) offsets) =
      ({ view with groups := (commitAll view.groups offsets).1 },
        (commitAll view.groups offsets).2.mapError .coordination) := by
  induction offsets generalizing view with
  | nil => rfl
  | cons offset rest ih =>
      have hcommit : view.run config (commitGroupOffset (n := n) offset.groupId
          offset.generation offset.topic offset.partition offset.offset) =
          ({ view with groups := (view.groups.commitEnlisted offset).1 },
            (view.groups.commitEnlisted offset).2.mapError .coordination) :=
        run_commitGroupOffset config view _ _ _ _ _
      rw [commitOffsets, View.run_bind hcommit, commitAll]
      rcases view.groups.commitEnlisted offset with ⟨groups', error | ⟨⟩⟩
      · rfl
      · exact ih _

/-- The view after an accepted end of a transaction, and its result: the resolutions, then for a
commit the offsets. -/
noncomputable def View.finish (n : ℕ) [NeZero n] (view : View) (producerId : Int) (commit : Bool)
    (completion : TransactionCompletion) : View × Except BrokerError Answer :=
  let resolved := view.resolveAll n completion.partitions producerId commit
  if commit then
    ({ resolved with groups := (commitAll view.groups completion.offsets).1 },
      ((commitAll view.groups completion.offsets).2.mapError .coordination).map fun _ => .done)
  else (resolved, .ok .done)

/-- An end that the coordinator refuses. -/
theorem run_endTransaction_refused (view : View) {transactionalId : Bytes}
    {producer : ProducerIdentity} {commit : Bool}
    (h : (view.transactions.endTransaction transactionalId producer commit).2 = .error error) :
    view.run config (endTransaction (n := n) transactionalId producer commit) =
      (view, .error (.coordination error)) := by
  have hcoord : coordinate view.transactions view.groups
      (.endTransaction transactionalId producer commit) =
        ((view.transactions, view.groups), .error error) := by
    simp only [coordinate, TransactionCoordinator.endTransaction_error h, h]
    rfl
  unfold endTransaction
  rw [View.run_bind (run_coordinateCall config view _)]
  simp only [View.coordinated, hcoord]
  rfl

/-- **The end of a transaction**: the coordinator's step, and if it is accepted the rest. -/
theorem perform_endTransaction (view : View) (transactionalId : Bytes)
    (producer : ProducerIdentity) (commit : Bool) :
    view.perform config n (.endTransaction transactionalId producer commit) =
      match view.transactions.endTransaction transactionalId producer commit with
      | (transactions, .error error) =>
          ({ view with transactions := transactions }, .error (.coordination error))
      | (transactions, .ok completion) =>
          { view with transactions := transactions }.finish n producer.id commit completion := by
  unfold View.perform
  rw [Call.program, View.run_map]
  rcases hend : view.transactions.endTransaction transactionalId producer commit with
    ⟨transactions, error | completion⟩
  · have hrefused : (view.transactions.endTransaction transactionalId producer commit).2 =
        .error error := congrArg Prod.snd hend
    obtain rfl : view.transactions = transactions :=
      (TransactionCoordinator.endTransaction_error hrefused).symm.trans (congrArg Prod.fst hend)
    rw [run_endTransaction_refused config view hrefused]
    rfl
  · rw [endTransaction, View.run_bind (run_coordinateCall config view _)]
    have hcoord : coordinate view.transactions view.groups
        (.endTransaction transactionalId producer commit) =
        ((transactions, view.groups), .ok (.transactionCompleted completion)) := by
      simp only [coordinate, hend]
      rfl
    simp only [View.coordinated, hcoord]
    show ((View.run config _ (_ >>= _)).1, (View.run config _ (_ >>= _)).2.map _) = _
    rw [View.run_bind (run_resolvePartitions config _ _ _ _)]
    unfold View.finish
    cases commit with
    | false => rfl
    | true =>
        simp only [View.andThen_ok, if_true]
        rw [run_commitOffsets]
        rfl

/-! ## What every call keeps -/

/-- The log operations a command may do to the log of `key`. -/
def PartitionCommand.Does (key : TopicPartition) : PartitionCommand → LogOp → Prop
  | .produce topic partition records, op => key = ⟨topic, partition⟩ ∧ op = .appendData records
  | .produceTransactional topic partition records producerId, op =>
      key = ⟨topic, partition⟩ ∧ op = .appendTransactional records producerId
  | .resolveTransaction producerId commit, op => op = .commitTransaction producerId commit
  | _, _ => False

/-- A command about one partition does its log operation, or nothing, to the log. -/
theorem onLog_run (h : command.onLog = some (key, operate)) (log : PartitionLog) :
    ∃ ops : List LogOp, ops.length ≤ 1 ∧ (∀ op ∈ ops, command.Does key op) ∧
      (operate log).1 = log.run ops := by
  have hone : ∀ op : LogOp, command.Does key op → ∀ op' ∈ [op], command.Does key op' := by
    rintro op hop op' hmem
    rw [List.mem_singleton] at hmem
    rwa [hmem]
  cases command <;> cases h
  case produce records => exact ⟨[.appendData records], le_rfl, hone _ ⟨rfl, rfl⟩, rfl⟩
  case produceTransactional records producerId =>
    exact ⟨[.appendTransactional records producerId], le_rfl, hone _ ⟨rfl, rfl⟩, rfl⟩
  case fetch => exact ⟨[], by simp, by simp, rfl⟩
  case listOffset => exact ⟨[], by simp, by simp, rfl⟩

/-- **One command** changes each log by a log operation of its own, or not at all. -/
theorem View.serve_logs (view : View) (shard : Fin n) (command : PartitionCommand)
    (key : TopicPartition) :
    ∃ ops : List LogOp, ops.length ≤ 1 ∧ (∀ op ∈ ops, command.Does key op) ∧
      (view.serve config shard command).1.logs key = (view.logs key).run ops := by
  rcases hlog : command.onLog with _ | ⟨key', operate⟩
  · unfold View.serve
    rw [hlog]
    cases command with
    | resolveTransaction producerId commit =>
        by_cases howns : Owns shard key
        · exact ⟨[.commitTransaction producerId commit], le_rfl, by simp [PartitionCommand.Does],
            if_pos howns⟩
        · exact ⟨[], by simp, by simp, if_neg howns⟩
    | _ => exact ⟨[], by simp, by simp, rfl⟩
  · rw [View.serve_onLog config view shard hlog]
    unfold View.withLog
    rcases config.catalog.checkPartition key'.topic key'.partition with error | value
    · exact ⟨[], by simp, by simp, rfl⟩
    · obtain ⟨ops, hone, hdoes, hops⟩ := onLog_run hlog (view.logs key')
      rcases eq_or_ne key key' with rfl | hne
      · exact ⟨ops, hone, hdoes, by rw [← hops]; exact Function.update_self ..⟩
      · exact ⟨[], by simp, by simp, Function.update_of_ne hne ..⟩

/-- An operation on one partition rewrites no stored batch. -/
theorem PartitionCommand.Does.effect {op : LogOp} (h : command.Does key op)
    (hlog : command.onLog ≠ none) (batch : StoredBatch) :
    op.effect batch = batch := by
  cases command with
  | produce | produceTransactional =>
      obtain ⟨-, rfl⟩ := h
      rfl
  | resolveTransaction => exact absurd rfl hlog
  | _ => exact h.elim

/-- **An old batch found after a command** was there before it, or was resolved by it. -/
theorem View.serve_batch (view : View) (shard : Fin n) (command : PartitionCommand)
    (hwf : (view.logs key).WellFormed) {batch : StoredBatch}
    (hb : batch ∈ ((view.serve config shard command).1.logs key).batches)
    (hold : batch.baseOffset < (view.logs key).nextOffset) :
    batch ∈ (view.logs key).batches ∨
      ∃ producerId commit, command = .resolveTransaction producerId commit ∧
        shardIndex n key = shard ∧
        ∃ old ∈ (view.logs key).batches, old.transaction = some producerId ∧
          batch = { old with state := outcome commit } := by
  by_cases hlog : command.onLog = none
  · unfold View.serve at hb
    rw [hlog] at hb
    cases command with
    | resolveTransaction producerId commit =>
        simp only [View.resolve] at hb
        split at hb
        · next howns =>
            obtain ⟨old, hmem, rfl⟩ := List.mem_map.mp hb
            by_cases htx : old.transaction = some producerId
            · right
              exact ⟨producerId, commit, rfl, howns, old, hmem, htx, resolve_of_eq commit htx⟩
            · left
              rw [resolve_of_ne commit htx]
              exact hmem
        · exact Or.inl hb
    | _ => exact Or.inl hb
  · left
    obtain ⟨ops, -, hdoes, hops⟩ := View.serve_logs config view shard command key
    rw [hops] at hb
    obtain ⟨old, hmem, rfl⟩ := mem_run_old hwf hb hold
    have hsame : ∀ ops : List LogOp, (∀ op ∈ ops, command.Does key op) →
        ops.foldl (fun stored op => op.effect stored) old = old := by
      intro ops hops
      induction ops with
      | nil => rfl
      | cons op ops ih =>
          rw [List.foldl_cons, (hops op (List.mem_cons_self ..)).effect hlog]
          exact ih fun op' hop' => hops op' (List.mem_cons_of_mem _ hop')
    rw [hsame ops hdoes]
    exact hmem

/-- The log operations a call may do to the log of `key`. -/
def Call.Does (n : ℕ) [NeZero n] (catalog : TopicCatalog) (key : TopicPartition) (call : Call)
    (op : LogOp) : Prop :=
  ∃ (shard : Fin n) (command : PartitionCommand),
    call.Sends catalog shard command ∧ command.Does key op

/-- **A whole call** changes each log by its own log operations only. -/
theorem perform_logs (view : View) (call : Call) (key : TopicPartition) :
    ∃ ops : List LogOp, (∀ op ∈ ops, call.Does n config.catalog key op) ∧
      (view.perform config n call).1.logs key = (view.logs key).run ops := by
  have hserve : ∀ (view' : View) (shard : Fin n) (command : PartitionCommand),
      (∃ ops : List LogOp, (∀ op ∈ ops, call.Does n config.catalog key op) ∧
        view'.logs key = (view.logs key).run ops) → call.Sends config.catalog shard command →
        ∃ ops : List LogOp, (∀ op ∈ ops, call.Does n config.catalog key op) ∧
          (view'.serve config shard command).1.logs key = (view.logs key).run ops := by
    rintro view' shard command ⟨ops, hdoes, hops⟩ hsends
    obtain ⟨ops', -, hdoes', hops'⟩ := View.serve_logs config view' shard command key
    refine ⟨ops ++ ops', ?_, by rw [hops', hops, PartitionLog.run_append]⟩
    intro op hop
    rcases List.mem_append.mp hop with hold | hnew
    · exact hdoes op hold
    · exact ⟨shard, command, hsends, hdoes' op hnew⟩
  exact Prog.exec_preserves hserve (program_sends config.catalog call) ⟨[], by simp, rfl⟩

/-- Transactional batches come from transactional appends. -/
theorem Call.Does.produceTransactional {catalog : TopicCatalog} {call : Call}
    {records : List RecordData} {producerId : Int}
    (h : call.Does n catalog key (.appendTransactional records producerId)) :
    ∃ transactionalId producer,
      call = .produceTransactional transactionalId producer key.topic key.partition records := by
  obtain ⟨shard, command, hsends, hdoes⟩ := h
  cases call with
  | produceTransactional transactionalId producer topic partition records' =>
      rcases hsends with ⟨-, rfl⟩ | ⟨-, rfl⟩
      · exact hdoes.elim
      · obtain ⟨rfl, hop⟩ := hdoes
        cases hop
        exact ⟨transactionalId, producer, rfl⟩
  | produce topic partition records' =>
      obtain ⟨-, rfl⟩ := hsends
      cases hdoes.2
  | fetchWithIsolation | listOffset =>
      obtain ⟨-, rfl⟩ := hsends
      exact hdoes.elim
  | endTransaction transactionalId producer commit =>
      rcases hsends with ⟨-, rfl⟩ | rfl | ⟨-, -, _, _, _, _, _, rfl⟩
      · exact hdoes.elim
      · cases hdoes
      · exact hdoes.elim
  | _ =>
      obtain ⟨-, request, -, rfl⟩ := hsends
      exact hdoes.elim

/-- The calls that can change the transaction coordinator. -/
def Call.changesTransactions : Call → Bool
  | .initProducer _ => true
  | .addTransactionPartition _ _ _ _ => true
  | .addTransactionOffset _ _ _ => true
  | .endTransaction _ _ _ => true
  | _ => false

/-- Serving a command about one partition leaves the coordinators alone. -/
theorem View.serve_transactions (view : View) (shard : Fin n) (h : command.onLog ≠ none) :
    (view.serve config shard command).1.transactions = view.transactions := by
  obtain ⟨⟨key, operate⟩, hlog⟩ := Option.ne_none_iff_exists'.mp h
  rw [View.serve_onLog config view shard hlog]
  unfold View.withLog
  rcases config.catalog.checkPartition key.topic key.partition with error | value <;> rfl

/-- A checked command to one shard, whose answer is only read, leaves the coordinators alone. -/
theorem run_checked_call (view : View) (result : Except LogError Unit) (topic : Bytes)
    (partition : Int) (h : command.onLog ≠ none) (next : PartitionResult → BrokerM n α)
    (hnext : ∀ result (view : View), (view.run config (next result)).1 = view) :
    (view.run config (do
      checked (n := n) result
      let answer ← call topic partition command
      next answer)).1.transactions = view.transactions := by
  rw [View.run_bind (run_checked config view result)]
  rcases result with error | value
  · rfl
  · simp only [Except.mapError, View.andThen_ok]
    unfold call
    rw [View.run_bind (run_callShard config view _ command), View.andThen_ok, hnext]
    exact View.serve_transactions config view _ h

/-- **The other calls leave the transaction coordinator alone.** -/
theorem perform_transactions (view : View) {call : Call} (h : call.changesTransactions = false) :
    (view.perform config n call).1.transactions = view.transactions := by
  cases call with
  | produce | fetchWithIsolation | listOffset =>
      unfold View.perform
      rw [Call.program, View.run_map]
      refine run_checked_call config view _ _ _ (by simp [PartitionCommand.onLog]) _ ?_
      intro result view
      cases result <;> rfl
  | produceTransactional transactionalId producer topic partition records =>
      rcases hvalid : view.transactions.validateProduce transactionalId producer topic partition with
        error | value
      · rw [perform_produceTransactional_invalid config view records hvalid]
      · rcases hcheck : config.catalog.checkPartition topic partition with error | value
        · rw [perform_produceTransactional_unknown config view records hvalid hcheck]
        · rw [perform_produceTransactional config view records hvalid hcheck]
  | initProducer | addTransactionPartition | addTransactionOffset | endTransaction => cases h
  | _ =>
      rw [perform_request config view rfl]
      rfl

end CharlotteBroker.Runtime
