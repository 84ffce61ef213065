import CharlotteBroker.Engine.Dispatch
import CharlotteBroker.Wire.Decoded

/-!
# What the handlers do

The engine over the view of the broker, one equation per handler.

* `Engine.Makes` lists the broker calls of a request; `handleRequest_sends` says that a handler
  sends nothing else.
* `viewOf_handle`: so a frame handled by the shards is the frame handled by the view
  (`Engine.onView`), from any shards.
* The handlers with a loop answer topic by topic and partition by partition (`shape_eachPartition`),
  and those that only read answer from the view they started in (`exec_fetch`, `exec_listOffsets`).
-/

namespace CharlotteBroker

open Std CharlotteBroker.Core Lib CharlotteBroker.Runtime Wire

variable {n : ℕ} [NeZero n]

variable {β α : Type}

namespace Engine

/-! ## What a request sends -/

/-- The broker calls a request makes. -/
def Makes (engine : Engine) (request : Request) (call : Call) : Prop :=
  match request.body with
  | .initProducerId transactionalId _ =>
      ∃ id, transactionalId = some id ∧ call = .initProducer id
  | .addPartitionsToTxn transactionalId producerId producerEpoch topics =>
      ∃ topic ∈ topics, ∃ partition ∈ topic.partitions,
        call = .addTransactionPartition transactionalId ⟨producerId.toInt, producerEpoch.toInt⟩
          topic.name partition.toInt
  | .endTxn transactionalId producerId producerEpoch commit =>
      call = .endTransaction transactionalId ⟨producerId.toInt, producerEpoch.toInt⟩ commit
  | .joinGroup groupId memberId subscriptions =>
      call = .joinGroup groupId (joiningMemberId request.header.correlationId memberId)
        subscriptions
  | .heartbeat groupId generation memberId =>
      call = .heartbeatGroup groupId memberId generation.toInt
  | .leaveGroup groupId memberId => call = .leaveGroupAny groupId memberId
  | .offsetCommit groupId generation _ topic partition offset =>
      call = .commitGroupOffset groupId generation.toInt topic partition.toInt offset.toInt
  | .offsetFetch groupId topic partition => call = .groupOffset groupId topic partition.toInt
  | .produce transactionalId _ _ topics =>
      ∃ topic ∈ topics, ∃ partition ∈ topic.partitions,
        transactionalId = none ∧
            call = .produce topic.name partition.partition.toInt partition.records ∨
          ∃ id producer, transactionalId = some id ∧
            call = .produceTransactional id producer topic.name partition.partition.toInt
              partition.records
  | .fetch _ _ _ maxBytes readCommitted topics =>
      ∃ topic ∈ topics, ∃ partition ∈ topic.partitions,
        call = .fetchWithIsolation topic.name partition.partition.toInt
          partition.fetchOffset.toInt engine.maxFetchRecords
          (engine.fetchBudget maxBytes partition.partitionMaxBytes) readCommitted
  | .listOffsets _ topics =>
      ∃ topic ∈ topics, ∃ partition ∈ topic.partitions, ∃ earliest,
        call = .listOffset topic.name partition.partition.toInt earliest
  | .apiVersions | .findCoordinator _ _ | .syncGroup _ _ _ _ | .metadata _ => False

/-- The commands a request may send, and the shards it sends them to. -/
def Sends (engine : Engine) (request : Request) (shard : Fin n) (command : PartitionCommand) :
    Prop :=
  ∃ call, engine.Makes request call ∧ call.Sends engine.broker.catalog shard command

variable {engine : Engine} {request : Request}

/-- A broker call of the request, with anything made of its result. -/
theorem issues_attempt (call : Call) {method : BrokerM n α} {f : α → Answer}
    {next : Except BrokerError α → β} (hmethod : call.program engine.broker.catalog = f <$> method)
    (hcall : engine.Makes request call) :
    Prog.Issues (engine.Sends request) (do return next (← method.run)) := by
  have hsends := program_sends (n := n) engine.broker.catalog call
  rw [hmethod] at hsends
  refine (hsends.of_map.mono fun shard command h => ?_).bind fun result => trivial
  exact ⟨call, hcall, h⟩

omit [NeZero n] in
theorem issues_eachPartition {P : Fin n → PartitionCommand → Prop} {topics : List (Topic α)}
    {f : Bytes → α → EngineM n β}
    (h : ∀ topic ∈ topics, ∀ partition ∈ topic.partitions, (f topic.name partition).Issues P) :
    (eachPartition topics f).Issues P :=
  Prog.Issues.mapM fun topic htopic =>
    (Prog.Issues.mapM (h topic htopic)).bind fun _ => trivial

/-- **A request sends what its broker calls send.** -/
theorem handleRequest_sends (engine : Engine) (request : Request) :
    (engine.handleRequest (n := n) request).Issues (engine.Sends request) := by
  obtain ⟨header, body⟩ := request
  cases body with
  | initProducerId transactionalId timeoutMs =>
      rcases transactionalId with _ | id
      · trivial
      · refine issues_attempt (.initProducer id) rfl ?_
        exact ⟨id, rfl, rfl⟩
  | addPartitionsToTxn transactionalId producerId producerEpoch topics =>
      refine (issues_eachPartition fun topic htopic partition hpartition => ?_).bind fun _ => trivial
      refine issues_attempt (.addTransactionPartition _ _ _ _) rfl ?_
      exact ⟨topic, htopic, partition, hpartition, rfl⟩
  | produce transactionalId acks timeoutMs topics =>
      refine (issues_eachPartition fun topic htopic partition hpartition => ?_).bind fun _ => trivial
      unfold producePartition
      split
      · trivial
      · refine issues_attempt (.produceTransactional _ _ _ _ _) rfl ?_
        exact ⟨topic, htopic, partition, hpartition, Or.inr ⟨_, _, rfl, rfl⟩⟩
      · refine issues_attempt (.produce _ _ _) rfl ?_
        exact ⟨topic, htopic, partition, hpartition, Or.inl ⟨rfl, rfl⟩⟩
  | fetch replicaId maxWaitMs minBytes maxBytes readCommitted topics =>
      refine (issues_eachPartition fun topic htopic partition hpartition => ?_).bind fun _ => trivial
      refine issues_attempt (.fetchWithIsolation _ _ _ _ _ _) rfl ?_
      exact ⟨topic, htopic, partition, hpartition, rfl⟩
  | listOffsets replicaId topics =>
      refine (issues_eachPartition fun topic htopic partition hpartition => ?_).bind fun _ => trivial
      unfold listOffsetsPartition
      split
      · refine issues_attempt (.listOffset _ _ _) rfl ?_
        exact ⟨topic, htopic, partition, hpartition, _, rfl⟩
      · trivial
  | endTxn => exact issues_attempt (.endTransaction _ _ _) rfl rfl
  | joinGroup => exact issues_attempt (.joinGroup _ _ _) rfl rfl
  | heartbeat => exact issues_attempt (.heartbeatGroup _ _ _) rfl rfl
  | leaveGroup => exact issues_attempt (.leaveGroupAny _ _) rfl rfl
  | offsetCommit => exact issues_attempt (.commitGroupOffset _ _ _ _ _) rfl rfl
  | offsetFetch => exact issues_attempt (.groupOffset _ _ _) rfl rfl
  | apiVersions | findCoordinator | syncGroup | metadata => trivial

/-- What a frame sends is what some request it decodes to sends. -/
theorem handleFrame_sends (engine : Engine) (frame : Bytes) :
    (engine.handleFrame (n := n) frame).Issues fun shard command =>
      ∃ request, decodeRequest frame = .ok request ∧ engine.Sends request shard command := by
  unfold handleFrame
  rcases hdecode : decodeRequest frame with error | request
  · cases error <;> trivial
  · exact (handleRequest_sends engine request).mono fun _ _ h => ⟨request, rfl, h⟩

/-! ## Frames on the view -/

/-- A handler run on the view. -/
noncomputable def exec (engine : Engine) {α : Type} (view : View) (program : EngineM n α) :
    View × α :=
  Prog.exec (fun view (shard : Fin n) => View.serve engine.broker view shard) view program

/-- A frame handled on the view. -/
noncomputable def onView (engine : Engine) (n : ℕ) [NeZero n] (view : View) (frame : Bytes) :
    View × Except Error Bytes :=
  engine.exec view (engine.handleFrame (n := n) frame)

/-- A frame that decodes is its request. -/
theorem onView_of_decode {view : View} {frame : Bytes} (h : decodeRequest frame = .ok request) :
    engine.onView n view frame = engine.exec view (engine.handleRequest (n := n) request) := by
  unfold onView handleFrame
  rw [h]

/-- **Frames on the shards are frames on the view.** -/
theorem viewOf_handle (engine : Engine) (shards : Fin n → Shard) (frame : Bytes) :
    viewOf engine.broker (engine.handle shards frame).1 =
        (engine.onView n (viewOf engine.broker shards) frame).1 ∧
      (engine.handle shards frame).2 = (engine.onView n (viewOf engine.broker shards) frame).2 := by
  refine Prog.exec_simulates (R := fun shards view => viewOf engine.broker shards = view) ?_
    (handleFrame_sends engine frame) rfl
  rintro shards _ shard command rfl ⟨request, -, call, -, hsends⟩
  exact viewOf_serve engine.broker shards hsends.routed

/-- The view of a started broker after a list of frames. -/
noncomputable def viewAfter (engine : Engine) (n : ℕ) [NeZero n] (frames : List Bytes) : View :=
  frames.foldl (fun view frame => (engine.onView n view frame).1) (View.start engine.broker)

theorem viewAfter_append (frames : List Bytes) (frame : Bytes) :
    engine.viewAfter n (frames ++ [frame]) =
      (engine.onView n (engine.viewAfter n frames) frame).1 := by
  rw [viewAfter, List.foldl_append]
  rfl

theorem after_append (engine : Engine) (frames : List Bytes) (frame : Bytes) :
    engine.after n (frames ++ [frame]) = (engine.handle (engine.after n frames) frame).1 := by
  rw [after, List.foldl_append]
  rfl

theorem viewOf_after (engine : Engine) (frames : List Bytes) :
    viewOf engine.broker (engine.after n frames) = engine.viewAfter n frames := by
  induction frames using List.reverseRecOn with
  | nil => rfl
  | append_singleton frames frame ih =>
      rw [after_append, (viewOf_handle engine (engine.after n frames) frame).1, ih,
        viewAfter_append]

/-- The groups are those of shard zero. -/
theorem groups_handle (engine : Engine) (shards : Fin n → Shard) (frame : Bytes) :
    ((engine.handle shards frame).1 0).groups =
      (engine.onView n (viewOf engine.broker shards) frame).1.groups :=
  congrArg View.groups (viewOf_handle engine shards frame).1

theorem groups_after (engine : Engine) (frames : List Bytes) :
    (engine.after n frames 0).groups = (engine.viewAfter n frames).groups :=
  congrArg View.groups (viewOf_after engine frames)

/-- **Invariants of frames.** What every command of every request keeps holds after any frames. -/
theorem viewAfter_preserves (Inv : View → Prop) (hstart : Inv (View.start engine.broker))
    (hserve : ∀ view (shard : Fin n) command, Inv view →
      (∃ frame request, decodeRequest frame = .ok request ∧ engine.Sends request shard command) →
      Inv (view.serve engine.broker shard command).1)
    (frames : List Bytes) : Inv (engine.viewAfter n frames) := by
  induction frames using List.reverseRecOn with
  | nil => exact hstart
  | append_singleton frames frame ih =>
      rw [viewAfter_append]
      refine Prog.exec_preserves ?_ (handleFrame_sends engine frame) ih
      rintro view shard command hinv ⟨request, hdecode, hsends⟩
      exact hserve view shard command hinv ⟨frame, request, hdecode, hsends⟩

/-- The logs of a broker that has handled frames are well-formed. -/
theorem viewAfter_wellFormed (frames : List Bytes) (key : TopicPartition) :
    ((engine.viewAfter n frames).logs key).WellFormed := by
  refine viewAfter_preserves (n := n) (fun view => (view.logs key).WellFormed)
    (PartitionLog.wellFormed_newLog _) (fun view shard command hinv _ => ?_) frames
  obtain ⟨ops, -, -, hops⟩ := View.serve_logs engine.broker view shard command key
  rw [hops]
  exact PartitionLog.run_wellFormed hinv ops

/-! ## Handlers with one broker call -/

theorem exec_bind (view : View) (program : EngineM n α) (next : α → EngineM n β) :
    engine.exec view (program >>= next) =
      engine.exec (engine.exec view program).1 (next (engine.exec view program).2) :=
  Prog.exec_bind _ _ _ _

/-- A handler that makes one call and encodes something of its result. -/
theorem exec_attempt (view : View) (method : BrokerM n α) (next : Except BrokerError α → β) :
    engine.exec view (do return next (← method.run)) =
      ((view.run engine.broker method).1, next (view.run engine.broker method).2) :=
  Prog.exec_bind _ _ _ _

section OneCall

variable (view : View) (correlationId : Int32)

theorem exec_joinGroup (groupId memberId : Bytes) (subscriptions : List Bytes) :
    engine.exec view (engine.joinGroup (n := n) correlationId groupId memberId subscriptions) =
      ({ view with
          groups := (view.groups.join groupId (joiningMemberId correlationId memberId)
            subscriptions (catalogPartitions engine.broker.catalog)).1 },
        joinResult correlationId (joiningMemberId correlationId memberId) subscriptions
          ((view.groups.join groupId (joiningMemberId correlationId memberId) subscriptions
            (catalogPartitions engine.broker.catalog)).2.mapError .coordination)) := by
  unfold joinGroup
  rw [exec_attempt, run_joinGroup]

/-- A frame that joins a group. -/
theorem onView_joinGroup {view : View} {frame : Bytes} {header : Header} {groupId memberId : Bytes}
    {subscriptions : List Bytes}
    (h : decodeRequest frame = .ok ⟨header, .joinGroup groupId memberId subscriptions⟩) :
    engine.onView n view frame =
      ({ view with
          groups := (view.groups.join groupId (joiningMemberId header.correlationId memberId)
            subscriptions (catalogPartitions engine.broker.catalog)).1 },
        joinResult header.correlationId (joiningMemberId header.correlationId memberId) subscriptions
          ((view.groups.join groupId (joiningMemberId header.correlationId memberId) subscriptions
            (catalogPartitions engine.broker.catalog)).2.mapError .coordination)) :=
  (onView_of_decode h).trans (exec_joinGroup _ _ _ _ _)

theorem exec_heartbeat (groupId memberId : Bytes) (generation : Int32) :
    engine.exec view (heartbeat (n := n) correlationId groupId memberId generation) =
      ({ view with groups := (view.groups.heartbeat groupId memberId generation.toInt).1 },
        encodeGroupError correlationId (resultCode
          ((view.groups.heartbeat groupId memberId generation.toInt).2.mapError
            .coordination))) := by
  unfold heartbeat
  rw [exec_attempt, run_heartbeatGroup]

theorem exec_offsetCommit (groupId : Bytes) (generation : Int32) (topic : Bytes)
    (partition : Int32) (offset : Int64) :
    engine.exec view
        (offsetCommit (n := n) correlationId groupId generation topic partition offset) =
      ({ view with
          groups := (view.groups.commitOffset groupId generation.toInt topic partition.toInt
            offset.toInt).1 },
        encodeOffsetCommit correlationId topic partition (resultCode
          ((view.groups.commitOffset groupId generation.toInt topic partition.toInt
            offset.toInt).2.mapError .coordination))) := by
  unfold offsetCommit
  rw [exec_attempt, run_commitGroupOffset]

theorem exec_offsetFetch (groupId topic : Bytes) (partition : Int32) :
    engine.exec view (offsetFetch (n := n) correlationId groupId topic partition) =
      (view, offsetFetchResult correlationId topic partition
        ((view.groups.offset groupId topic partition.toInt).mapError .coordination)) := by
  unfold offsetFetch
  rw [exec_attempt, run_groupOffset]

end OneCall

/-! ## Handlers with a loop -/

/-- A loop over partitions that changes nothing answers each of them from the view it started in. -/
theorem exec_eachPartition {α β : Type} {view : View} {f : Bytes → α → EngineM n β}
    {g : Bytes → α → β} (topics : List (Topic α))
    (h : ∀ name partition, engine.exec view (f name partition) = (view, g name partition)) :
    engine.exec view (eachPartition topics f) =
      (view, topics.map fun topic => ⟨topic.name, topic.partitions.map (g topic.name)⟩) := by
  refine Prog.exec_mapM_of_const _ fun topic _ => ?_
  rw [Prog.exec_bind, Prog.exec_mapM_of_const _ fun partition _ => h topic.name partition]
  rfl

/-- A loop over partitions answers every topic under its name and every partition once. -/
theorem shape_eachPartition (view : View) (topics : List (Topic α)) (f : Bytes → α → EngineM n β) :
    shape (engine.exec view (eachPartition topics f)).2 = shape topics := by
  refine Prog.map_exec_mapM _ view topics fun view topic _ => ?_
  rw [Prog.exec_bind]
  exact congrArg (Prod.mk topic.name) (Prog.length_exec_mapM _ view _ _)

/-- A loop over one partition. -/
theorem exec_eachPartition_one (view : View) (name : Bytes) (partition : α)
    (f : Bytes → α → EngineM n β) :
    engine.exec view (eachPartition [⟨name, [partition]⟩] f) =
      ((engine.exec view (f name partition)).1,
        [⟨name, [(engine.exec view (f name partition)).2]⟩]) := by
  have hone : eachPartition [⟨name, [partition]⟩] f =
      f name partition >>= fun answer => Prog.ret [⟨name, [answer]⟩] := by
    simp only [eachPartition, List.mapM_cons, List.mapM_nil, bind_assoc, Prog.pure_eq_ret,
      Prog.ret_bind]
  rw [hone, exec_bind]
  rfl

/-- An append to one partition that the catalog knows. -/
theorem exec_produce_one (view : View) (correlationId : Int32) {name : Bytes}
    {partition : ProducePartition}
    (hexists : engine.broker.catalog.checkPartition name partition.partition.toInt = .ok ()) :
    (engine.exec view (engine.produce (n := n) correlationId none [⟨name, [partition]⟩])).1 =
      { view with
        logs := Function.update view.logs ⟨name, partition.partition.toInt⟩
          ((view.logs ⟨name, partition.partition.toInt⟩).appendData partition.records).1 } := by
  unfold produce
  rw [exec_bind, exec_eachPartition_one]
  show (engine.exec view (engine.producePartition (n := n) none name partition)).1 = _
  unfold producePartition
  rw [exec_attempt, run_produce]
  simp only [View.appendTo, hexists]

/-- The answer to one partition of a fetch. -/
def fetchAnswer (engine : Engine) (view : View) (requestMaxBytes : Int32) (readCommitted : Bool)
    (name : Bytes) (partition : FetchPartition) : FetchPartitionResult (List Record) :=
  fetchResult partition.partition
    ((engine.broker.catalog.checkPartition name partition.partition.toInt >>= fun _ =>
      (view.logs ⟨name, partition.partition.toInt⟩).fetchWithIsolation partition.fetchOffset.toInt
        engine.maxFetchRecords (engine.fetchBudget requestMaxBytes partition.partitionMaxBytes)
        readCommitted).mapError .core)

/-- **A fetch request** changes nothing and answers every partition from its log. -/
theorem exec_fetch (view : View) (correlationId requestMaxBytes : Int32) (readCommitted : Bool)
    (topics : List (Topic FetchPartition)) :
    engine.exec view (engine.fetch (n := n) correlationId requestMaxBytes readCommitted topics) =
      (view, encodeFetch correlationId ⟨0, topics.map fun topic => ⟨topic.name,
        topic.partitions.map
          (engine.fetchAnswer view requestMaxBytes readCommitted topic.name)⟩⟩) := by
  have hpartition : ∀ name partition,
      engine.exec view (engine.fetchPartition (n := n) requestMaxBytes readCommitted name partition) =
        (view, engine.fetchAnswer view requestMaxBytes readCommitted name partition) := by
    intro name partition
    unfold fetchPartition fetchAnswer
    rw [exec_attempt, run_fetchWithIsolation]
  unfold fetch
  rw [exec_bind, exec_eachPartition topics hpartition]
  rfl

/-- The answer to one partition of a list-offsets request. -/
def listOffsetsAnswer (engine : Engine) (view : View) (name : Bytes)
    (partition : ListOffsetsPartition) : ListOffsetsPartitionResult :=
  if partition.timestamp = -2 ∨ partition.timestamp = -1 then
    listOffsetsResult partition.partition
      ((engine.broker.catalog.checkPartition name partition.partition.toInt >>= fun _ =>
        .ok ((view.logs ⟨name, partition.partition.toInt⟩).listOffset
          (partition.timestamp = -2))).mapError .core)
  else ⟨partition.partition, unsupportedVersion, -1, -1⟩

/-- **A list-offsets request** changes nothing. -/
theorem exec_listOffsets (view : View) (correlationId : Int32)
    (topics : List (Topic ListOffsetsPartition)) :
    engine.exec view (engine.listOffsets (n := n) correlationId topics) =
      (view, encodeListOffsets correlationId (topics.map fun topic => ⟨topic.name,
        topic.partitions.map (engine.listOffsetsAnswer view topic.name)⟩)) := by
  have hpartition : ∀ name partition,
      engine.exec view (engine.listOffsetsPartition (n := n) name partition) =
        (view, engine.listOffsetsAnswer view name partition) := by
    intro name partition
    unfold listOffsetsPartition listOffsetsAnswer
    split
    · rw [exec_attempt, run_listOffset]
    · rfl
  unfold listOffsets
  rw [exec_bind, exec_eachPartition topics hpartition]
  rfl

end Engine

end CharlotteBroker
