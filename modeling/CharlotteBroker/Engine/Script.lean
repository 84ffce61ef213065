import CharlotteBroker.Engine.Entries
import CharlotteBroker.Lib.RpcLayer

/-!
# Frames as broker calls

The engine knows the broker by its methods only. Here every handler is written at that level, as a
script of broker calls (`FrameM`); `prog_frameScript` says that taking the calls apart into shard
commands gives the handlers of `Engine.handleFrame` back.

* `Script.Each`: a loop over entries makes the calls of one entry after those of the one before.
* `plays_entries`: a Produce, Fetch, ListOffsets or AddPartitionsToTxn request that is answered is
  answered entry by entry, each from its own calls (`entryScripts`), under the names it was asked
  by.
* `plays_correlated`: whatever a frame's calls come to, a response carries the four bytes of the
  correlation id where the frame has them.
-/

namespace CharlotteBroker

open Std CharlotteBroker.Core Lib Lib.Parser CharlotteBroker.Runtime Wire

variable {α β : Type} {made : List (Call × Except BrokerError Answer)} {topics : List (Topic α)}
  {read : Answer → Option α} {response frame : Bytes} {answers : List (Topic β)} {call : Call}
  {next : Except BrokerError α → β}

/-! ## Calls and what they return -/

/-- A handler as the broker calls it makes. -/
abbrev FrameM : Type → Type := Script Call (Except BrokerError Answer)

namespace Runtime.Answer

def offset? : Answer → Option Int
  | .offset value => some value
  | _ => none

def window? : Answer → Option FetchWindow
  | .window value => some value
  | _ => none

def identity? : Answer → Option ProducerIdentity
  | .identity value => some value
  | _ => none

def done? : Answer → Option Unit
  | .done => some ()
  | _ => none

def group? : Answer → Option (Int × List GroupAssignment)
  | .group generation assignments => some (generation, assignments)
  | _ => none

def groupOffset? : Answer → Option (Option Int)
  | .groupOffset value => some value
  | _ => none

end Runtime.Answer

/-- The result of a call as its method returns it. -/
def returnedAs {α : Type} (read : Answer → Option α) :
    Except BrokerError Answer → Except BrokerError α
  | .ok answer => (read answer).elim (.error .unexpectedReply) .ok
  | .error error => .error error

/-- One broker call. -/
def askBroker {α : Type} (call : Call) (read : Answer → Option α) : FrameM (Except BrokerError α) :=
  returnedAs read <$> Script.ask call

/-- The loop over the partitions of the topics. -/
def eachEntry {α β : Type} (topics : List (Topic α)) (f : Bytes → α → FrameM β) :
    FrameM (List (Topic β)) :=
  topics.mapM fun topic => do
    let partitions ← topic.partitions.mapM (f topic.name)
    return ⟨topic.name, partitions⟩

namespace Engine

variable (engine : Engine)

/-! ## Handlers -/

/-- Source: `engine.rs`, `init_producer`. Kind: D -/
def initProducerScript (correlationId : Int32) : Option Bytes → FrameM (Except Error Bytes)
  | some transactionalId => do
      let result ← askBroker (.initProducer transactionalId) Answer.identity?
      return encodeInitProducerId correlationId (initProducerResult result)
  | none => return encodeInitProducerId correlationId ⟨invalidRequest, -1, -1⟩

/-- Source: `engine.rs`, `join_group`. Kind: D -/
def joinGroupScript (correlationId : Int32) (groupId memberId : Bytes)
    (subscriptions : List Bytes) : FrameM (Except Error Bytes) := do
  let memberId := joiningMemberId correlationId memberId
  let result ← askBroker (.joinGroup groupId memberId subscriptions) Answer.group?
  return joinResult correlationId memberId subscriptions result

/-- Source: `engine.rs`, `heartbeat`. Kind: D -/
def heartbeatScript (correlationId : Int32) (groupId memberId : Bytes) (generation : Int32) :
    FrameM (Except Error Bytes) := do
  let result ← askBroker (.heartbeatGroup groupId memberId generation.toInt) Answer.done?
  return encodeGroupError correlationId (resultCode result)

/-- Source: `engine.rs`, `leave_group`. Kind: D -/
def leaveGroupScript (correlationId : Int32) (groupId memberId : Bytes) :
    FrameM (Except Error Bytes) := do
  let result ← askBroker (.leaveGroupAny groupId memberId) Answer.done?
  return encodeGroupError correlationId (resultCode result)

/-- Source: `engine.rs`, `offset_commit`. Kind: D -/
def offsetCommitScript (correlationId : Int32) (groupId : Bytes) (generation : Int32)
    (topic : Bytes) (partition : Int32) (offset : Int64) : FrameM (Except Error Bytes) := do
  let result ← askBroker
    (.commitGroupOffset groupId generation.toInt topic partition.toInt offset.toInt) Answer.done?
  return encodeOffsetCommit correlationId topic partition (resultCode result)

/-- Source: `engine.rs`, `offset_fetch`. Kind: D -/
def offsetFetchScript (correlationId : Int32) (groupId topic : Bytes) (partition : Int32) :
    FrameM (Except Error Bytes) := do
  let result ← askBroker (.groupOffset groupId topic partition.toInt) Answer.groupOffset?
  return offsetFetchResult correlationId topic partition result

/-- Source: `engine.rs`, `end_txn`. Kind: D -/
def endTxnScript (correlationId : Int32) (transactionalId : Bytes) (producerId : Int64)
    (producerEpoch : Int16) (commit : Bool) : FrameM (Except Error Bytes) := do
  let result ← askBroker
    (.endTransaction transactionalId ⟨producerId.toInt, producerEpoch.toInt⟩ commit) Answer.done?
  return encodeEndTxn correlationId (resultCode result)

/-- Source: `engine.rs`, `produce` (the closure over one partition). Kind: D -/
def produceEntry (transactionalId : Option Bytes) (name : Bytes) (partition : ProducePartition) :
    FrameM ProducePartitionResult :=
  match transactionalId, partition.producer with
  | some _, none => return ⟨partition.partition, unsupportedVersion, -1, -1⟩
  | some id, some (producerId, producerEpoch) => do
      let result ← askBroker (.produceTransactional id ⟨producerId.toInt, producerEpoch.toInt⟩ name
        partition.partition.toInt partition.records) Answer.offset?
      return produceResult partition.partition result
  | none, _ => do
      let result ← askBroker (.produce name partition.partition.toInt partition.records)
        Answer.offset?
      return produceResult partition.partition result

/-- Source: `engine.rs`, `add_partitions_to_txn` (the closure over one partition). Kind: D -/
def addPartitionEntry (transactionalId : Bytes) (producer : ProducerIdentity) (topic : Bytes)
    (partition : Int32) : FrameM (Int32 × Int16) := do
  let result ← askBroker
    (.addTransactionPartition transactionalId producer topic partition.toInt) Answer.done?
  return (partition, resultCode result)

/-- Source: `engine.rs`, `fetch` (the closure over one partition). Kind: D -/
def fetchEntry (requestMaxBytes : Int32) (readCommitted : Bool) (name : Bytes)
    (partition : FetchPartition) : FrameM (FetchPartitionResult (List Record)) := do
  let result ← askBroker (.fetchWithIsolation name partition.partition.toInt
    partition.fetchOffset.toInt engine.maxFetchRecords
    (engine.fetchBudget requestMaxBytes partition.partitionMaxBytes) readCommitted) Answer.window?
  return fetchResult partition.partition result

/-- Source: `engine.rs`, `list_offsets` (the closure over one partition). Kind: D -/
def listOffsetsEntry (name : Bytes) (partition : ListOffsetsPartition) :
    FrameM ListOffsetsPartitionResult :=
  if partition.timestamp = -2 ∨ partition.timestamp = -1 then do
    let result ← askBroker
      (.listOffset name partition.partition.toInt (partition.timestamp = -2)) Answer.offset?
    return listOffsetsResult partition.partition result
  else return ⟨partition.partition, unsupportedVersion, -1, -1⟩

/-- Source: `engine.rs`, `handle_request`. Kind: D -/
def requestScript (request : Request) : FrameM (Except Error Bytes) :=
  let correlationId := request.header.correlationId
  match request.body with
  | .apiVersions => return encodeApiVersionsError correlationId noError supportedVersions
  | .findCoordinator _ _ => return engine.findCoordinator correlationId
  | .initProducerId transactionalId _ => initProducerScript correlationId transactionalId
  | .addPartitionsToTxn transactionalId producerId producerEpoch topics => do
      return encodeAddPartitionsToTxn correlationId (← eachEntry topics
        (addPartitionEntry transactionalId ⟨producerId.toInt, producerEpoch.toInt⟩))
  | .endTxn transactionalId producerId producerEpoch commit =>
      endTxnScript correlationId transactionalId producerId producerEpoch commit
  | .joinGroup groupId memberId subscriptions =>
      joinGroupScript correlationId groupId memberId subscriptions
  | .syncGroup _ _ _ assignment => return syncGroup correlationId assignment
  | .heartbeat groupId generation memberId =>
      heartbeatScript correlationId groupId memberId generation
  | .leaveGroup groupId memberId => leaveGroupScript correlationId groupId memberId
  | .offsetCommit groupId generation _ topic partition offset =>
      offsetCommitScript correlationId groupId generation topic partition offset
  | .offsetFetch groupId topic partition => offsetFetchScript correlationId groupId topic partition
  | .metadata topics => return engine.metadata correlationId topics
  | .produce transactionalId _ _ topics => do
      return encodeProduce correlationId ⟨← eachEntry topics (produceEntry transactionalId), 0⟩
  | .fetch _ _ _ maxBytes readCommitted topics => do
      return encodeFetch correlationId
        ⟨0, ← eachEntry topics (engine.fetchEntry maxBytes readCommitted)⟩
  | .listOffsets _ topics => do
      return encodeListOffsets correlationId (← eachEntry topics listOffsetsEntry)

/-- Source: `engine.rs`, `handle_frame`. Kind: D -/
def frameScript (frame : Bytes) : FrameM (Except Error Bytes) :=
  match decodeRequest frame with
  | .ok request => engine.requestScript request
  | .error .unsupportedVersion => return downgrade frame
  | .error error => return .error error

/-! ## The handlers are these scripts -/

section Programs

variable {n : ℕ} [NeZero n] {engine}

/-- What a broker call runs. -/
def callProgram (n : ℕ) [NeZero n] (engine : Engine) (call : Call) :
    EngineM n (Except BrokerError Answer) :=
  (call.program engine.broker.catalog).run

/-- The call runs the method, and what it returns is read back. -/
def Calls {α : Type} (engine : Engine) (call : Call) (read : Answer → Option α)
    (method : BrokerM n α) : Prop :=
  ∃ wrap : α → Answer, call.program engine.broker.catalog = wrap <$> method ∧
    ∀ a, read (wrap a) = some a

theorem prog_askBroker {method : BrokerM n α} (h : engine.Calls call read method) :
    (askBroker call read).prog (engine.callProgram n) = method.run := by
  obtain ⟨wrap, hcall, hread⟩ := h
  have hwrapped : engine.callProgram n call = Except.map wrap <$> method.run := by
    rw [callProgram, hcall, ExceptT.run_map]
  have hreturned : ∀ result : Except BrokerError α,
      returnedAs read (Except.map wrap result) = result := by
    rintro (error | a)
    · rfl
    · rw [Except.map, returnedAs, hread]
      rfl
  unfold askBroker
  rw [Script.prog_map, Script.prog_ask, hwrapped, Functor.map_map]
  simp only [hreturned]
  exact id_map _

/-- A handler of one call. -/
theorem prog_attempt {method : BrokerM n α} (h : engine.Calls call read method)
    (next : Except BrokerError α → β) :
    Script.prog (engine.callProgram n) (do return next (← askBroker call read)) =
      (do return next (← method.run)) := by
  rw [Script.prog_bind, prog_askBroker h]
  rfl

theorem prog_eachEntry (topics : List (Topic α)) {f : Bytes → α → FrameM β}
    {g : Bytes → α → EngineM n β} (h : ∀ name a, (f name a).prog (engine.callProgram n) = g name a) :
    (eachEntry topics f).prog (engine.callProgram n) = eachPartition topics g := by
  unfold eachEntry eachPartition
  rw [Script.prog_mapM]
  refine congrArg (List.mapM · topics) (funext fun topic => ?_)
  rw [Script.prog_bind, Script.prog_mapM]
  simp only [h]
  rfl

theorem prog_produceEntry (transactionalId : Option Bytes) (name : Bytes)
    (partition : ProducePartition) :
    (produceEntry transactionalId name partition).prog (engine.callProgram n) =
      engine.producePartition transactionalId name partition := by
  unfold produceEntry producePartition
  rcases transactionalId with _ | id
  · refine prog_attempt ?_ _
    exact ⟨_, rfl, fun _ => rfl⟩
  · rcases partition.producer with _ | ⟨producerId, producerEpoch⟩
    · rfl
    · refine prog_attempt ?_ _
      exact ⟨_, rfl, fun _ => rfl⟩

theorem prog_listOffsetsEntry (name : Bytes) (partition : ListOffsetsPartition) :
    (listOffsetsEntry name partition).prog (engine.callProgram n) =
      engine.listOffsetsPartition name partition := by
  unfold listOffsetsEntry listOffsetsPartition
  split
  · refine prog_attempt ?_ _
    exact ⟨_, rfl, fun _ => rfl⟩
  · rfl

theorem prog_addPartitionEntry (transactionalId : Bytes) (producer : ProducerIdentity)
    (topic : Bytes) (partition : Int32) :
    (addPartitionEntry transactionalId producer topic partition).prog (engine.callProgram n) =
      addPartition transactionalId producer topic partition := by
  unfold addPartitionEntry addPartition
  refine prog_attempt ?_ _
  exact ⟨_, rfl, fun _ => rfl⟩

theorem prog_fetchEntry (requestMaxBytes : Int32) (readCommitted : Bool) (name : Bytes)
    (partition : FetchPartition) :
    (engine.fetchEntry requestMaxBytes readCommitted name partition).prog (engine.callProgram n) =
      engine.fetchPartition requestMaxBytes readCommitted name partition := by
  unfold fetchEntry Engine.fetchPartition
  refine prog_attempt ?_ _
  exact ⟨_, rfl, fun _ => rfl⟩

theorem prog_requestScript (request : Request) :
    (engine.requestScript request).prog (engine.callProgram n) = engine.handleRequest request := by
  obtain ⟨header, body⟩ := request
  cases body with
  | initProducerId transactionalId timeoutMs =>
      cases transactionalId with
      | none => rfl
      | some transactionalId =>
          simp only [requestScript, handleRequest, initProducerScript, initProducer]
          refine prog_attempt ?_ _
          exact ⟨_, rfl, fun _ => rfl⟩
  | addPartitionsToTxn transactionalId producerId producerEpoch topics =>
      refine (Script.prog_bind _ _ _).trans ?_
      rw [prog_eachEntry topics (prog_addPartitionEntry transactionalId _)]
      rfl
  | produce transactionalId acks timeoutMs topics =>
      refine (Script.prog_bind _ _ _).trans ?_
      rw [prog_eachEntry topics (prog_produceEntry transactionalId)]
      rfl
  | fetch replicaId maxWaitMs minBytes maxBytes readCommitted topics =>
      refine (Script.prog_bind _ _ _).trans ?_
      rw [prog_eachEntry topics (prog_fetchEntry maxBytes readCommitted)]
      rfl
  | listOffsets replicaId topics =>
      refine (Script.prog_bind _ _ _).trans ?_
      rw [prog_eachEntry topics prog_listOffsetsEntry]
      rfl
  | endTxn | joinGroup | heartbeat | leaveGroup | offsetCommit | offsetFetch =>
      simp only [requestScript, handleRequest, endTxnScript, endTxn, joinGroupScript, joinGroup,
        heartbeatScript, heartbeat, leaveGroupScript, leaveGroup, offsetCommitScript, offsetCommit,
        offsetFetchScript, offsetFetch]
      refine prog_attempt ?_ _
      exact ⟨_, rfl, fun _ => rfl⟩
  | apiVersions | findCoordinator | syncGroup | metadata => rfl

/-- **The handlers are the scripts**, with every call taken apart. -/
theorem prog_frameScript (frame : Bytes) :
    (engine.frameScript frame).prog (engine.callProgram n) = engine.handleFrame frame := by
  unfold frameScript handleFrame
  rcases decodeRequest frame with error | request
  · cases error <;> rfl
  · exact prog_requestScript request

end Programs

/-! ## Answers entry by entry -/

/-- The entries of a request, each with the script of its answer. -/
def entryScripts (engine : Engine) : RequestBody → Option (List (Bytes × FrameM EntryAnswer))
  | .produce transactionalId _ _ topics =>
      some ((entriesOf topics).map fun entry =>
        (entry.1, .produced <$> produceEntry transactionalId entry.1 entry.2))
  | .fetch _ _ _ maxBytes readCommitted topics =>
      some ((entriesOf topics).map fun entry =>
        (entry.1, (fun result => .fetched (result.mapRecords recordSet)) <$>
          engine.fetchEntry maxBytes readCommitted entry.1 entry.2))
  | .listOffsets _ topics =>
      some ((entriesOf topics).map fun entry =>
        (entry.1, .listed <$> listOffsetsEntry entry.1 entry.2))
  | .addPartitionsToTxn transactionalId producerId producerEpoch topics =>
      some ((entriesOf topics).map fun entry =>
        (entry.1, .enlisted <$> addPartitionEntry transactionalId
          ⟨producerId.toInt, producerEpoch.toInt⟩ entry.1 entry.2))
  | _ => none

/-- The scripts of the entries ran one after the other, to these answers under these topics. -/
abbrev AnswersEach (scripts : List (Bytes × FrameM EntryAnswer))
    (made : List (Call × Except BrokerError Answer)) (answers : List (Topic EntryAnswer)) : Prop :=
  Script.Each (fun entry => Prod.mk entry.1 <$> entry.2) scripts made (entriesOf answers)

section Entries

variable {engine : Engine} {header : Header} {n : ℕ} [NeZero n]

/-- The loop makes the calls of the entries one after the other. -/
theorem each_of_eachEntry {f : Bytes → α → FrameM β}
    (h : (eachEntry topics f).Plays made (.ret answers)) :
    Script.Each (fun entry => Prod.mk entry.1 <$> f entry.1 entry.2) (entriesOf topics) made
      (entriesOf answers) := by
  have heach := Script.Plays.of_mapM h
  clear h
  induction heach with
  | nil => exact .nil
  | @cons topic topics first rest topic' answers here later ih =>
      rw [bind_pure_comp] at here
      obtain ⟨bs, hbs, rfl⟩ := here.of_map
      have hinner : Script.Each (fun entry => Prod.mk entry.1 <$> f entry.1 entry.2)
          (topic.partitions.map (Prod.mk topic.name)) first (bs.map (Prod.mk topic.name)) :=
        (Script.Plays.of_mapM hbs).map fun a made b hb => hb.map (Prod.mk topic.name)
      rw [entriesOf_cons, entriesOf_cons]
      exact hinner.append ih

theorem answersEach_of_eachEntry {f : Bytes → α → FrameM β}
    (h : (eachEntry topics f).Plays made (.ret answers)) (answer : β → EntryAnswer) :
    AnswersEach ((entriesOf topics).map fun entry => (entry.1, answer <$> f entry.1 entry.2)) made
      (answersAs answer answers) := by
  rw [AnswersEach, entriesOf_answersAs]
  refine (each_of_eachEntry h).map fun entry made b hb => ?_
  obtain ⟨b, hplays, rfl⟩ := hb.of_map
  exact (hplays.map answer).map (Prod.mk entry.1)

/-- The answers keep the names of the topics and the partitions. -/
theorem names_of_eachEntry {f : Bytes → α → FrameM β}
    (h : (eachEntry topics f).Plays made (.ret answers)) {answer : β → EntryAnswer}
    {partition : α → Int32}
    (hf : ∀ name a, (f name a).Ends fun b => (answer b).partition = partition a) :
    ((answersAs answer answers).map fun topic =>
        (topic.name, topic.partitions.map EntryAnswer.partition)) =
      topics.map fun topic => (topic.name, topic.partitions.map partition) := by
  rw [answersAs, List.map_map]
  refine (Script.Plays.of_mapM h).map_eq fun topic _ first topic' hplays => ?_
  rw [bind_pure_comp] at hplays
  obtain ⟨bs, hbs, rfl⟩ := hplays.of_map
  refine congrArg (Prod.mk topic.name) ?_
  show List.map EntryAnswer.partition (bs.map answer) = _
  rw [List.map_map]
  exact (Script.Plays.of_mapM hbs).map_eq fun a _ made b hb => (hf topic.name a).of_plays hb

/-- The response answers the entries of the request, in order and under their names, each from its
own calls. -/
def AnswersEntries (scripts : List (Bytes × FrameM EntryAnswer)) (request : Request)
    (made : List (Call × Except BrokerError Answer)) (response : Bytes) : Prop :=
  ∃ answers, readResponse request.body response = some (request.header.correlationId, answers) ∧
    (answers.map fun topic => (topic.name, topic.partitions.map EntryAnswer.partition)) =
      requestedPartitions request.body ∧
    AnswersEach scripts made answers

theorem answersEntries_of_kind (kind : EntryKind engine n header α β) {entry : Bytes → α → FrameM β}
    (hentry : ∀ name a, (entry name a).Ends fun b => (kind.answer b).partition = kind.partition a)
    (hrequested : requestedPartitions (kind.body topics) =
      topics.map fun topic => (topic.name, topic.partitions.map kind.partition))
    (h : Script.Plays (do return kind.encode (← eachEntry topics entry)) made (.ret (.ok response))) :
    AnswersEntries ((entriesOf topics).map fun e => (e.1, kind.answer <$> entry e.1 e.2))
      ⟨header, kind.body topics⟩ made response := by
  rw [bind_pure_comp] at h
  obtain ⟨answers, hanswers, hencode⟩ := h.of_map
  exact ⟨_, kind.reads topics answers response hencode,
    (names_of_eachEntry hanswers hentry).trans hrequested.symm,
    answersEach_of_eachEntry hanswers kind.answer⟩

/-- The calls of one entry, among those of a response that was sent. -/
theorem plays_entry (kind : EntryKind engine n header α β) {entry : Bytes → α → FrameM β}
    (h : Script.Plays (do return kind.encode (← eachEntry topics entry)) made (.ret (.ok response)))
    {answers : List (Topic EntryAnswer)} {correlationId : Int32}
    (hread : readResponse (kind.body topics) response = some (correlationId, answers)) {e : ℕ}
    {name name' : Bytes} {a : α} {answer : EntryAnswer}
    (ha : (entriesOf topics)[e]? = some (name, a))
    (hanswer : (entriesOf answers)[e]? = some (name', answer)) :
    ∃ sent b before piece after, kind.encode sent = .ok response ∧ (name', b) ∈ entriesOf sent ∧
      kind.answer b = answer ∧ made = before ++ (piece ++ after) ∧
      (entry name a).Plays piece (.ret b) := by
  rw [bind_pure_comp] at h
  obtain ⟨sent, hsent, hencode⟩ := h.of_map
  have hanswers := (kind.reads topics sent response hencode).symm.trans hread
  obtain ⟨-, rfl⟩ := Prod.ext_iff.mp (Option.some.inj hanswers)
  rw [entriesOf_answersAs, List.getElem?_map, Option.map_eq_some_iff] at hanswer
  obtain ⟨⟨_, b⟩, hb, heq⟩ := hanswer
  obtain ⟨rfl, rfl⟩ := Prod.ext_iff.mp heq
  obtain ⟨before, piece, after, hmade, hpart⟩ := (each_of_eachEntry hsent).part ha hb
  obtain ⟨b', hplays, heq⟩ := hpart.of_map
  obtain ⟨-, rfl⟩ := Prod.ext_iff.mp heq
  exact ⟨sent, _, before, piece, after, hencode, List.mem_of_getElem? hb, rfl, hmade, hplays⟩

/-- A script of one call, and what is made of its result. -/
theorem plays_attempt {b : β}
    (h : Script.Plays (do return next (← askBroker call read)) made (.ret b)) :
    ∃ result, made = [(call, result)] ∧ b = next (returnedAs read result) := by
  rw [bind_pure_comp] at h
  obtain ⟨value, hvalue, rfl⟩ := h.of_map
  obtain ⟨result, hresult, rfl⟩ := hvalue.of_map
  exact ⟨result, hresult.of_ask, rfl⟩

theorem ends_attempt {P : β → Prop} (h : ∀ result, P (next result)) :
    Script.Ends P (do return next (← askBroker call read)) :=
  (Script.ends_true _).bind fun result _ => h result

theorem ends_produceEntry (transactionalId : Option Bytes) (name : Bytes)
    (partition : ProducePartition) : (produceEntry transactionalId name partition).Ends
      fun result => result.partition = partition.partition := by
  unfold produceEntry
  rcases transactionalId with _ | id
  · exact ends_attempt (partition_produceResult _)
  · rcases partition.producer with _ | ⟨producerId, producerEpoch⟩
    · rfl
    · exact ends_attempt (partition_produceResult _)

theorem ends_listOffsetsEntry (name : Bytes) (partition : ListOffsetsPartition) :
    (listOffsetsEntry name partition).Ends fun result =>
      result.partition = partition.partition := by
  unfold listOffsetsEntry
  split
  · refine ends_attempt fun result => ?_
    rcases result with error | offset <;> rfl
  · rfl

theorem ends_fetchEntry (requestMaxBytes : Int32) (readCommitted : Bool) (name : Bytes)
    (partition : FetchPartition) :
    (engine.fetchEntry requestMaxBytes readCommitted name partition).Ends
      fun result => result.partition = partition.partition := by
  refine ends_attempt fun result => ?_
  rcases result with error | window <;> rfl

/-- **A request with entries is answered entry by entry**, whatever its calls come to. -/
theorem plays_entries {request : Request} {scripts : List (Bytes × FrameM EntryAnswer)}
    (hscripts : engine.entryScripts request.body = some scripts)
    (h : (engine.requestScript request).Plays made (.ret (.ok response))) :
    AnswersEntries scripts request made response := by
  obtain ⟨header, body⟩ := request
  cases body with
  | produce transactionalId acks timeoutMs topics =>
      rw [← Option.some.inj hscripts]
      exact answersEntries_of_kind (engine.produceKind 1 header transactionalId acks timeoutMs)
        (ends_produceEntry transactionalId) rfl h
  | fetch replicaId maxWaitMs minBytes maxBytes readCommitted topics =>
      rw [← Option.some.inj hscripts]
      exact answersEntries_of_kind (engine.fetchKind 1 header replicaId maxWaitMs minBytes maxBytes
        readCommitted) (ends_fetchEntry maxBytes readCommitted) rfl h
  | listOffsets replicaId topics =>
      rw [← Option.some.inj hscripts]
      exact answersEntries_of_kind (engine.listOffsetsKind 1 header replicaId)
        ends_listOffsetsEntry rfl h
  | addPartitionsToTxn transactionalId producerId producerEpoch topics =>
      rw [← Option.some.inj hscripts]
      refine answersEntries_of_kind
        (engine.addPartitionsKind 1 header transactionalId producerId producerEpoch)
        (fun name partition => ends_attempt fun result => rfl) ?_ h
      simp [requestedPartitions, addPartitionsKind]
  | _ => simp [entryScripts] at hscripts

end Entries

/-! ## Correlation ids -/

/-- A response, if there is one, is a frame for this correlation id. -/
def AnswersFor (correlationId : Int32) (result : Except Error Bytes) : Prop :=
  ∀ response, result = .ok response → ∃ body, response = responseFrame correlationId body

theorem answersFor_joinResult (correlationId : Int32) (memberId : Bytes)
    (subscriptions : List Bytes) (result : Except BrokerError (Int × List GroupAssignment)) :
    AnswersFor correlationId (joinResult correlationId memberId subscriptions result) := by
  intro response h
  rcases result with error | ⟨generation, assignments⟩
  · exact ⟨_, (encodeJoinGroup_eq_ok.mp h).2⟩
  · simp only [joinResult, bind, Except.bind] at h
    split at h
    · cases h
    · exact ⟨_, (encodeJoinGroup_eq_ok.mp h).2⟩

theorem answersFor_offsetFetchResult (correlationId : Int32) (topic : Bytes) (partition : Int32)
    (result : Except BrokerError (Option Int)) :
    AnswersFor correlationId (offsetFetchResult correlationId topic partition result) := by
  intro response h
  rcases result with error | _ | offset
  all_goals exact ⟨_, (encodeOffsetFetch_eq_ok.mp h).2⟩

theorem ends_requestScript (engine : Engine) (request : Request) :
    (engine.requestScript request).Ends (AnswersFor request.header.correlationId) := by
  obtain ⟨header, body⟩ := request
  cases body with
  | apiVersions => exact fun response h => ⟨_, (encodeApiVersionsError_eq_ok.mp h).2⟩
  | findCoordinator => exact fun response h => ⟨_, (encodeFindCoordinator_eq_ok.mp h).2⟩
  | syncGroup => exact fun response h => ⟨_, (encodeSyncGroup_eq_ok.mp h).2⟩
  | metadata => exact fun response h => ⟨_, (encodeMetadata_eq_ok.mp h).2⟩
  | initProducerId transactionalId =>
      cases transactionalId with
      | none => exact fun response h => ⟨_, encodeInitProducerId_eq_ok.mp h⟩
      | some => exact ends_attempt fun _ response h => ⟨_, encodeInitProducerId_eq_ok.mp h⟩
  | endTxn => exact ends_attempt fun _ response h => ⟨_, encodeEndTxn_eq_ok.mp h⟩
  | joinGroup => exact ends_attempt (answersFor_joinResult _ _ _)
  | heartbeat => exact ends_attempt fun _ response h => ⟨_, encodeGroupError_eq_ok.mp h⟩
  | leaveGroup => exact ends_attempt fun _ response h => ⟨_, encodeGroupError_eq_ok.mp h⟩
  | offsetCommit => exact ends_attempt fun _ response h => ⟨_, (encodeOffsetCommit_eq_ok.mp h).2⟩
  | offsetFetch => exact ends_attempt (answersFor_offsetFetchResult _ _ _)
  | produce =>
      exact (Script.ends_true _).bind fun _ _ response h => ⟨_, (encodeProduce_eq_ok.mp h).2⟩
  | fetch => exact (Script.ends_true _).bind fun _ _ response h => ⟨_, (encodeFetch_eq_ok.mp h).2⟩
  | listOffsets =>
      exact (Script.ends_true _).bind fun _ _ response h => ⟨_, (encodeListOffsets_eq_ok.mp h).2⟩
  | addPartitionsToTxn =>
      exact (Script.ends_true _).bind fun _ _ response h =>
        ⟨_, (encodeAddPartitionsToTxn_eq_ok.mp h).2⟩

/-- Where a request frame has its correlation id: after the length, the key and the version. -/
def sentCorrelation (frame : Bytes) : Bytes := (frame.drop 8).take 4

/-- Where a response frame has it: after the length. -/
def answeredCorrelation (frame : Bytes) : Bytes := (frame.drop 4).take 4

theorem answeredCorrelation_responseFrame (correlationId : Int32) (body : Bytes) :
    answeredCorrelation (responseFrame correlationId body) = i32Bytes correlationId := by
  unfold answeredCorrelation responseFrame
  rw [List.drop_left' (length_i32Bytes _), List.take_left' (length_i32Bytes _)]

theorem sentCorrelation_fields (length correlationId : Int32) (key version : Int16) (rest : Bytes) :
    sentCorrelation (i32Bytes length ++ (i16Bytes key ++ (i16Bytes version ++
      (i32Bytes correlationId ++ rest)))) = i32Bytes correlationId := by
  have hsplit : i32Bytes length ++ (i16Bytes key ++ (i16Bytes version ++
      (i32Bytes correlationId ++ rest))) = (i32Bytes length ++ (i16Bytes key ++ i16Bytes version)) ++
        (i32Bytes correlationId ++ rest) := by
    simp only [List.append_assoc]
  unfold sentCorrelation
  rw [hsplit, List.drop_left' (by simp), List.take_left' (length_i32Bytes _)]

theorem sentCorrelation_decoded {request : Request} (h : decodeRequest frame = .ok request) :
    sentCorrelation frame = i32Bytes request.header.correlationId := by
  obtain ⟨payload, -, rfl, hfields⟩ := decodeRequest_eq_ok.mp h
  obtain ⟨-, -, -, middle, rfl, -⟩ := run_requestFields_ok.mp hfields
  simp only [bytesField, headerField, List.append_assoc]
  exact sentCorrelation_fields _ _ _ _ _

theorem sentCorrelation_peeked {header : Header} (h : peekHeader frame = .ok header) :
    sentCorrelation frame = i32Bytes header.correlationId := by
  unfold peekHeader at h
  simp only [bind, Except.bind] at h
  split at h
  · cases h
  · next fields hfields =>
      obtain ⟨header', rest⟩ := fields
      cases h
      obtain ⟨length, _, hlength, hfields⟩ := run_bind_ok.mp hfields
      obtain ⟨key, _, hkey, hfields⟩ := run_bind_ok.mp hfields
      obtain ⟨version, _, hversion, hfields⟩ := run_bind_ok.mp hfields
      obtain ⟨correlationId, _, hid, hfields⟩ := run_bind_ok.mp hfields
      obtain ⟨rfl, rfl⟩ := run_pure_ok.mp hfields
      obtain rfl := run_i32_ok.mp hid
      obtain rfl := run_i16_ok.mp hversion
      obtain rfl := run_i16_ok.mp hkey
      obtain rfl := run_i32_ok.mp hlength
      exact sentCorrelation_fields _ _ _ _ _

theorem answersFor_downgrade {header : Header} (h : peekHeader frame = .ok header) :
    AnswersFor header.correlationId (downgrade frame) := by
  intro response hresponse
  simp only [downgrade, h] at hresponse
  split at hresponse
  · exact ⟨_, (encodeApiVersionsError_eq_ok.mp hresponse).2⟩
  · cases hresponse

/-- **Responses are for their requests**: a response carries the correlation id of the frame, byte
for byte. -/
theorem plays_correlated {engine : Engine}
    (h : (engine.frameScript frame).Plays made (.ret (.ok response))) :
    answeredCorrelation response = sentCorrelation frame := by
  have hends : (engine.frameScript frame).Ends fun result => ∀ response, result = .ok response →
      answeredCorrelation response = sentCorrelation frame := by
    unfold frameScript
    split
    · next request hdecode =>
        refine Script.Ends.mono (ends_requestScript engine request) fun result hfor response hok => ?_
        obtain ⟨body, rfl⟩ := hfor response hok
        rw [answeredCorrelation_responseFrame, sentCorrelation_decoded hdecode]
    · -- the versions, for whoever asks for them in a version of the future
      intro response hok
      rcases hpeek : peekHeader frame with error | header
      · rw [downgrade, hpeek] at hok
        cases hok
      · obtain ⟨body, rfl⟩ := answersFor_downgrade hpeek response hok
        rw [answeredCorrelation_responseFrame, sentCorrelation_peeked hpeek]
    · rintro response ⟨⟩
  exact hends.of_plays h response rfl

end Engine

end CharlotteBroker
