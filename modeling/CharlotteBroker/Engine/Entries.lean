import CharlotteBroker.Engine.Handlers
import CharlotteBroker.Wire.ReadBack

/-!
# A request is the sequence of its entries

Produce, Fetch, ListOffsets and AddPartitionsToTxn carry a list of entries: partitions under topics.
Handling such a request is handling its entries one after another, each as a request of its own.

* `singleEntries` are the single-entry requests, `readResponse` reads a response back as the
  entries it answers (`EntryAnswer`).
* `EntryKind` is what the four kinds have in common: a program for one entry, an encoder for the
  answers, and three facts about them. The loop over the entries is dealt with once, for any kind
  (`EntryKind.inSequence`).
* An entry that is answered with an error leaves the view as it was (`exec_producePartition_keeps`
  and its siblings), so the other entries are answered as if it had not been there
  (`InSequence.without_failures`).
-/

namespace CharlotteBroker

open Std CharlotteBroker.Core Lib Lib.Parser CharlotteBroker.Runtime Wire

variable {n : ℕ} [NeZero n]

variable {shards after : Fin n → Shard}

/-! ## Entries -/

/-- The entries of a list of topics, each with the name of its topic. -/
def entriesOf {α : Type} (topics : List (Topic α)) : List (Bytes × α) :=
  topics.flatMap fun topic => topic.partitions.map fun entry => (topic.name, entry)

theorem entriesOf_cons {α : Type} (topic : Topic α) (topics : List (Topic α)) :
    entriesOf (topic :: topics) =
      topic.partitions.map (Prod.mk topic.name) ++ entriesOf topics :=
  List.flatMap_cons

/-- The single-entry requests of a request with entries. -/
def singleEntries : RequestBody → Option (List RequestBody)
  | .produce transactionalId acks timeoutMs topics =>
      some ((entriesOf topics).map fun entry =>
        .produce transactionalId acks timeoutMs [⟨entry.1, [entry.2]⟩])
  | .fetch replicaId maxWaitMs minBytes maxBytes readCommitted topics =>
      some ((entriesOf topics).map fun entry =>
        .fetch replicaId maxWaitMs minBytes maxBytes readCommitted [⟨entry.1, [entry.2]⟩])
  | .listOffsets replicaId topics =>
      some ((entriesOf topics).map fun entry => .listOffsets replicaId [⟨entry.1, [entry.2]⟩])
  | .addPartitionsToTxn transactionalId producerId producerEpoch topics =>
      some ((entriesOf topics).map fun entry =>
        .addPartitionsToTxn transactionalId producerId producerEpoch [⟨entry.1, [entry.2]⟩])
  | _ => none

/-- The topics a request names, with the partitions under each. -/
def requestedPartitions : RequestBody → List (Bytes × List Int32)
  | .produce _ _ _ topics =>
      topics.map fun topic => (topic.name, topic.partitions.map ProducePartition.partition)
  | .fetch _ _ _ _ _ topics =>
      topics.map fun topic => (topic.name, topic.partitions.map FetchPartition.partition)
  | .listOffsets _ topics =>
      topics.map fun topic => (topic.name, topic.partitions.map ListOffsetsPartition.partition)
  | .addPartitionsToTxn _ _ _ topics => topics.map fun topic => (topic.name, topic.partitions)
  | _ => []

/-- The answer to one entry, as it stands in a response. -/
inductive EntryAnswer
  | produced (result : ProducePartitionResult)
  | fetched (result : FetchPartitionResult Bytes)
  | listed (result : ListOffsetsPartitionResult)
  | enlisted (result : Int32 × Int16)
  | committed (result : Int32 × Int16)
  deriving DecidableEq, Repr

/-- The partition the answer is for. -/
def EntryAnswer.partition : EntryAnswer → Int32
  | .produced result => result.partition
  | .fetched result => result.partition
  | .listed result => result.partition
  | .enlisted result | .committed result => result.1

/-- The error code of the answer. -/
def EntryAnswer.error : EntryAnswer → Int16
  | .produced result => result.error
  | .fetched result => result.error
  | .listed result => result.error
  | .enlisted result | .committed result => result.2

/-- The topics with another answer for each entry. -/
def answersAs {α : Type} (answer : α → EntryAnswer) (topics : List (Topic α)) :
    List (Topic EntryAnswer) :=
  topics.map fun topic => ⟨topic.name, topic.partitions.map answer⟩

/-- Their entries are the same entries, answered. -/
theorem entriesOf_answersAs {β : Type} (answer : β → EntryAnswer) (answers : List (Topic β)) :
    entriesOf (answersAs answer answers) =
      (entriesOf answers).map fun entry => (entry.1, answer entry.2) := by
  simp only [entriesOf, answersAs, List.flatMap_map, List.map_flatMap, List.map_map,
    Function.comp_def]

/-- The answers of a response to a request of this kind. -/
def readAnswers : RequestBody → Decoder (List (Topic EntryAnswer))
  | .produce _ _ _ _ => do return answersAs .produced (← readProduce).topics
  | .fetch _ _ _ _ _ _ => do return answersAs .fetched (← readFetch).topics
  | .listOffsets _ _ => do return answersAs .listed (← readListOffsets)
  | .addPartitionsToTxn _ _ _ _ => do return answersAs .enlisted (← readAddPartitionsToTxn).2
  | .offsetCommit _ _ _ _ _ _ => do return answersAs .committed (← readOffsetCommit)
  | _ => return []

/-- The correlation id and the answers of a response frame, after its length. -/
def readFrame (body : RequestBody) : Decoder (Int32 × List (Topic EntryAnswer)) :=
  readResponseFrame fun correlationId => do return (correlationId, ← readAnswers body)

/-- A response frame to a request of this kind, read to its end. -/
def readResponse (body : RequestBody) (frame : Bytes) :
    Option (Int32 × List (Topic EntryAnswer)) :=
  match (readFrame body).run frame with
  | .ok (response, []) => some response
  | _ => none

/-! ## One after another -/

/-- A single-entry request with the topic and the answer of its response. -/
structure EntryStep where
  body : RequestBody
  topic : Bytes
  answer : EntryAnswer

namespace Engine

variable {engine : Engine} {header : Header}

/-- A request handled while no other is and no mailbox fails. -/
def request (engine : Engine) (shards : Fin n → Shard) (request : Request) :
    (Fin n → Shard) × Except Error Bytes :=
  Prog.exec (serve engine.broker) shards (engine.handleRequest request)

/-- A frame is handled as the request it decodes to. -/
theorem handle_of_decode {engine : Engine} {frame : Bytes} {request : Request}
    (h : decodeRequest frame = .ok request) :
    engine.handle shards frame = engine.request shards request := by
  unfold Engine.handle handleFrame
  rw [h]
  rfl

/-- **Requests on the shards are requests on the view.** -/
theorem viewOf_request (engine : Engine) (shards : Fin n → Shard) (request : Request) :
    viewOf engine.broker (engine.request shards request).1 =
        (engine.exec (viewOf engine.broker shards) (engine.handleRequest (n := n) request)).1 ∧
      (engine.request shards request).2 =
        (engine.exec (viewOf engine.broker shards) (engine.handleRequest (n := n) request)).2 := by
  refine Prog.exec_simulates (R := fun shards view => viewOf engine.broker shards = view) ?_
    (handleRequest_sends engine request) rfl
  rintro shards _ shard command rfl ⟨call, -, hsends⟩
  exact viewOf_serve engine.broker shards hsends.routed

/-- The single-entry requests are handled one after another from `shards` to `after`. Each is
answered with one entry under the header's correlation id, and one that is answered with an error
leaves every log, every transaction and every group as it was. -/
inductive InSequence (engine : Engine) (header : Header) :
    (Fin n → Shard) → List EntryStep → (Fin n → Shard) → Prop
  | nil (shards : Fin n → Shard) : InSequence engine header shards [] shards
  | cons {shards next after : Fin n → Shard} {step : EntryStep} {steps : List EntryStep}
      {frame : Bytes} (handled : engine.request shards ⟨header, step.body⟩ = (next, .ok frame))
      (answered : readResponse step.body frame =
        some (header.correlationId, [⟨step.topic, [step.answer]⟩]))
      (kept : step.answer.error ≠ noError → viewOf engine.broker next = viewOf engine.broker shards)
      (rest : InSequence engine header next steps after) :
      InSequence engine header shards (step :: steps) after

/-- The same requests are answered the same from shards with the same view. -/
theorem InSequence.of_viewOf_eq {shards' : Fin n → Shard} {steps : List EntryStep}
    (h : InSequence engine header shards steps after)
    (hview : viewOf engine.broker shards' = viewOf engine.broker shards) :
    ∃ after', InSequence engine header shards' steps after' ∧
      viewOf engine.broker after' = viewOf engine.broker after := by
  induction h generalizing shards' with
  | nil shards => exact ⟨shards', .nil shards', hview⟩
  | @cons shards next after step steps frame handled answered kept rest ih =>
      obtain ⟨hnext, hframe⟩ := viewOf_request engine shards ⟨header, step.body⟩
      obtain ⟨hnext', hframe'⟩ := viewOf_request engine shards' ⟨header, step.body⟩
      rw [hview, ← hnext, handled] at hnext'
      rw [hview, ← hframe, handled] at hframe'
      obtain ⟨after', hrest, hafter⟩ := ih hnext'
      refine ⟨after', .cons (Prod.ext rfl hframe') answered (fun herror => ?_) hrest, hafter⟩
      rw [hnext', hview]
      exact kept herror

/-- **Failed entries do not influence the others.** Without the entries that are answered with an
error the remaining ones get the same answers and lead to the same view. -/
theorem InSequence.without_failures {steps : List EntryStep}
    (h : InSequence engine header shards steps after) :
    ∃ after', InSequence engine header shards
        (steps.filter fun step => step.answer.error = noError) after' ∧
      viewOf engine.broker after' = viewOf engine.broker after := by
  induction h with
  | nil shards => exact ⟨shards, .nil shards, rfl⟩
  | @cons shards next after step steps frame handled answered kept rest ih =>
      obtain ⟨after', hrest, hafter⟩ := ih
      by_cases herror : step.answer.error = noError
      · rw [List.filter_cons_of_pos (by simpa using herror)]
        exact ⟨after', .cons handled answered kept hrest, hafter⟩
      · rw [List.filter_cons_of_neg (by simpa using herror)]
        obtain ⟨after'', hrest', hafter'⟩ := hrest.of_viewOf_eq (kept herror).symm
        exact ⟨after'', hrest', hafter'.trans hafter⟩

end Engine

/-! ## The loop over the entries -/

omit [NeZero n] in
/-- A loop over topics and partitions visits the entries in order. -/
theorem sweeps_eachPartition {S α β : Type}
    (serve : S → Fin n → PartitionCommand → S × PartitionResult) (s : S)
    (f : Bytes → α → EngineM n β) (topics : List (Topic α)) :
    ∃ visits, Prog.Sweeps serve (fun entry : Bytes × α => f entry.1 entry.2) s visits
        (Prog.exec serve s (eachPartition topics f)).1 ∧
      visits.map Prod.fst = entriesOf topics ∧
      entriesOf (Prog.exec serve s (eachPartition topics f)).2 =
        visits.map fun visit => (visit.1.1, visit.2) := by
  unfold eachPartition
  induction topics generalizing s with
  | nil => exact ⟨[], .nil s, rfl, rfl⟩
  | cons topic topics ih =>
      obtain ⟨inner, hinner, hentries, hanswers⟩ :=
        Prog.sweeps_mapM serve s (f topic.name) topic.partitions
      rw [List.mapM_cons, Prog.exec_bind, Prog.exec_bind, Prog.exec_bind]
      obtain ⟨outer, houter, hentries', hanswers'⟩ :=
        ih (Prog.exec serve s (topic.partitions.mapM (f topic.name))).1
      have hfirst : Prog.Sweeps serve (fun entry : Bytes × α => f entry.1 entry.2) s
          (inner.map fun visit => ((topic.name, visit.1), visit.2)) _ :=
        Prog.Sweeps.comap (g := fun a => (topic.name, a)) hinner
      refine ⟨_, hfirst.append houter, ?_, ?_⟩
      · rw [entriesOf_cons, ← hentries, List.map_append, hentries', List.map_map, List.map_map]
        rfl
      · refine (entriesOf_cons _ _).trans ?_
        rw [List.map_append, ← hanswers', List.map_map]
        refine congrArg (· ++ _) ?_
        show List.map (Prod.mk topic.name)
          (Prog.exec serve s (topic.partitions.mapM (f topic.name))).2 = _
        rw [← hanswers, List.map_map]
        rfl

/-- What the requests with entries have in common. -/
structure EntryKind (engine : Engine) (n : ℕ) [NeZero n] (header : Header) (α β : Type) where
  /-- The request with these entries. -/
  body : List (Topic α) → RequestBody
  /-- What is done for one entry. -/
  entry : Bytes → α → EngineM n β
  /-- The response frame with these answers. -/
  encode : List (Topic β) → Except Error Bytes
  /-- The answer as it stands in a response. -/
  answer : β → EntryAnswer
  /-- The partition an entry names. -/
  partition : α → Int32
  handles : ∀ topics, engine.handleRequest ⟨header, body topics⟩ =
    (do return encode (← eachPartition topics entry))
  reads : ∀ topics answers frame, encode answers = .ok frame →
    readResponse (body topics) frame = some (header.correlationId, answersAs answer answers)
  encodes_one : ∀ {answers : List (Topic β)} {frame : Bytes}, encode answers = .ok frame →
    ∀ topic ∈ answers, ∀ b ∈ topic.partitions, ∃ single, encode [⟨topic.name, [b]⟩] = .ok single
  keeps : ∀ view name a, (answer (engine.exec view (entry name a)).2).error ≠ noError →
    (engine.exec view (entry name a)).1 = view
  names : ∀ view name a, (answer (engine.exec view (entry name a)).2).partition = partition a

namespace EntryKind

variable {engine : Engine} {header : Header} {α β : Type} (kind : EntryKind engine n header α β)

/-- A request with one entry. -/
theorem handleRequest_one (name : Bytes) (a : α) :
    engine.handleRequest ⟨header, kind.body [⟨name, [a]⟩]⟩ =
      (fun b => kind.encode [⟨name, [b]⟩]) <$> kind.entry name a := by
  rw [kind.handles, map_eq_pure_bind]
  simp only [eachPartition, List.mapM_cons, List.mapM_nil, bind_assoc, pure_bind]

theorem issues_entry (name : Bytes) (a : α) : (kind.entry name a).Issues Routed := by
  have hsends := Engine.handleRequest_sends (n := n) engine ⟨header, kind.body [⟨name, [a]⟩]⟩
  rw [kind.handleRequest_one] at hsends
  refine hsends.of_map.mono fun shard command hcall => ?_
  obtain ⟨call, -, hsend⟩ := hcall
  exact hsend.routed

/-- One entry on the shards is the entry on the view. -/
theorem viewOf_entry (shards : Fin n → Shard) (name : Bytes) (a : α) :
    viewOf engine.broker (Prog.exec (serve engine.broker) shards (kind.entry name a)).1 =
        (engine.exec (viewOf engine.broker shards) (kind.entry name a)).1 ∧
      (Prog.exec (serve engine.broker) shards (kind.entry name a)).2 =
        (engine.exec (viewOf engine.broker shards) (kind.entry name a)).2 := by
  refine Prog.exec_simulates (R := fun shards view => viewOf engine.broker shards = view) ?_
    (kind.issues_entry name a) rfl
  rintro shards _ shard command rfl hrouted
  exact viewOf_serve engine.broker shards hrouted

/-- The step of one visited entry. -/
def step (visit : (Bytes × α) × β) : EntryStep :=
  ⟨kind.body [⟨visit.1.1, [visit.1.2]⟩], visit.1.1, kind.answer visit.2⟩

/-- The entries visited by the loop are handled in sequence as requests of their own. -/
theorem inSequence {visits : List ((Bytes × α) × β)}
    (h : Prog.Sweeps (serve engine.broker) (fun entry : Bytes × α => kind.entry entry.1 entry.2)
      shards visits after)
    (hencodes : ∀ visit ∈ visits, ∃ single, kind.encode [⟨visit.1.1, [visit.2]⟩] = .ok single) :
    engine.InSequence header shards (visits.map kind.step) after := by
  induction h with
  | nil shards => exact .nil shards
  | @cons shards next after entry b visits visit rest ih =>
      obtain ⟨single, hsingle⟩ := hencodes _ List.mem_cons_self
      obtain ⟨hview, hresult⟩ := kind.viewOf_entry shards entry.1 entry.2
      rw [visit] at hview hresult
      have hhandled : engine.request shards ⟨header, (kind.step (entry, b)).body⟩ =
          (next, .ok single) := by
        unfold Engine.request
        show Prog.exec _ shards
          (engine.handleRequest ⟨header, kind.body [⟨entry.1, [entry.2]⟩]⟩) = _
        rw [kind.handleRequest_one, Prog.exec_map, visit, hsingle]
      refine .cons hhandled ?_ (fun herror => ?_)
        (ih fun visit hvisit => hencodes visit (List.mem_cons_of_mem _ hvisit))
      · exact kind.reads _ _ _ hsingle
      · rw [hview]
        refine kind.keeps _ _ _ ?_
        rw [← hresult]
        exact herror

/-- The answers name the partitions of the request, topic by topic. -/
theorem names_eachPartition (shards : Fin n → Shard) (topics : List (Topic α)) :
    ((answersAs kind.answer (Prog.exec (serve engine.broker) shards
        (eachPartition topics kind.entry)).2).map fun topic =>
      (topic.name, topic.partitions.map EntryAnswer.partition)) =
      topics.map fun topic => (topic.name, topic.partitions.map kind.partition) := by
  rw [answersAs, List.map_map]
  refine Prog.map_exec_mapM _ shards topics fun shards topic _ => ?_
  rw [Prog.exec_bind]
  refine congrArg (Prod.mk topic.name) ?_
  show List.map EntryAnswer.partition (List.map kind.answer _) = _
  rw [List.map_map]
  refine Prog.map_exec_mapM _ shards topic.partitions fun shards a _ => ?_
  show (kind.answer _).partition = _
  rw [(kind.viewOf_entry shards topic.name a).2]
  exact kind.names _ _ _

/-- **A request of any kind is the sequence of its entries.** -/
theorem sequence {topics : List (Topic α)} {frame : Bytes}
    (h : engine.request shards ⟨header, kind.body topics⟩ = (after, .ok frame)) :
    ∃ answers steps, readResponse (kind.body topics) frame = some (header.correlationId, answers) ∧
      (answers.map fun topic => (topic.name, topic.partitions.map EntryAnswer.partition)) =
        (topics.map fun topic => (topic.name, topic.partitions.map kind.partition)) ∧
      entriesOf answers = (steps.map fun step => (step.topic, step.answer)) ∧
      (steps.map EntryStep.body) =
        ((entriesOf topics).map fun entry => kind.body [⟨entry.1, [entry.2]⟩]) ∧
      engine.InSequence header shards steps after := by
  unfold Engine.request at h
  rw [kind.handles, Prog.exec_bind] at h
  obtain ⟨hafter, hencode⟩ := Prod.ext_iff.mp h
  obtain ⟨visits, hsweeps, hentries, hanswers⟩ :=
    sweeps_eachPartition (serve engine.broker) shards kind.entry topics
  set answered := (Prog.exec (serve engine.broker) shards (eachPartition topics kind.entry)).2
  refine ⟨_, visits.map kind.step, kind.reads _ _ _ hencode,
    kind.names_eachPartition shards topics, ?_, ?_, ?_⟩
  · rw [entriesOf_answersAs, hanswers, List.map_map, List.map_map]
    rfl
  · rw [← hentries, List.map_map, List.map_map]
    rfl
  · rw [← show _ = after from hafter]
    refine kind.inSequence hsweeps fun visit hvisit => ?_
    have hmem : (visit.1.1, visit.2) ∈ entriesOf answered := by
      rw [hanswers]
      exact List.mem_map_of_mem hvisit
    obtain ⟨topic, htopic, hin⟩ := List.mem_flatMap.mp hmem
    obtain ⟨b, hb, heq⟩ := List.mem_map.mp hin
    obtain ⟨hname, hanswer⟩ := Prod.ext_iff.mp heq
    obtain ⟨single, hsingle⟩ := kind.encodes_one hencode topic htopic b hb
    simp only at hname hanswer
    rw [hname, hanswer] at hsingle
    exact ⟨single, hsingle⟩

end EntryKind

/-! ## The four kinds -/

/-- A response whose body reads back is read as its correlation id and its answers. -/
theorem readResponse_responseFrame {body : RequestBody} {correlationId : Int32} {payload : Bytes}
    {answers : List (Topic EntryAnswer)} (h : Reads (readAnswers body) payload answers) :
    readResponse body (responseFrame correlationId payload) = some (correlationId, answers) := by
  have hreads : Reads (readFrame body) (responseFrame correlationId payload)
      (correlationId, answers) :=
    reads_responseFrame (h.bind_end (Reads.pure _))
  rw [readResponse, hreads.all]

/-- One entry of topics that fit makes a topic that fits. -/
theorem fits_one {α : Type} {V : α → Prop} {topic : Topic α} (h : TopicFits V topic) {entry : α}
    (hentry : entry ∈ topic.partitions) :
    [(⟨topic.name, [entry]⟩ : Topic α)].length ≤ maxArrayLen ∧
      ∀ single ∈ [(⟨topic.name, [entry]⟩ : Topic α)], TopicFits V single := by
  have hone : 1 ≤ maxArrayLen := by decide
  refine ⟨hone, fun single hsingle => ?_⟩
  rw [List.mem_singleton.mp hsingle]
  refine ⟨h.1, hone, fun entry' hentry' => ?_⟩
  rw [List.mem_singleton.mp hentry']
  exact h.2.2 entry hentry

/-- A failed append leaves the view as it was. -/
theorem appendTo_error {config : ShardConfig} {view : View} {key : TopicPartition}
    {append : PartitionLog → PartitionLog × Except LogError Int}
    (happend : ∀ log error, (append log).2 = .error error → (append log).1 = log)
    {error : BrokerError} (h : (view.appendTo config key append).2 = .error error) :
    (view.appendTo config key append).1 = view := by
  unfold View.appendTo at h ⊢
  rcases hcheck : config.catalog.checkPartition key.topic key.partition with error' | ⟨⟩
  · simp only
  · simp only [hcheck] at h ⊢
    rcases hresult : (append (view.logs key)).2 with error' | base
    · rw [happend _ _ hresult, Function.update_eq_self]
    · rw [hresult] at h
      simp [Except.mapError] at h

namespace Engine

variable {engine : Engine} {header : Header}

theorem exists_error_of_produceResult {partition : Int32} {result : Except BrokerError Int}
    (h : (produceResult partition result).error ≠ noError) : ∃ error, result = .error error := by
  rcases result with error | base
  · exact ⟨error, rfl⟩
  · exact absurd rfl h

theorem partition_produceResult (partition : Int32) (result : Except BrokerError Int) :
    (produceResult partition result).partition = partition := by
  rcases result with error | base <;> rfl

theorem exec_producePartition_keeps (view : View) (transactionalId : Option Bytes) (name : Bytes)
    (partition : ProducePartition)
    (h : (engine.exec view
      (engine.producePartition (n := n) transactionalId name partition)).2.error ≠ noError) :
    (engine.exec view (engine.producePartition (n := n) transactionalId name partition)).1 =
      view := by
  unfold producePartition at h ⊢
  split
  · rfl
  · next id producerId producerEpoch hproducer =>
      simp only [hproducer] at h
      rw [exec_attempt] at h ⊢
      obtain ⟨error, herror⟩ := exists_error_of_produceResult h
      rcases hvalid : view.transactions.validateProduce id
        ⟨producerId.toInt, producerEpoch.toInt⟩ name partition.partition.toInt with invalid | ⟨⟩
      · rw [run_produceTransactional_invalid engine.broker view partition.records hvalid]
      · rw [run_produceTransactional engine.broker view partition.records hvalid] at herror ⊢
        exact appendTo_error (fun log _ => PartitionLog.appendBatch_error) herror
  · rw [exec_attempt] at h ⊢
    obtain ⟨error, herror⟩ := exists_error_of_produceResult h
    rw [run_produce] at herror ⊢
    exact appendTo_error (fun log _ => PartitionLog.appendBatch_error) herror

theorem appendTo_transactions (config : ShardConfig) (view : View) (key : TopicPartition)
    (append : PartitionLog → PartitionLog × Except LogError Int) :
    (view.appendTo config key append).1.transactions = view.transactions := by
  unfold View.appendTo
  split <;> rfl

/-- A produce entry leaves the transaction coordinator alone. -/
theorem exec_producePartition_transactions (view : View) (transactionalId : Option Bytes)
    (name : Bytes) (partition : ProducePartition) :
    (engine.exec view (engine.producePartition (n := n) transactionalId name
      partition)).1.transactions = view.transactions := by
  unfold producePartition
  split
  · rfl
  · next id producerId producerEpoch hproducer =>
      rw [exec_attempt]
      rcases hvalid : view.transactions.validateProduce id
        ⟨producerId.toInt, producerEpoch.toInt⟩ name partition.partition.toInt with invalid | ⟨⟩
      · rw [run_produceTransactional_invalid engine.broker view partition.records hvalid]
      · rw [run_produceTransactional engine.broker view partition.records hvalid]
        exact appendTo_transactions _ _ _ _
  · rw [exec_attempt, run_produce]
    exact appendTo_transactions _ _ _ _

theorem partition_exec_producePartition (view : View) (transactionalId : Option Bytes)
    (name : Bytes) (partition : ProducePartition) :
    (engine.exec view
      (engine.producePartition (n := n) transactionalId name partition)).2.partition =
        partition.partition := by
  unfold producePartition
  split
  · rfl
  · rw [exec_attempt]
    exact partition_produceResult _ _
  · rw [exec_attempt]
    exact partition_produceResult _ _

theorem exec_addPartition_keeps (view : View) (transactionalId : Bytes)
    (producer : ProducerIdentity) (topic : Bytes) (partition : Int32)
    (h : (engine.exec view
      (addPartition (n := n) transactionalId producer topic partition)).2.2 ≠ noError) :
    (engine.exec view (addPartition (n := n) transactionalId producer topic partition)).1 =
      view := by
  unfold addPartition at h ⊢
  rw [exec_attempt, run_addTransactionPartition] at h ⊢
  rcases hresult : (view.transactions.addPartition transactionalId producer topic
    partition.toInt).2 with error | ⟨⟩
  · rw [TransactionCoordinator.addPartition_error hresult]
  · rw [hresult] at h
    exact absurd rfl h

/-- Source: `engine.rs`, `produce`. -/
def produceKind (engine : Engine) (n : ℕ) [NeZero n] (header : Header)
    (transactionalId : Option Bytes) (acks : Int16) (timeoutMs : Int32) :
    EntryKind engine n header ProducePartition ProducePartitionResult where
  body := .produce transactionalId acks timeoutMs
  entry := engine.producePartition transactionalId
  encode answers := encodeProduce header.correlationId ⟨answers, 0⟩
  answer := .produced
  partition := ProducePartition.partition
  handles topics := rfl
  reads topics answers frame h := by
    obtain ⟨hfits, rfl⟩ := encodeProduce_eq_ok.mp h
    refine readResponse_responseFrame (Reads.bind_end (a := ⟨answers, 0⟩) ?_ (Reads.pure _))
    exact (reads_topics (fun partition _ => reads_producePartition partition) hfits).bind
      ((reads_i32 _).bind_end (Reads.pure _))
  encodes_one h topic htopic b hb :=
    ⟨_, encodeProduce_eq_ok.mpr ⟨fits_one ((encodeProduce_eq_ok.mp h).1.2 topic htopic) hb, rfl⟩⟩
  keeps view name a h := exec_producePartition_keeps view transactionalId name a h
  names view name a := partition_exec_producePartition view transactionalId name a

/-- Source: `engine.rs`, `fetch`. -/
def fetchKind (engine : Engine) (n : ℕ) [NeZero n] (header : Header)
    (replicaId maxWaitMs minBytes maxBytes : Int32) (readCommitted : Bool) :
    EntryKind engine n header FetchPartition (FetchPartitionResult (List Record)) where
  body := .fetch replicaId maxWaitMs minBytes maxBytes readCommitted
  entry := engine.fetchPartition maxBytes readCommitted
  encode answers := encodeFetch header.correlationId ⟨0, answers⟩
  answer result := .fetched (result.mapRecords recordSet)
  partition := FetchPartition.partition
  handles topics := rfl
  reads topics answers frame h := by
    obtain ⟨hfits, rfl⟩ := encodeFetch_eq_ok.mp h
    have hanswers : answersAs (fun result => .fetched (result.mapRecords recordSet)) answers =
        answersAs .fetched (FetchResponse.onWire ⟨0, answers⟩).topics := by
      simp only [answersAs, FetchResponse.onWire, List.map_map, Function.comp_def]
    rw [hanswers]
    exact readResponse_responseFrame ((reads_fetch hfits).bind_end (Reads.pure _))
  encodes_one h topic htopic b hb :=
    ⟨_, encodeFetch_eq_ok.mpr ⟨fits_one ((encodeFetch_eq_ok.mp h).1.2 topic htopic) hb, rfl⟩⟩
  keeps view name a _ := by
    unfold fetchPartition
    rw [exec_attempt, run_fetchWithIsolation]
  names view name a := by
    unfold fetchPartition
    rw [exec_attempt]
    rcases (view.run engine.broker _).2 with error | window <;> rfl

/-- Source: `engine.rs`, `list_offsets`. -/
def listOffsetsKind (engine : Engine) (n : ℕ) [NeZero n] (header : Header) (replicaId : Int32) :
    EntryKind engine n header ListOffsetsPartition ListOffsetsPartitionResult where
  body := .listOffsets replicaId
  entry := engine.listOffsetsPartition
  encode := encodeListOffsets header.correlationId
  answer := .listed
  partition := ListOffsetsPartition.partition
  handles topics := rfl
  reads topics answers frame h := by
    obtain ⟨hfits, rfl⟩ := encodeListOffsets_eq_ok.mp h
    refine readResponse_responseFrame (Reads.bind_end (a := answers) ?_ (Reads.pure _))
    exact reads_topics (fun partition _ => reads_listOffsetsPartition partition) hfits
  encodes_one h topic htopic b hb :=
    ⟨_, encodeListOffsets_eq_ok.mpr
      ⟨fits_one ((encodeListOffsets_eq_ok.mp h).1.2 topic htopic) hb, rfl⟩⟩
  keeps view name a _ := by
    unfold listOffsetsPartition
    split
    · rw [exec_attempt, run_listOffset]
    · rfl
  names view name a := by
    unfold listOffsetsPartition
    split
    · rw [exec_attempt]
      rcases (view.run engine.broker _).2 with error | offset <;> rfl
    · rfl

/-- Source: `engine.rs`, `add_partitions_to_txn`. -/
def addPartitionsKind (engine : Engine) (n : ℕ) [NeZero n] (header : Header)
    (transactionalId : Bytes) (producerId : Int64) (producerEpoch : Int16) :
    EntryKind engine n header Int32 (Int32 × Int16) where
  body := .addPartitionsToTxn transactionalId producerId producerEpoch
  entry := addPartition transactionalId ⟨producerId.toInt, producerEpoch.toInt⟩
  encode := encodeAddPartitionsToTxn header.correlationId
  answer := .enlisted
  partition := id
  handles topics := rfl
  reads topics answers frame h := by
    obtain ⟨hfits, rfl⟩ := encodeAddPartitionsToTxn_eq_ok.mp h
    refine readResponse_responseFrame (Reads.bind_end (a := (0, answers)) ?_ (Reads.pure _))
    exact (reads_i32 _).bind
      ((reads_topics (fun entry _ => reads_txnPartition entry) hfits).bind_end (Reads.pure _))
  encodes_one h topic htopic b hb :=
    ⟨_, encodeAddPartitionsToTxn_eq_ok.mpr
      ⟨fits_one ((encodeAddPartitionsToTxn_eq_ok.mp h).1.2 topic htopic) hb, rfl⟩⟩
  keeps view name a h := exec_addPartition_keeps view transactionalId _ name a h
  names view name a := by
    unfold addPartition
    rw [exec_attempt]
    rfl

/-- The frame answers the request entry by entry. It carries the request's correlation id and lists
the requested topics and partitions in order; handling the single-entry requests one after another
gives each entry its answer and leads to `after`; and without the entries that are answered with an
error the others get the same answers and lead to the same view. -/
def AnswersInSequence (engine : Engine) (shards : Fin n → Shard) (request : Request)
    (singles : List RequestBody) (after : Fin n → Shard) (frame : Bytes) : Prop :=
  ∃ answers steps,
    readResponse request.body frame = some (request.header.correlationId, answers) ∧
    (answers.map fun topic => (topic.name, topic.partitions.map EntryAnswer.partition)) =
      requestedPartitions request.body ∧
    entriesOf answers = (steps.map fun step => (step.topic, step.answer)) ∧
    (steps.map EntryStep.body) = singles ∧
    engine.InSequence request.header shards steps after ∧
    ∃ after', engine.InSequence request.header shards
        (steps.filter fun step => step.answer.error = noError) after' ∧
      viewOf engine.broker after' = viewOf engine.broker after

theorem answersInSequence_of_kind {α β : Type} (kind : EntryKind engine n header α β)
    {topics : List (Topic α)} {frame : Bytes} (hrequested : requestedPartitions (kind.body topics) =
      (topics.map fun topic => (topic.name, topic.partitions.map kind.partition)))
    (h : engine.request shards ⟨header, kind.body topics⟩ = (after, .ok frame)) :
    engine.AnswersInSequence shards ⟨header, kind.body topics⟩
      ((entriesOf topics).map fun entry => kind.body [⟨entry.1, [entry.2]⟩]) after frame := by
  obtain ⟨answers, steps, hread, hnames, hentries, hbodies, hsequence⟩ := kind.sequence h
  exact ⟨answers, steps, hread, hnames.trans hrequested.symm, hentries, hbodies, hsequence,
    hsequence.without_failures⟩

/-- **A multi-entry request is the sequence of its entries.** From any shards, with no other client
and no mailbox failure, a Produce, Fetch, ListOffsets or AddPartitionsToTxn request that is answered
is answered entry by entry. -/
theorem request_inSequence (engine : Engine) (shards : Fin n → Shard) (request : Request)
    {singles : List RequestBody} (hsingles : singleEntries request.body = some singles)
    {after : Fin n → Shard} {frame : Bytes}
    (h : engine.request shards request = (after, .ok frame)) :
    engine.AnswersInSequence shards request singles after frame := by
  obtain ⟨header, body⟩ := request
  cases body with
  | produce transactionalId acks timeoutMs topics =>
      rw [← Option.some.inj hsingles]
      exact answersInSequence_of_kind (engine.produceKind n header transactionalId acks timeoutMs)
        rfl h
  | fetch replicaId maxWaitMs minBytes maxBytes readCommitted topics =>
      rw [← Option.some.inj hsingles]
      exact answersInSequence_of_kind (engine.fetchKind n header replicaId maxWaitMs minBytes
        maxBytes readCommitted) rfl h
  | listOffsets replicaId topics =>
      rw [← Option.some.inj hsingles]
      exact answersInSequence_of_kind (engine.listOffsetsKind n header replicaId) rfl h
  | addPartitionsToTxn transactionalId producerId producerEpoch topics =>
      rw [← Option.some.inj hsingles]
      refine answersInSequence_of_kind
        (engine.addPartitionsKind n header transactionalId producerId producerEpoch) ?_ h
      simp [requestedPartitions, addPartitionsKind]
  | _ => simp [singleEntries] at hsingles

/-- A produce request with a known partition, an unknown one, and the known one again. -/
def threeEntries : Request :=
  ⟨⟨0, 3, 7, none⟩, .produce none 1 0
    [⟨[116], [⟨0, [⟨1, none, some [97]⟩], none⟩, ⟨5, [⟨2, none, some [98]⟩], none⟩]⟩,
      ⟨[116], [⟨0, [⟨3, none, some [99]⟩], none⟩]⟩]⟩

/-- The request is answered, by the frame that answers its three entries in sequence. -/
theorem request_inSequence_three :
    ∃ singles after frame, singleEntries threeEntries.body = some singles ∧
      oneTopicEngine.request (startShards 2) threeEntries = (after, .ok frame) ∧
      oneTopicEngine.AnswersInSequence (startShards 2) threeEntries singles after frame := by
  have hok : (oneTopicEngine.request (startShards 2) threeEntries).2.isOk = true := by
    decide
  rcases hrequest : oneTopicEngine.request (startShards 2) threeEntries with ⟨after, _ | frame⟩
  · rw [hrequest] at hok
    simp [Except.isOk, Except.toBool] at hok
  · exact ⟨_, after, frame, rfl, rfl, request_inSequence _ _ _ rfl hrequest⟩

end Engine

end CharlotteBroker
