import CharlotteBroker.Engine.Atomicity
import CharlotteBroker.Engine.Entries
import CharlotteBroker.Wire.Sizes

/-!
# Unknown partitions

Five kinds of requests name partitions that may not exist. `RefusesUnknown` says that every entry
that names one is answered with `UNKNOWN_TOPIC_OR_PARTITION` and changes nothing.

* Produce without a transactional id, Fetch and ListOffsets check the catalog before any message is
  sent: the program of such an entry is the refusal itself (`producePartition_unknown` and its
  siblings).
* AddPartitionsToTxn and OffsetCommit go to the coordinators, which do not see the catalog, and
  never answer with this code (`code_addPartition_ne`, `resultCode_coordination_ne`).

So a request with an unknown entry refuses it exactly when it is of the first three kinds and is
answered at all, which only a fetch of too many bytes is not (`refusesUnknown_iff`).
-/

namespace CharlotteBroker

open Std CharlotteBroker.Core Lib Lib.Parser CharlotteBroker.Runtime Wire

variable {n : ℕ} [NeZero n]

variable {name : Bytes} {partition : Int32}

/-! ## Entries that name unknown partitions -/

/-- The entries of a request of the five kinds, each as a request of its own. -/
def entryRequests (body : RequestBody) : List RequestBody :=
  match body with
  | .offsetCommit _ _ _ _ _ _ => [body]
  | _ => (singleEntries body).getD []

/-- The catalog does not know the partition. -/
def Core.TopicCatalog.misses (catalog : TopicCatalog) (topic : Bytes) (partition : Int32) : Bool :=
  !(catalog.checkPartition topic partition.toInt).isOk

/-- The single-entry request names a partition the catalog does not know. -/
def namesUnknown (catalog : TopicCatalog) : RequestBody → Bool
  | .produce none _ _ [⟨name, [partition]⟩] => catalog.misses name partition.partition
  | .fetch _ _ _ _ _ [⟨name, [partition]⟩] => catalog.misses name partition.partition
  | .listOffsets _ [⟨name, [partition]⟩] =>
      (partition.timestamp = -2 || partition.timestamp = -1) &&
        catalog.misses name partition.partition
  | .addPartitionsToTxn _ _ _ [⟨name, [partition]⟩] => catalog.misses name partition
  | .offsetCommit _ _ _ topic partition _ => catalog.misses topic partition
  | _ => false

theorem Core.TopicCatalog.misses_iff {catalog : TopicCatalog} {topic : Bytes} :
    catalog.misses topic partition = true ↔
      ∃ error, catalog.checkPartition topic partition.toInt = .error error ∧
        errorCode (.core error) = unknownTopicOrPartition := by
  unfold TopicCatalog.misses TopicCatalog.checkPartition
  rcases catalog.partitionCount topic with _ | count
  · exact ⟨fun _ => ⟨_, rfl, rfl⟩, fun _ => rfl⟩
  · by_cases hrange : (partition.toInt < 0 || partition.toInt ≥ count) = true
    · simp only [hrange, if_true]
      exact ⟨fun _ => ⟨_, rfl, rfl⟩, fun _ => rfl⟩
    · simp only [hrange]
      simp [Except.isOk, Except.toBool]

/-- The error codes of a response, entry by entry. -/
def responseCodes (body : RequestBody) (frame : Bytes) : Option (List Int16) :=
  (readResponse body frame).map fun response =>
    (entriesOf response.2).map fun entry => entry.2.error

namespace Engine

variable {engine : Engine} {header : Header}

/-- The shards after some requests handled one after another. -/
def requests (engine : Engine) (header : Header) (shards : Fin n → Shard)
    (bodies : List RequestBody) : Fin n → Shard :=
  bodies.foldl (fun shards body => (engine.request shards ⟨header, body⟩).1) shards

/-- Every entry that names an unknown partition is answered with `UNKNOWN_TOPIC_OR_PARTITION` in the
response to the request, and changes nothing of the logs, the transactions and the groups where the
request comes to it. -/
def RefusesUnknown (engine : Engine) (shards : Fin n → Shard) (request : Request) : Prop :=
  ∀ before body after, entryRequests request.body = before ++ body :: after →
    namesUnknown engine.broker.catalog body = true →
    (∃ frame codes, (engine.request shards request).2 = .ok frame ∧
      responseCodes request.body frame = some codes ∧
      codes[before.length]? = some unknownTopicOrPartition) ∧
    viewOf engine.broker
        (engine.request (engine.requests request.header shards before) ⟨request.header, body⟩).1 =
      viewOf engine.broker (engine.requests request.header shards before)

/-- The requests that check the catalog. -/
def ChecksCatalog : RequestBody → Prop
  | .produce none _ _ _ | .fetch _ _ _ _ _ _ | .listOffsets _ _ => True
  | _ => False

/-- The records a fetch selects for each of its entries can be returned as one batch. -/
def FetchFits (engine : Engine) (view : View) : RequestBody → Prop
  | .fetch _ _ _ maxBytes readCommitted topics =>
      ∀ topic ∈ topics, ∀ partition ∈ topic.partitions,
        let records := (engine.fetchAnswer view maxBytes readCommitted topic.name partition).records
        records.length ≤ maxRecords ∧ recordSetSize records ≤ maxFrameLen
  | _ => True

/-! ## What is answered -/

theorem producePartition_unknown {partition : ProducePartition}
    (h : engine.broker.catalog.misses name partition.partition = true) :
    engine.producePartition (n := n) none name partition =
      .ret ⟨partition.partition, unknownTopicOrPartition, -1, -1⟩ := by
  obtain ⟨error, hcheck, hcode⟩ := TopicCatalog.misses_iff.mp h
  rw [← hcode]
  unfold producePartition Runtime.produce
  rw [hcheck]
  rfl

theorem fetchPartition_unknown {maxBytes : Int32} {readCommitted : Bool}
    {partition : FetchPartition} (h : engine.broker.catalog.misses name partition.partition = true) :
    engine.fetchPartition (n := n) maxBytes readCommitted name partition =
      .ret ⟨partition.partition, unknownTopicOrPartition, -1, -1, none, []⟩ := by
  obtain ⟨error, hcheck, hcode⟩ := TopicCatalog.misses_iff.mp h
  rw [← hcode]
  unfold fetchPartition Runtime.fetchWithIsolation
  rw [hcheck]
  rfl

theorem listOffsetsPartition_unknown {partition : ListOffsetsPartition}
    (htime : partition.timestamp = -2 ∨ partition.timestamp = -1)
    (h : engine.broker.catalog.misses name partition.partition = true) :
    engine.listOffsetsPartition (n := n) name partition =
      .ret ⟨partition.partition, unknownTopicOrPartition, -1, -1⟩ := by
  obtain ⟨error, hcheck, hcode⟩ := TopicCatalog.misses_iff.mp h
  rw [← hcode]
  unfold listOffsetsPartition Runtime.listOffset
  rw [if_pos htime, hcheck]
  rfl

/-- The coordinators' results never become this code. -/
theorem resultCode_coordination_ne (result : Except CoordinationError Unit) :
    resultCode (result.mapError BrokerError.coordination) ≠ unknownTopicOrPartition := by
  rcases result with error | value
  · cases error <;> decide
  · cases value
    decide

theorem code_addPartition_ne (view : View) (transactionalId : Bytes) (producer : ProducerIdentity)
    (topic : Bytes) (partition : Int32) :
    (engine.exec view (addPartition (n := n) transactionalId producer topic partition)).2.2 ≠
      unknownTopicOrPartition := by
  unfold addPartition
  rw [exec_attempt, run_addTransactionPartition]
  exact resultCode_coordination_ne _

/-! ## Places in a response -/

/-- The step at one place, from the shards the steps before it lead to. -/
theorem InSequence.at_place {shards after : Fin n → Shard} {before steps : List EntryStep}
    {step : EntryStep} (h : engine.InSequence header shards (before ++ step :: steps) after) :
    ∃ next frame,
      engine.request (engine.requests header shards (before.map EntryStep.body))
        ⟨header, step.body⟩ = (next, .ok frame) ∧
      readResponse step.body frame =
        some (header.correlationId, [⟨step.topic, [step.answer]⟩]) := by
  induction before generalizing shards with
  | nil =>
      rcases h with _ | ⟨handled, answered, -, -⟩
      exact ⟨_, _, handled, answered⟩
  | cons first before ih =>
      rcases h with _ | ⟨handled, answered, -, rest⟩
      have hplace := ih rest
      rw [List.map_cons, requests, List.foldl_cons, handled]
      exact hplace

end Engine

namespace EntryKind

variable {engine : Engine} {header : Header} {α β : Type} (kind : EntryKind engine n header α β)

/-- An entry as a request of its own. -/
def single (entry : Bytes × α) : RequestBody := kind.body [⟨entry.1, [entry.2]⟩]

/-- **What stands at a place.** In the response to an answered request, the code at the place of an
entry is that of the entry, visited where the request comes to it. -/
theorem code_at_place {shards after : Fin n → Shard} {topics : List (Topic α)}
    {before rest : List (Bytes × α)} {a : α} {frame : Bytes}
    (hplace : entriesOf topics = before ++ (name, a) :: rest)
    (h : engine.request shards ⟨header, kind.body topics⟩ = (after, .ok frame)) :
    ∃ codes, responseCodes (kind.body topics) frame = some codes ∧
      codes[before.length]? = some (kind.answer (Prog.exec (serve engine.broker)
        (engine.requests header shards (before.map kind.single)) (kind.entry name a)).2).error := by
  obtain ⟨answers, steps, hread, -, hentries, hbodies, hsequence⟩ := kind.sequence h
  rw [hplace, List.map_append, List.map_cons] at hbodies
  obtain ⟨first, others, rfl, hfirst, hothers⟩ := List.map_eq_append_iff.mp hbodies
  obtain ⟨step, last, rfl, hstep, -⟩ := List.map_eq_cons_iff.mp hothers
  obtain ⟨next, single, hhandled, hanswered⟩ := hsequence.at_place
  have hlength : first.length = before.length := by
    simpa only [List.length_map] using congrArg List.length hfirst
  refine ⟨(entriesOf answers).map fun entry => entry.2.error, ?_, ?_⟩
  · rw [responseCodes, hread]
    rfl
  · -- the response of the single-entry request carries the entry's own answer
    rw [hfirst, hstep] at hhandled
    rw [hstep] at hanswered
    have hsingle := congrArg Prod.snd hhandled
    unfold Engine.request at hsingle
    rw [kind.handleRequest_one, Prog.exec_map] at hsingle
    have hreads := kind.reads [⟨name, [a]⟩] _ _ hsingle
    rw [hanswered] at hreads
    simp only [answersAs, List.map_cons, List.map_nil, Option.some.injEq, Prod.mk.injEq,
      List.cons.injEq, Topic.mk.injEq, and_true, true_and] at hreads
    rw [hentries, ← hlength]
    simp [hreads.2]
    rfl

/-- A request of one entry, on the view. -/
theorem viewOf_single (shards : Fin n → Shard) (entry : Bytes × α) :
    viewOf engine.broker (engine.request shards ⟨header, kind.single entry⟩).1 =
      (engine.exec (viewOf engine.broker shards) (kind.entry entry.1 entry.2)).1 := by
  unfold Engine.request
  show viewOf _ (Prog.exec _ _
    (engine.handleRequest ⟨header, kind.body [⟨entry.1, [entry.2]⟩]⟩)).1 = _
  rw [kind.handleRequest_one, Prog.exec_map, (kind.viewOf_entry shards entry.1 entry.2).1]

/-- What every entry keeps holds wherever the request comes to. -/
theorem viewOf_requests_preserves {P : View → Prop}
    (hkeeps : ∀ view name a, P view → P (engine.exec view (kind.entry name a)).1)
    {shards : Fin n → Shard} (h : P (viewOf engine.broker shards))
    (entries : List (Bytes × α)) :
    P (viewOf engine.broker (engine.requests header shards (entries.map kind.single))) := by
  induction entries generalizing shards with
  | nil => exact h
  | cons entry entries ih =>
      rw [List.map_cons, Engine.requests, List.foldl_cons]
      apply ih
      rw [kind.viewOf_single]
      exact hkeeps _ _ _ h

/-- **The code of an entry** that is the same in every view the request may come to it in. -/
theorem code_of_entry {shards : Fin n → Shard} {topics : List (Topic α)}
    {before rest : List (Bytes × α)} {a : α} {frame : Bytes} {P : View → Prop} {code : Int16}
    (hkeeps : ∀ view name a, P view → P (engine.exec view (kind.entry name a)).1)
    (hstart : P (viewOf engine.broker shards))
    (hcode : ∀ view, P view → (kind.answer (engine.exec view (kind.entry name a)).2).error = code)
    (hplace : entriesOf topics = before ++ (name, a) :: rest)
    (h : (engine.request shards ⟨header, kind.body topics⟩).2 = .ok frame) :
    ∃ codes, responseCodes (kind.body topics) frame = some codes ∧
      codes[before.length]? = some code := by
  obtain ⟨codes, hcodes, hat⟩ := kind.code_at_place hplace (Prod.ext rfl h)
  rw [(kind.viewOf_entry _ name a).2,
    hcode _ (kind.viewOf_requests_preserves hkeeps hstart before)] at hat
  exact ⟨codes, hcodes, hat⟩

section Refusing

variable {topics : List (Topic α)}
  (hentries : entryRequests (kind.body topics) = (entriesOf topics).map kind.single)
include hentries

/-- A kind whose unknown entries are the refusal itself refuses them all, if it is answered. -/
theorem refusesUnknown {shards : Fin n → Shard}
    (hrefuse : ∀ name a, namesUnknown engine.broker.catalog (kind.single (name, a)) = true →
      ∃ b, kind.entry name a = .ret b ∧ (kind.answer b).error = unknownTopicOrPartition)
    (hanswered : ∃ frame, (engine.request shards ⟨header, kind.body topics⟩).2 = .ok frame) :
    engine.RefusesUnknown shards ⟨header, kind.body topics⟩ := by
  intro before body after hsplit hunknown
  obtain ⟨frame, hframe⟩ := hanswered
  rw [hentries] at hsplit
  obtain ⟨first, others, hplace, rfl, hothers⟩ := List.map_eq_append_iff.mp hsplit
  obtain ⟨⟨name, a⟩, last, rfl, rfl, -⟩ := List.map_eq_cons_iff.mp hothers
  obtain ⟨b, hentry, herror⟩ := hrefuse name a hunknown
  constructor
  · obtain ⟨codes, hcodes, hcode⟩ := kind.code_at_place hplace (Prod.ext rfl hframe)
    rw [hentry, Prog.exec_ret, herror] at hcode
    refine ⟨frame, codes, hframe, hcodes, ?_⟩
    rw [List.length_map]
    exact hcode
  · rw [kind.viewOf_single, hentry]
    rfl

/-- A kind that never answers with this code does not refuse an unknown entry. -/
theorem not_refusesUnknown {shards : Fin n → Shard}
    (hcode : ∀ shards name a, (kind.answer
      (Prog.exec (serve engine.broker) shards (kind.entry name a)).2).error ≠
        unknownTopicOrPartition)
    (hunknown : ∃ body ∈ entryRequests (kind.body topics),
      namesUnknown engine.broker.catalog body = true) :
    ¬ engine.RefusesUnknown shards ⟨header, kind.body topics⟩ := by
  intro hrefuses
  obtain ⟨body, hbody, hunknown⟩ := hunknown
  obtain ⟨before, after, hsplit⟩ := List.append_of_mem hbody
  obtain ⟨⟨frame, codes, hframe, hcodes, hat⟩, -⟩ := hrefuses before body after hsplit hunknown
  rw [hentries] at hsplit
  obtain ⟨first, others, hplace, rfl, hothers⟩ := List.map_eq_append_iff.mp hsplit
  obtain ⟨⟨name, a⟩, last, rfl, rfl, -⟩ := List.map_eq_cons_iff.mp hothers
  obtain ⟨codes', hcodes', hat'⟩ := kind.code_at_place hplace (Prod.ext rfl hframe)
  rw [hcodes, Option.some.injEq] at hcodes'
  rw [← hcodes', ← List.length_map (f := kind.single), hat, Option.some.injEq] at hat'
  exact hcode _ _ _ hat'.symm

end Refusing

end EntryKind

/-! ## Which requests refuse -/

namespace Engine

variable {engine : Engine} {header : Header} {shards : Fin n → Shard}

theorem refusesUnknown_of_known {request : Request}
    (h : ∀ body ∈ entryRequests request.body,
      namesUnknown engine.broker.catalog body = false) : engine.RefusesUnknown shards request := by
  intro before body after hsplit hunknown
  have hknown := h body (by rw [hsplit]; simp)
  rw [hunknown] at hknown
  exact absurd hknown (by decide)

/-- A fetch is answered exactly if what it selects for each entry can be returned. -/
theorem fetch_answered_iff_fits {replicaId maxWaitMs minBytes maxBytes : Int32}
    {readCommitted : Bool} {topics : List (Topic FetchPartition)}
    (hshape : ShapeFits (shape topics)) :
    (∃ frame, (engine.request shards ⟨header,
        .fetch replicaId maxWaitMs minBytes maxBytes readCommitted topics⟩).2 = .ok frame) ↔
      engine.FetchFits (viewOf engine.broker shards)
        (.fetch replicaId maxWaitMs minBytes maxBytes readCommitted topics) := by
  obtain ⟨hlen, hall⟩ := fits_of_shape hshape
  have hresult : (engine.request shards ⟨header,
      .fetch replicaId maxWaitMs minBytes maxBytes readCommitted topics⟩).2 = _ :=
    (viewOf_request engine shards _).2.trans (congrArg Prod.snd (exec_fetch _ _ _ _ _))
  rw [hresult]
  simp only [encodeFetch_eq_ok, exists_and_left, exists_eq, and_true, List.length_map,
    List.forall_mem_map]
  constructor
  · rintro ⟨-, hfits⟩ topic htopic partition hpartition
    obtain ⟨-, -, hpartitions⟩ := hfits topic htopic
    obtain ⟨-, hcount, hsize⟩ := hpartitions _ (List.mem_map_of_mem hpartition)
    rw [length_recordSet] at hsize
    exact ⟨hcount, hsize⟩
  · intro hfits
    refine ⟨hlen, fun topic htopic => ⟨(hall topic htopic).1, ?_, fun answer hanswer => ?_⟩⟩
    · rw [List.length_map]
      exact (hall topic htopic).2.1
    · obtain ⟨partition, hpartition, rfl⟩ := List.mem_map.mp hanswer
      obtain ⟨hcount, hsize⟩ := hfits topic htopic partition hpartition
      rw [← length_recordSet] at hsize
      refine ⟨fun entries haborted => ?_, hcount, hsize⟩
      have hnone : (engine.fetchAnswer (viewOf engine.broker shards) maxBytes readCommitted
          topic.name partition).abortedTransactions = none := by
        unfold fetchAnswer fetchResult
        split <;> rfl
      rw [hnone] at haborted
      exact absurd haborted (by simp)

/-- An offset commit is answered with the coordinator's code. -/
theorem responseCodes_offsetCommit {groupId memberId topic : Bytes} {generation : Int32}
    {offset : Int64} {frame : Bytes} (h : (engine.request shards ⟨header,
      .offsetCommit groupId generation memberId topic partition offset⟩).2 = .ok frame) :
    ∃ code, code ≠ unknownTopicOrPartition ∧ responseCodes
      (.offsetCommit groupId generation memberId topic partition offset) frame = some [code] := by
  rw [(viewOf_request engine shards _).2] at h
  have hexec := congrArg Prod.snd (@exec_offsetCommit n _ engine (viewOf engine.broker shards)
    header.correlationId groupId generation topic partition offset)
  obtain ⟨hfits, rfl⟩ := encodeOffsetCommit_eq_ok.mp (hexec.symm.trans h)
  refine ⟨_, resultCode_coordination_ne ((viewOf engine.broker shards).groups.commitOffset groupId
    generation.toInt topic partition.toInt offset.toInt).2, ?_⟩
  generalize resultCode _ = code
  have hreads : Reads (readAnswers (.offsetCommit groupId generation memberId topic partition
      offset)) (offsetCommitBody topic partition code)
      [⟨topic, [.committed (partition, code)]⟩] := by
    refine Reads.bind_end (a := [⟨topic, [(partition, code)]⟩]) ?_ (Reads.pure _)
    exact reads_one ((reads_string hfits).bind
      ((reads_one (reads_txnPartition (partition, code))).bind_end (Reads.pure _)))
  rw [responseCodes, readResponse_responseFrame hreads]
  rfl

/-- A produce is always answered. -/
theorem produce_answered {transactionalId : Option Bytes} {acks : Int16} {timeoutMs : Int32}
    {topics : List (Topic ProducePartition)} (hshape : ShapeFits (shape topics)) :
    ∃ frame, (engine.request shards ⟨header, .produce transactionalId acks timeoutMs topics⟩).2 =
      .ok frame := by
  rw [(viewOf_request engine shards _).2]
  refine answered_eachPartition _ _ fun answered hsame => ?_
  rw [← hsame] at hshape
  exact ⟨_, encodeProduce_eq_ok.mpr ⟨fits_of_shape hshape, rfl⟩⟩

/-- An AddPartitionsToTxn request whose topics fit a response is answered. -/
theorem addPartitions_answered {transactionalId : Bytes} {producerId : Int64}
    {producerEpoch : Int16} {topics : List (Topic Int32)} (hshape : ShapeFits (shape topics)) :
    ∃ frame, (engine.request shards
      ⟨header, .addPartitionsToTxn transactionalId producerId producerEpoch topics⟩).2 =
        .ok frame := by
  rw [(viewOf_request engine shards _).2]
  refine answered_eachPartition _ _ fun answered hsame => ?_
  rw [← hsame] at hshape
  exact ⟨_, encodeAddPartitionsToTxn_eq_ok.mpr ⟨fits_of_shape hshape, rfl⟩⟩

/-- A Produce request outside a transaction refuses its entries for unknown partitions. -/
theorem refusesUnknown_produce {acks : Int16} {timeoutMs : Int32}
    {topics : List (Topic ProducePartition)} (hshape : ShapeFits (shape topics)) :
    engine.RefusesUnknown shards ⟨header, .produce none acks timeoutMs topics⟩ :=
  (engine.produceKind n header none acks timeoutMs).refusesUnknown rfl
    (fun _ _ h => ⟨_, producePartition_unknown h, rfl⟩) (produce_answered hshape)

/-- A ListOffsets request refuses its entries for unknown partitions. -/
theorem refusesUnknown_listOffsets {replicaId : Int32}
    {topics : List (Topic ListOffsetsPartition)} (hshape : ShapeFits (shape topics)) :
    engine.RefusesUnknown shards ⟨header, .listOffsets replicaId topics⟩ := by
  refine (engine.listOffsetsKind n header replicaId).refusesUnknown rfl (fun name a h => ?_) ?_
  · obtain ⟨htime, hmiss⟩ := Bool.and_eq_true_iff.mp h
    exact ⟨_, listOffsetsPartition_unknown (by simpa using htime) hmiss, rfl⟩
  · rw [(viewOf_request engine shards _).2]
    refine answered_eachPartition _ _ fun answered hsame => ?_
    rw [← hsame] at hshape
    exact ⟨_, encodeListOffsets_eq_ok.mpr ⟨fits_of_shape hshape, rfl⟩⟩

theorem not_refusesUnknown_offsetCommit {groupId memberId topic : Bytes} {generation : Int32}
    {offset : Int64} (hnames : namesUnknown engine.broker.catalog
      (.offsetCommit groupId generation memberId topic partition offset) = true) :
    ¬ engine.RefusesUnknown shards
      ⟨header, .offsetCommit groupId generation memberId topic partition offset⟩ := by
  intro hrefuses
  obtain ⟨⟨frame, codes, hframe, hcodes, hat⟩, -⟩ := hrefuses [] _ [] rfl hnames
  obtain ⟨code, hne, hcode⟩ := responseCodes_offsetCommit hframe
  rw [hcodes, Option.some.injEq] at hcode
  rw [hcode] at hat
  exact hne (Option.some.inj hat)

/-- **Which requests refuse unknown partitions.** From any shards, a decoded request answers every
entry that names an unknown partition with `UNKNOWN_TOPIC_OR_PARTITION`, changing nothing, exactly
when it has no such entry, or it is one of the kinds that check the catalog and is answered: a
produce without a transactional id, a list-offsets, or a fetch whose records can be returned. -/
theorem refusesUnknown_iff (engine : Engine) (shards : Fin n → Shard) {frame : Bytes}
    {request : Request} (hdecode : decodeRequest frame = .ok request) :
    engine.RefusesUnknown shards request ↔
      (∀ body ∈ entryRequests request.body,
        namesUnknown engine.broker.catalog body = false) ∨
      ChecksCatalog request.body ∧
        engine.FetchFits (viewOf engine.broker shards) request.body := by
  have hbounded := decodeRequest_bounded hdecode
  obtain ⟨header, body⟩ := request
  by_cases hknown : ∀ single ∈ entryRequests body,
      namesUnknown engine.broker.catalog single = false
  · exact iff_of_true (refusesUnknown_of_known hknown) (Or.inl hknown)
  · have hunknown : ∃ single ∈ entryRequests body,
        namesUnknown engine.broker.catalog single = true := by
      simpa using hknown
    rw [or_iff_right hknown]
    cases body with
    | produce transactionalId acks timeoutMs topics =>
        rcases transactionalId with _ | id
        · exact iff_of_true (refusesUnknown_produce hbounded.1) ⟨trivial, trivial⟩
        · obtain ⟨single, hsingle, hnames⟩ := hunknown
          obtain ⟨entry, -, rfl⟩ := List.mem_map.mp hsingle
          exact absurd hnames (by simp [namesUnknown])
    | fetch replicaId maxWaitMs minBytes maxBytes readCommitted topics =>
        have hfits := @fetch_answered_iff_fits n _ engine header shards replicaId maxWaitMs minBytes
          maxBytes readCommitted topics (shapeFits_of_validTopics hbounded.2)
        constructor
        · intro hrefuses
          obtain ⟨single, hsingle, hnames⟩ := hunknown
          obtain ⟨before, after, hsplit⟩ := List.append_of_mem hsingle
          obtain ⟨⟨frame, -, hframe, -⟩, -⟩ := hrefuses before single after hsplit hnames
          exact ⟨trivial, hfits.mp ⟨frame, hframe⟩⟩
        · rintro ⟨-, hselected⟩
          exact (engine.fetchKind n header replicaId maxWaitMs minBytes maxBytes
            readCommitted).refusesUnknown rfl
              (fun name a h => ⟨_, fetchPartition_unknown h, rfl⟩) (hfits.mpr hselected)
    | listOffsets replicaId topics =>
        have hshape := shapeFits_of_validTopics hbounded
        exact iff_of_true (refusesUnknown_listOffsets hshape) ⟨trivial, trivial⟩
    | addPartitionsToTxn transactionalId producerId producerEpoch topics =>
        refine iff_of_false ?_ fun h => h.1
        refine (engine.addPartitionsKind n header transactionalId producerId
          producerEpoch).not_refusesUnknown rfl (fun shards name a => ?_) hunknown
        rw [((engine.addPartitionsKind n header transactionalId producerId
          producerEpoch).viewOf_entry shards name a).2]
        exact code_addPartition_ne _ _ _ _ _
    | offsetCommit groupId generation memberId topic partition offset =>
        obtain ⟨single, hsingle, hnames⟩ := hunknown
        rw [List.mem_singleton.mp hsingle] at hnames
        exact iff_of_false (not_refusesUnknown_offsetCommit hnames) fun h => h.1
    | _ =>
        obtain ⟨single, hsingle, -⟩ := hunknown
        exact absurd hsingle List.not_mem_nil

/-- A request of this body, with an empty header otherwise. -/
def bare (body : RequestBody) : Request := ⟨⟨body.api.key, body.api.version, 0, none⟩, body⟩

/-- A question for the latest offset of a partition that does not exist. -/
def latestUnknown : Request := bare (.listOffsets (-1) [⟨[116], [⟨5, -1⟩]⟩])

theorem refusesUnknown_latest :
    decodeRequest latestUnknown.ser = .ok latestUnknown ∧
      namesUnknown oneTopic.catalog latestUnknown.body = true ∧
      oneTopicEngine.RefusesUnknown (startShards 2) latestUnknown := by
  have hdecode : decodeRequest latestUnknown.ser = .ok latestUnknown := by decide
  exact ⟨hdecode, by decide,
    (refusesUnknown_iff oneTopicEngine (startShards 2) hdecode).mpr (Or.inr ⟨trivial, trivial⟩)⟩

/-- The enlistment of a partition that does not exist, by the first producer. -/
def enlistUnknown : Request := bare (.addPartitionsToTxn [120] 1 0 [⟨[116], [5]⟩])

/-- A broker at which a producer has been initialised. -/
def initialised : Fin 2 → Shard :=
  oneTopicEngine.after 2 [(bare (.initProducerId (some [120]) 0)).ser]

/-- The unknown partition is enlisted and the answer is `NO_ERROR`. -/
theorem not_refusesUnknown_enlist :
    decodeRequest enlistUnknown.ser = .ok enlistUnknown ∧
      namesUnknown oneTopic.catalog enlistUnknown.body = true ∧
      (oneTopicEngine.request initialised enlistUnknown).2.toOption.bind
        (responseCodes enlistUnknown.body) = some [noError] ∧
      (((oneTopicEngine.request initialised enlistUnknown).1 0).transactions.transactions[
        ([120] : Bytes)]?.any fun transaction => transaction.partitions.contains ⟨[116], 5⟩) = true ∧
      ¬ oneTopicEngine.RefusesUnknown initialised enlistUnknown := by
  have hcodes : (oneTopicEngine.request initialised enlistUnknown).2.toOption.bind
      (responseCodes enlistUnknown.body) = some [noError] := by decide
  refine ⟨by decide, by decide, hcodes, by decide, fun hrefuses => ?_⟩
  obtain ⟨⟨frame, codes, hframe, hread, hat⟩, -⟩ :=
    hrefuses [] enlistUnknown.body [] rfl (by decide)
  rw [hframe] at hcodes
  have hsame : codes = [noError] := Option.some.inj (hread.symm.trans hcodes)
  rw [hsame] at hat
  exact absurd hat (by decide)

end Engine

end CharlotteBroker
