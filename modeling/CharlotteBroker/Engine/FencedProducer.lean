import CharlotteBroker.Core.Epochs
import CharlotteBroker.Engine.TransactionalBit

/-!
# What a fenced producer is told

A producer whose identity is not the current one of its transactional id is refused by every
operation of the coordinator, with the same error (`TransactionCoordinator.fenced_of_ne`). What the
client gets to read depends on the API, since the handlers map errors to codes differently:
`add_partitions_to_txn` and `end_txn` map the coordinator's errors (`coordination_error_code`),
while `produce` maps the log's (`error_code`) and reports any other as `UNKNOWN_SERVER_ERROR`.

* `fenced_told`: the codes on the three APIs, for every request and every entry of it, and that the
  refused entries change nothing.
* `produce_not_told`: after a second initialisation, a produce under the old identity.
-/

namespace CharlotteBroker

open Std CharlotteBroker.Core Lib Lib.Parser Lib.Rpc CharlotteBroker.Runtime Wire

variable {n : ℕ} [NeZero n]

/-! ## Statements -/

/-- The body of an `EndTxn` response is a throttle time and the code. -/
def readEndTxn : Decoder Int16 := readResponseFrame fun _ => do
  let _throttleTimeMs ← Decoder.i32
  Decoder.i16

/-- The code in an `EndTxn` response. -/
def endTxnCode (response : Bytes) : Except Error Int16 := Prod.fst <$> readEndTxn.run response

theorem endTxnCode_responseFrame (correlationId : Int32) (code : Int16) :
    endTxnCode (responseFrame correlationId (endTxnBody code)) = .ok code := by
  have hreads : Reads readEndTxn (responseFrame correlationId (endTxnBody code)) code :=
    reads_responseFrame ((reads_i32 _).bind (reads_i16 _))
  rw [endTxnCode, hreads.all]
  rfl

/-- A request that names the transactional id. -/
def Wire.RequestBody.NamesTransaction (transactionalId : Bytes) : RequestBody → Prop
  | .produce id _ _ _ => id = some transactionalId
  | .addPartitionsToTxn id _ _ _ | .endTxn id _ _ _ => id = transactionalId
  | _ => False

/-- The identity a producer id and epoch on the wire stand for. -/
def wireIdentity (producer : Int64 × Int16) : ProducerIdentity :=
  ⟨producer.1.toInt, producer.2.toInt⟩

namespace Engine

/-- What a producer is told that is fenced, and that it changes nothing. -/
structure ToldFenced (engine : Engine) (shards : Fin n → Shard) (transactionalId : Bytes)
    (producer : Int64 × Int16) : Prop where
  answered : ∀ frame request, decodeRequest frame = .ok request →
    request.body.NamesTransaction transactionalId →
    ∃ response, (engine.handle shards frame).2 = .ok response
  endTxn : ∀ header commit,
    let request : Request := ⟨header, .endTxn transactionalId producer.1 producer.2 commit⟩
    (∃ response, (engine.request shards request).2 = .ok response ∧
      endTxnCode response = .ok invalidProducerEpoch) ∧
    viewOf engine.broker (engine.request shards request).1 = viewOf engine.broker shards
  addPartition : ∀ header topics response,
    let request : Request :=
      ⟨header, .addPartitionsToTxn transactionalId producer.1 producer.2 topics⟩
    (engine.request shards request).2 = .ok response →
    ∀ before name partition after, entriesOf topics = before ++ (name, partition) :: after →
      name ≠ [] → ∃ codes, responseCodes request.body response = some codes ∧
        codes[before.length]? =
          some (if 0 ≤ partition.toInt then invalidProducerEpoch else invalidRequest)
  addPartition_same : ∀ header topics,
    viewOf engine.broker (engine.request shards
      ⟨header, .addPartitionsToTxn transactionalId producer.1 producer.2 topics⟩).1 =
        viewOf engine.broker shards
  produce : ∀ header acks timeoutMs topics response,
    let request : Request := ⟨header, .produce (some transactionalId) acks timeoutMs topics⟩
    (engine.request shards request).2 = .ok response →
    ∀ before name entry after, entriesOf topics = before ++ (name, entry) :: after →
      entry.producer = some producer → ∃ codes, responseCodes request.body response = some codes ∧
        codes[before.length]? = some unknownServerError
  produce_same : ∀ header acks timeoutMs (before : List (Bytes × ProducePartition)) name
      (entry : ProducePartition), entry.producer = some producer →
    let single := fun entry : Bytes × ProducePartition =>
      RequestBody.produce (some transactionalId) acks timeoutMs [⟨entry.1, [entry.2]⟩]
    let reached := engine.requests header shards (before.map single)
    viewOf engine.broker (engine.request reached ⟨header, single (name, entry)⟩).1 =
      viewOf engine.broker reached

/-! ## One entry -/

theorem identityOf_produce {engine : Engine} {view : View} {transactionalId : Bytes}
    {request : Option Bytes} {current : ProducerIdentity}
    (h : view.transactions.identityOf transactionalId = some current) (name : Bytes)
    (entry : ProducePartition) :
    (engine.exec view (engine.producePartition (n := n) request name
      entry)).1.transactions.identityOf transactionalId = some current := by
  rw [exec_producePartition_transactions]
  exact h

section Fenced

variable {engine : Engine} {view : View} {transactionalId : Bytes} {current : ProducerIdentity}
  {producer : Int64 × Int16}
  (hcurrent : view.transactions.identityOf transactionalId = some current)
  (hne : current ≠ wireIdentity producer)
include hcurrent hne

theorem exec_produce_fenced {name : Bytes} {entry : ProducePartition}
    (hproducer : entry.producer = some producer) :
    engine.exec view (engine.producePartition (n := n) (some transactionalId) name entry) =
      (view, ⟨entry.partition, unknownServerError, -1, -1⟩) := by
  have hinvalid := (TransactionCoordinator.fenced_of_ne hcurrent hne).validateProduce name
    entry.partition.toInt
  unfold producePartition
  simp only [hproducer]
  rw [exec_attempt]
  unfold wireIdentity at hinvalid
  rw [run_produceTransactional_invalid engine.broker view entry.records hinvalid]
  rfl

theorem exec_addPartition_fenced (name : Bytes) (partition : Int32) :
    (engine.exec view (addPartition (n := n) transactionalId (wireIdentity producer) name
        partition)).1 = view ∧
      (name ≠ [] → (engine.exec view (addPartition (n := n) transactionalId
        (wireIdentity producer) name partition)).2 =
          (partition, if 0 ≤ partition.toInt then invalidProducerEpoch else invalidRequest)) := by
  unfold addPartition
  rw [exec_attempt, run_addTransactionPartition]
  by_cases hvalid : name ≠ [] ∧ 0 ≤ partition.toInt
  · have herror := (TransactionCoordinator.fenced_of_ne hcurrent hne).addPartition name
      partition.toInt hvalid.1 hvalid.2
    rw [herror, TransactionCoordinator.addPartition_error herror, if_pos hvalid.2]
    exact ⟨rfl, fun _ => rfl⟩
  · have herror : view.transactions.addPartition transactionalId (wireIdentity producer) name
        partition.toInt = (view.transactions, .error .invalidId) := by
      unfold TransactionCoordinator.addPartition
      rw [if_pos]
      by_contra hchecks
      exact hvalid (by simpa using hchecks)
    rw [herror]
    refine ⟨rfl, fun hname => ?_⟩
    rw [if_neg fun hle => hvalid ⟨hname, hle⟩]
    rfl

theorem exec_endTxn_fenced (correlationId : Int32) (commit : Bool) :
    engine.exec view (endTxn (n := n) correlationId transactionalId producer.1 producer.2 commit) =
      (view, encodeEndTxn correlationId invalidProducerEpoch) := by
  have herror := (TransactionCoordinator.fenced_of_ne hcurrent hne).endTransaction commit
  unfold endTxn
  rw [exec_attempt]
  unfold wireIdentity at herror
  rw [run_endTransaction_refused engine.broker view herror]
  rfl

end Fenced

/-! ## Requests -/

/-- **A fenced producer** is told so by `EndTxn`, by `AddPartitionsToTxn` for entries with a
partition that is not negative, and never by `Produce`; and none of them changes a log, a
transaction or a group. From any shards. -/
theorem fenced_told (engine : Engine) (shards : Fin n → Shard) {transactionalId : Bytes}
    {current : ProducerIdentity} {producer : Int64 × Int16}
    (hcurrent : (viewOf engine.broker shards).transactions.identityOf transactionalId =
      some current)
    (hne : current ≠ wireIdentity producer) :
    engine.ToldFenced shards transactionalId producer where
  answered frame request hdecode hnames := by
    rw [handle_of_decode hdecode]
    have hbounded := decodeRequest_bounded hdecode
    obtain ⟨header, body⟩ := request
    cases body with
    | produce => exact produce_answered hbounded.1
    | addPartitionsToTxn => exact addPartitions_answered (shapeFits_of_validTopics hbounded.2)
    | endTxn =>
        rw [(viewOf_request engine shards _).2]
        exact answered_attempt _ _ fun _ => ⟨_, encodeEndTxn_eq_ok.mpr rfl⟩
    | _ => exact hnames.elim
  endTxn header commit := by
    obtain ⟨hview, hresult⟩ := viewOf_request engine shards
      ⟨header, .endTxn transactionalId producer.1 producer.2 commit⟩
    have hexec := @exec_endTxn_fenced n _ engine _ _ _ _ hcurrent hne header.correlationId commit
    refine ⟨⟨_, ?_, endTxnCode_responseFrame header.correlationId _⟩, ?_⟩
    · rw [hresult]
      exact (congrArg Prod.snd hexec).trans (encodeEndTxn_eq_ok.mpr rfl)
    · rw [hview]
      exact congrArg Prod.fst hexec
  addPartition header topics response hresponse before name partition after hplace hname := by
    refine (engine.addPartitionsKind n header transactionalId producer.1 producer.2).code_of_entry
      (P := fun view => view.transactions.identityOf transactionalId = some current)
      (fun view name' partition' hview => ?_) hcurrent (fun view hview => ?_) hplace hresponse
    · have hsame := (@exec_addPartition_fenced n _ engine _ _ _ _ hview hne name' partition').1
      exact (congrArg (fun view : View => view.transactions.identityOf transactionalId) hsame).trans
        hview
    · have hanswer := (@exec_addPartition_fenced n _ engine _ _ _ _ hview hne name partition).2
      exact congrArg Prod.snd (hanswer hname)
  addPartition_same header topics := by
    have hloop := @exec_eachPartition n _ engine _ _ (viewOf engine.broker shards)
      (addPartition transactionalId (wireIdentity producer)) _ topics fun name partition =>
        Prod.ext (exec_addPartition_fenced hcurrent hne name partition).1 rfl
    rw [(viewOf_request engine shards _).1]
    show (engine.exec _ (_ >>= _)).1 = _
    rw [exec_bind]
    exact congrArg Prod.fst hloop
  produce header acks timeoutMs topics response hresponse before name entry after hplace
      hproducer := by
    refine (engine.produceKind n header (some transactionalId) acks timeoutMs).code_of_entry
      (P := fun view => view.transactions.identityOf transactionalId = some current)
      (fun view name' entry' hview => ?_) hcurrent (fun view hview => ?_) hplace hresponse
    · exact identityOf_produce hview name' entry'
    · have hanswer := @exec_produce_fenced n _ engine _ _ _ _ hview hne name entry hproducer
      exact congrArg (fun answer => answer.2.error) hanswer
  produce_same header acks timeoutMs before name entry hproducer := by
    intro single reached
    have hreached := (engine.produceKind n header (some transactionalId) acks
      timeoutMs).viewOf_requests_preserves
      (P := fun view => view.transactions.identityOf transactionalId = some current)
      (fun view name' entry' hview => identityOf_produce hview name' entry') hcurrent before
    exact ((engine.produceKind n header (some transactionalId) acks timeoutMs).viewOf_single reached
      (name, entry)).trans (congrArg Prod.fst (exec_produce_fenced hreached hne hproducer))

/-! ## A second initialisation -/

/-- A broker at which a producer enlisted a partition and was then initialised again. -/
def reinitialised : Fin 2 → Shard :=
  oneTopicEngine.after 2 [(bare (.initProducerId (some [120]) 0)).ser,
    (bare (.addPartitionsToTxn [120] 1 0 [⟨[116], [0]⟩])).ser,
    (bare (.initProducerId (some [120]) 0)).ser]

theorem identityOf_reinitialised :
    (viewOf oneTopicEngine.broker reinitialised).transactions.identityOf [120] = some ⟨1, 1⟩ := by
  decide

/-- The old identity is fenced there. -/
theorem fenced_told_reinitialised :
    (viewOf oneTopicEngine.broker reinitialised).transactions.identityOf [120] = some ⟨1, 1⟩ ∧
      oneTopicEngine.ToldFenced reinitialised [120] (1, 0) :=
  ⟨identityOf_reinitialised,
    fenced_told oneTopicEngine reinitialised identityOf_reinitialised (by decide)⟩

/-- **A produce under the old identity** is answered with `UNKNOWN_SERVER_ERROR`, where the
enlistment of the same partition and the end of the transaction are answered with
`INVALID_PRODUCER_EPOCH`. -/
theorem produce_not_told :
    let frame := setFrame (some [120]) (oneBatchSet 0x10)
    let body : RequestBody := .produce (some [120]) 1 0
      [⟨[116], [⟨0, [⟨0, none, some [97]⟩], some (1, 0)⟩]⟩]
    let enlist : RequestBody := .addPartitionsToTxn [120] 1 0 [⟨[116], [0]⟩]
    let finish : RequestBody := .endTxn [120] 1 0 true
    (viewOf oneTopicEngine.broker reinitialised).transactions.identityOf [120] = some ⟨1, 1⟩ ∧
      decodeRequest frame = .ok ⟨⟨0, 3, 0, none⟩, body⟩ ∧
      (oneTopicEngine.handle reinitialised frame).2.toOption.bind (responseCodes body) =
        some [unknownServerError] ∧
      (oneTopicEngine.handle reinitialised (bare enlist).ser).2.toOption.bind
        (responseCodes enlist) = some [invalidProducerEpoch] ∧
      (oneTopicEngine.handle reinitialised (bare finish).ser).2.bind endTxnCode =
        .ok invalidProducerEpoch := by
  exact ⟨identityOf_reinitialised, by decide +kernel, by decide +kernel, by decide +kernel,
    by decide +kernel⟩

end Engine

end CharlotteBroker
