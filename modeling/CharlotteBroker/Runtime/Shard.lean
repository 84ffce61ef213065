import CharlotteBroker.Core.Log
import CharlotteBroker.Core.Group

/-!
# Messages and the partition shard

The messages of `message.rs` and the body of the shard's message loop (`partition.rs`,
`partition_task`): what one command does to the state a shard owns, and what is answered.

* A command's reply sender is not part of `PartitionCommand` here; it belongs to the envelope that
  carries the command.
* The four commands about one partition share one shape (`Shard.withLog`): check the partition
  against the catalog, find or create its log, operate on it.
* Every shard owns coordinators; only those of shard zero are ever addressed.
-/

namespace CharlotteBroker.Runtime

open Std CharlotteBroker.Core

/-- A broker with one shard. -/
instance oneShard : NeZero 1 := ⟨Nat.one_ne_zero⟩

/-- A broker with two shards. -/
instance twoShards : NeZero 2 := ⟨Nat.succ_ne_zero 1⟩

/-- A failed broker operation. Source: `broker-runtime/error.rs`, `BrokerError`. Kind: D -/
inductive BrokerError
  | invalidConfig
  | mailboxUnavailable
  | replyTimeout
  | unexpectedReply
  | core (error : LogError)
  | coordination (error : CoordinationError)
  deriving DecidableEq, Repr

/-- Operations owned by the broker's coordination state machine.
Source: `message.rs`, `CoordinationRequest`. Kind: D -/
inductive CoordinationRequest
  | initProducer (transactionalId : Bytes)
  | addPartition (transactionalId : Bytes) (producer : ProducerIdentity) (topic : Bytes)
      (partition : Int)
  | validateProduce (transactionalId : Bytes) (producer : ProducerIdentity) (topic : Bytes)
      (partition : Int)
  | endTransaction (transactionalId : Bytes) (producer : ProducerIdentity) (commit : Bool)
  | addOffset (transactionalId : Bytes) (producer : ProducerIdentity) (offset : TransactionOffset)
  | joinGroup (groupId memberId : Bytes) (subscriptions : List Bytes)
      (partitions : List TopicPartition)
  | heartbeat (groupId memberId : Bytes) (generation : Int)
  | leaveGroup (groupId memberId : Bytes) (generation : Int)
  | leaveGroupAny (groupId memberId : Bytes)
  | commitOffset (groupId : Bytes) (generation : Int) (topic : Bytes) (partition offset : Int)
  | fetchOffset (groupId topic : Bytes) (partition : Int)
  deriving DecidableEq, Repr

/-- Source: `message.rs`, `CoordinationResult`. Kind: D -/
inductive CoordinationResult
  | producer (identity : ProducerIdentity)
  | group (generation : Int) (assignments : List GroupAssignment)
  | transactionCompleted (completion : TransactionCompletion)
  | offset (offset : Option Int)
  | applied
  deriving DecidableEq, Repr

/-- A request routed to a shard, without its reply sender.
Source: `message.rs`, `PartitionCommand`. Kind: D -/
inductive PartitionCommand
  | produce (topic : Bytes) (partition : Int) (records : List RecordData)
  | produceTransactional (topic : Bytes) (partition : Int) (records : List RecordData)
      (producerId : Int)
  | fetch (topic : Bytes) (partition : Int) (offset : Int) (maxRecords maxBytes : ℕ)
      (readCommitted : Bool)
  | listOffset (topic : Bytes) (partition : Int) (earliest : Bool)
  | shutdown
  | resolveTransaction (producerId : Int) (commit : Bool)
  | coordinate (request : CoordinationRequest)
  deriving DecidableEq, Repr

/-- A shard's answer to one command. Source: `message.rs`, `PartitionResult`. Kind: D -/
inductive PartitionResult
  | produced (baseOffset : Int)
  | fetched (window : FetchWindow)
  | offset (offset : Int)
  | failed (error : LogError)
  | coordination (result : Except CoordinationError CoordinationResult)
  | resolved
  | stopped
  deriving DecidableEq

/-! ## Coordination requests -/

/-- What a coordination request does to the two coordinators.
Source: `partition.rs`, `coordinate`. Kind: D -/
def coordinate (transactions : TransactionCoordinator) (groups : GroupCoordinator) :
    CoordinationRequest →
      (TransactionCoordinator × GroupCoordinator) × Except CoordinationError CoordinationResult
  | .initProducer transactionalId =>
      let (transactions, result) := transactions.init transactionalId
      ((transactions, groups), result.map .producer)
  | .addPartition transactionalId producer topic partition =>
      let (transactions, result) :=
        transactions.addPartition transactionalId producer topic partition
      ((transactions, groups), result.map fun _ => .applied)
  | .validateProduce transactionalId producer topic partition =>
      ((transactions, groups),
        (transactions.validateProduce transactionalId producer topic partition).map
          fun _ => .applied)
  | .endTransaction transactionalId producer commit =>
      let (transactions, result) := transactions.endTransaction transactionalId producer commit
      ((transactions, groups), result.map .transactionCompleted)
  | .addOffset transactionalId producer offset =>
      let (transactions, result) := transactions.addOffset transactionalId producer offset
      ((transactions, groups), result.map fun _ => .applied)
  | .joinGroup groupId memberId subscriptions partitions =>
      let (groups, result) := groups.join groupId memberId subscriptions partitions
      ((transactions, groups), result.map fun joined => .group joined.1 joined.2)
  | .heartbeat groupId memberId generation =>
      let (groups, result) := groups.heartbeat groupId memberId generation
      ((transactions, groups), result.map fun _ => .applied)
  | .leaveGroup groupId memberId generation =>
      let (groups, result) := groups.leave groupId memberId generation
      ((transactions, groups), result.map fun _ => .applied)
  | .leaveGroupAny groupId memberId =>
      let (groups, result) := groups.leaveAny groupId memberId
      ((transactions, groups), result.map fun _ => .applied)
  | .commitOffset groupId generation topic partition offset =>
      let (groups, result) := groups.commitOffset groupId generation topic partition offset
      ((transactions, groups), result.map fun _ => .applied)
  | .fetchOffset groupId topic partition =>
      ((transactions, groups), (groups.offset groupId topic partition).map .offset)

/-! ## The shard -/

/-- What every shard is started with.
Source: `partition.rs`, the arguments of `partition_task`. Kind: D -/
structure ShardConfig where
  catalog : TopicCatalog
  partitionMaxBytes : Option ℕ

/-- The state a shard owns. Source: `partition.rs`, the locals of `partition_task`. Kind: D -/
structure Shard where
  logs : ExtTreeMap TopicPartition PartitionLog
  transactions : TransactionCoordinator
  groups : GroupCoordinator

/-- A shard as it starts. -/
def Shard.new : Shard := ⟨∅, .new, .new⟩

/-- The answer for a log operation that may fail. -/
def answer {α : Type} (ok : α → PartitionResult) : Except LogError α → PartitionResult
  | .ok value => ok value
  | .error error => .failed error

namespace Shard

variable (config : ShardConfig) (shard : Shard)

/-- The log of a partition, created on first use.
Source: `partition.rs`, `logs.entry(..).or_insert_with(..)`. Kind: D -/
def log (key : TopicPartition) : PartitionLog :=
  (shard.logs[key]?).getD (newLog config.partitionMaxBytes)

/-- One command about one partition: refused by the catalog, or `operate` on the log.
Source: `partition.rs`, the arms of `partition_task` for one partition. Kind: D -/
def withLog (key : TopicPartition)
    (operate : PartitionLog → PartitionLog × PartitionResult) : Shard × PartitionResult :=
  match config.catalog.checkPartition key.topic key.partition with
  | .error error => (shard, .failed error)
  | .ok () =>
      let operated := operate (shard.log config key)
      ({ shard with logs := shard.logs.insert key operated.1 }, operated.2)

/-- What one command does to the shard, and its answer.
Source: `partition.rs`, `partition_task` (the loop body). Kind: D -/
def handle : PartitionCommand → Shard × PartitionResult
  | .produce topic partition records =>
      shard.withLog config ⟨topic, partition⟩ fun log =>
        let (log, result) := log.appendData records
        (log, answer .produced result)
  | .produceTransactional topic partition records producerId =>
      shard.withLog config ⟨topic, partition⟩ fun log =>
        let (log, result) := log.appendTransactional records producerId
        (log, answer .produced result)
  | .fetch topic partition offset maxRecords maxBytes readCommitted =>
      shard.withLog config ⟨topic, partition⟩ fun log =>
        (log, answer .fetched (log.fetchWithIsolation offset maxRecords maxBytes readCommitted))
  | .listOffset topic partition earliest =>
      shard.withLog config ⟨topic, partition⟩ fun log => (log, .offset (log.listOffset earliest))
  | .shutdown => (shard, .stopped)
  | .coordinate request =>
      let (coordinators, result) := coordinate shard.transactions shard.groups request
      ({ shard with transactions := coordinators.1, groups := coordinators.2 },
        .coordination result)
  | .resolveTransaction producerId commit =>
      ({ shard with logs := shard.logs.map fun _ log => log.commitTransaction producerId commit },
        .resolved)

end Shard

/-- The commands about one partition: which one, and what they do to its log. -/
def PartitionCommand.onLog :
    PartitionCommand → Option (TopicPartition × (PartitionLog → PartitionLog × PartitionResult))
  | .produce topic partition records =>
      some (⟨topic, partition⟩, fun log =>
        ((log.appendData records).1, answer .produced (log.appendData records).2))
  | .produceTransactional topic partition records producerId =>
      some (⟨topic, partition⟩, fun log =>
        ((log.appendTransactional records producerId).1,
          answer .produced (log.appendTransactional records producerId).2))
  | .fetch topic partition offset maxRecords maxBytes readCommitted =>
      some (⟨topic, partition⟩, fun log =>
        (log, answer .fetched (log.fetchWithIsolation offset maxRecords maxBytes readCommitted)))
  | .listOffset topic partition earliest =>
      some (⟨topic, partition⟩, fun log => (log, .offset (log.listOffset earliest)))
  | _ => none

/-- The arms of the loop that are about one partition, as one equation. -/
theorem Shard.handle_onLog (config : ShardConfig) (shard : Shard) {command : PartitionCommand}
    {key : TopicPartition} {operate : PartitionLog → PartitionLog × PartitionResult}
    (h : command.onLog = some (key, operate)) :
    shard.handle config command = shard.withLog config key operate := by
  cases command <;> cases h <;> rfl

end CharlotteBroker.Runtime
