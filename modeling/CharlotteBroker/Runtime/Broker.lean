import CharlotteBroker.Lib.Prog
import CharlotteBroker.Runtime.Shard

/-!
# The broker facade

The methods of `Broker` (`broker.rs`), each a client program over the shards (`BrokerM`): which
commands it sends to which shard, in which order, and what it makes of the answers.

* `shardIndex` is the routing function, on 64-bit words as in the source.
* `callShard` is one send and one wait; a fault of either ends the method. How the send, the
  mailbox, the reply and the retry budgets interleave with other callers is not decided here: the
  same programs are run alone (`Broker.perform`) and among others.
* `Call` is the type of all method calls and `Call.program` what each runs.
-/

namespace CharlotteBroker.Runtime

open Std CharlotteBroker.Core Lib

/-! ## Routing -/

/-- Source: `broker.rs`, `fnv1a`. Kind: D -/
def fnv1a (bytes : Bytes) : UInt64 :=
  bytes.foldl (fun hash byte => (hash ^^^ byte.toUInt64) * 0x00000100000001b3) 0xcbf29ce484222325

/-- Source: `broker.rs`, `splitmix64`. Kind: D -/
def splitmix64 (value : UInt64) : UInt64 :=
  let value := value + 0x9e3779b97f4a7c15
  let value := (value ^^^ (value >>> 30)) * 0xbf58476d1ce4e5b9
  let value := (value ^^^ (value >>> 27)) * 0x94d049bb133111eb
  value ^^^ (value >>> 31)

/-- The shard that owns a partition.
Source: `broker.rs`, `shard_index`. Kind: D -/
@[irreducible]
def shardIndex (n : ℕ) [NeZero n] (key : TopicPartition) : Fin n :=
  let mixed := splitmix64
    (fnv1a key.topic ^^^ (Int64.ofInt key.partition).toUInt64 * 0x9e3779b97f4a7c15)
  Fin.ofNat n mixed.toNat

/-! ## Calls to a shard -/

/-- A method of the broker with `n` shards. -/
abbrev BrokerM (n : ℕ) : Type → Type :=
  Prog.Fallible (Fin n) PartitionCommand PartitionResult BrokerError

/-- The error a failed send or wait ends in.
Source: `broker.rs`, `send_with_retry`, `wait_reply`. Kind: D -/
def faultError : Fault → BrokerError
  | .unavailable => .mailboxUnavailable
  | .timeout => .replyTimeout

variable {n : ℕ}

/-- Sends one command to a shard and waits for its answer.
Source: `broker.rs`, `call` after routing, and the send and wait of `coordinate`. Kind: D -/
def callShard (shard : Fin n) (command : PartitionCommand) : BrokerM n PartitionResult :=
  ExceptT.mk (.call shard command fun reply => .ret (reply.mapError faultError))

variable [NeZero n]

/-- Source: `broker.rs`, `call`. Kind: D -/
def call (topic : Bytes) (partition : Int) (command : PartitionCommand) :
    BrokerM n PartitionResult :=
  callShard (shardIndex n ⟨topic, partition⟩) command

/-- Source: `broker.rs`, `Broker::coordinate`. Kind: D -/
def coordinateCall (request : CoordinationRequest) : BrokerM n CoordinationResult := do
  match ← callShard 0 (.coordinate request) with
  | .coordination (.ok result) => return result
  | .coordination (.error error) => throw (.coordination error)
  | _ => throw .unexpectedReply

/-- Source: `broker.rs`, `applied`. Kind: D -/
def applied : CoordinationResult → BrokerM n Unit
  | .applied => return ()
  | _ => throw .unexpectedReply

/-- A catalog check made by the caller, with `?`. -/
def checked (result : Except LogError Unit) : BrokerM n Unit :=
  match result with
  | .ok () => return ()
  | .error error => throw (.core error)

/-- What `produce` and `produce_transactional` make of the answer. -/
def producedOffset : PartitionResult → BrokerM n Int
  | .produced baseOffset => return baseOffset
  | .failed error => throw (.core error)
  | _ => throw .unexpectedReply

section Methods

variable (catalog : TopicCatalog)

/-- Source: `broker.rs`, `produce`. Kind: D -/
def produce (topic : Bytes) (partition : Int) (records : List RecordData) : BrokerM n Int := do
  checked (catalog.checkPartition topic partition)
  producedOffset (← call topic partition (.produce topic partition records))

/-- Source: `broker.rs`, `fetch_with_isolation`. Kind: D -/
def fetchWithIsolation (topic : Bytes) (partition offset : Int) (maxRecords maxBytes : ℕ)
    (readCommitted : Bool) : BrokerM n FetchWindow := do
  checked (catalog.checkPartition topic partition)
  match ← call topic partition
      (.fetch topic partition offset maxRecords maxBytes readCommitted) with
  | .fetched window => return window
  | .failed error => throw (.core error)
  | _ => throw .unexpectedReply

/-- Source: `broker.rs`, `fetch`. Kind: D -/
def fetch (topic : Bytes) (partition offset : Int) (maxRecords maxBytes : ℕ) :
    BrokerM n FetchWindow :=
  fetchWithIsolation catalog topic partition offset maxRecords maxBytes false

/-- Source: `broker.rs`, `list_offset`. Kind: D -/
def listOffset (topic : Bytes) (partition : Int) (earliest : Bool) : BrokerM n Int := do
  checked (catalog.checkPartition topic partition)
  match ← call topic partition (.listOffset topic partition earliest) with
  | .offset offset => return offset
  | .failed error => throw (.core error)
  | _ => throw .unexpectedReply

/-- Source: `broker.rs`, `init_producer`. Kind: D -/
def initProducer (transactionalId : Bytes) : BrokerM n ProducerIdentity := do
  match ← coordinateCall (.initProducer transactionalId) with
  | .producer identity => return identity
  | _ => throw .unexpectedReply

/-- Source: `broker.rs`, `add_transaction_partition`. Kind: D -/
def addTransactionPartition (transactionalId : Bytes) (producer : ProducerIdentity)
    (topic : Bytes) (partition : Int) : BrokerM n Unit := do
  applied (← coordinateCall (.addPartition transactionalId producer topic partition))

/-- Source: `broker.rs`, `validate_transactional_produce`. Kind: D -/
def validateTransactionalProduce (transactionalId : Bytes) (producer : ProducerIdentity)
    (topic : Bytes) (partition : Int) : BrokerM n Unit := do
  applied (← coordinateCall (.validateProduce transactionalId producer topic partition))

/-- Validates a transactional append and then routes it to the owning shard.
Source: `broker.rs`, `produce_transactional`. Kind: D -/
def produceTransactional (transactionalId : Bytes) (producer : ProducerIdentity)
    (topic : Bytes) (partition : Int) (records : List RecordData) : BrokerM n Int := do
  validateTransactionalProduce transactionalId producer topic partition
  checked (catalog.checkPartition topic partition)
  producedOffset
    (← call topic partition (.produceTransactional topic partition records producer.id))

/-- Source: `broker.rs`, `add_transaction_offset`. Kind: D -/
def addTransactionOffset (transactionalId : Bytes) (producer : ProducerIdentity)
    (offset : TransactionOffset) : BrokerM n Unit := do
  applied (← coordinateCall (.addOffset transactionalId producer offset))

/-- Source: `broker.rs`, `commit_group_offset`. Kind: D -/
def commitGroupOffset (groupId : Bytes) (generation : Int) (topic : Bytes)
    (partition offset : Int) : BrokerM n Unit := do
  applied (← coordinateCall (.commitOffset groupId generation topic partition offset))

/-- The first loop of `end_transaction`: one resolution per enlisted partition.
Source: `broker.rs`, `end_transaction` (`for .. in completion.partitions`). Kind: D -/
def resolvePartitions (producerId : Int) (commit : Bool) :
    List TopicPartition → BrokerM n Unit
  | [] => return ()
  | key :: rest => do
      match ← call key.topic key.partition (.resolveTransaction producerId commit) with
      | .resolved => resolvePartitions producerId commit rest
      | _ => throw .unexpectedReply

/-- The second loop of `end_transaction`: the enlisted consumer offsets.
Source: `broker.rs`, `end_transaction` (`for offset in completion.offsets`). Kind: D -/
def commitOffsets : List TransactionOffset → BrokerM n Unit
  | [] => return ()
  | offset :: rest => do
      commitGroupOffset offset.groupId offset.generation offset.topic offset.partition offset.offset
      commitOffsets rest

/-- Commits or aborts an ongoing transaction.
Source: `broker.rs`, `end_transaction`. Kind: D -/
def endTransaction (transactionalId : Bytes) (producer : ProducerIdentity) (commit : Bool) :
    BrokerM n Unit := do
  match ← coordinateCall (.endTransaction transactionalId producer commit) with
  | .transactionCompleted completion =>
      resolvePartitions producer.id commit completion.partitions
      if commit then commitOffsets completion.offsets
  | _ => throw .unexpectedReply

/-- Every partition of the catalog, in catalog order.
Source: `broker.rs`, `join_group` (`partitions`). Kind: D -/
def catalogPartitions : List TopicPartition :=
  catalog.metadata.flatMap fun topic =>
    (List.range topic.partitions.toNat).map fun partition : ℕ => ⟨topic.name, (partition : Int)⟩

/-- Source: `broker.rs`, `join_group`. Kind: D -/
def joinGroup (groupId memberId : Bytes) (subscriptions : List Bytes) :
    BrokerM n (Int × List GroupAssignment) := do
  match ← coordinateCall
      (.joinGroup groupId memberId subscriptions (catalogPartitions catalog)) with
  | .group generation assignments => return (generation, assignments)
  | _ => throw .unexpectedReply

/-- Source: `broker.rs`, `heartbeat_group`. Kind: D -/
def heartbeatGroup (groupId memberId : Bytes) (generation : Int) : BrokerM n Unit := do
  applied (← coordinateCall (.heartbeat groupId memberId generation))

/-- Source: `broker.rs`, `leave_group`. Kind: D -/
def leaveGroup (groupId memberId : Bytes) (generation : Int) : BrokerM n Unit := do
  applied (← coordinateCall (.leaveGroup groupId memberId generation))

/-- Source: `broker.rs`, `leave_group_any`. Kind: D -/
def leaveGroupAny (groupId memberId : Bytes) : BrokerM n Unit := do
  applied (← coordinateCall (.leaveGroupAny groupId memberId))

/-- Source: `broker.rs`, `group_offset`. Kind: D -/
def groupOffset (groupId topic : Bytes) (partition : Int) : BrokerM n (Option Int) := do
  match ← coordinateCall (.fetchOffset groupId topic partition) with
  | .offset offset => return offset
  | _ => throw .unexpectedReply

end Methods

/-! ## All calls -/

/-- A call of a broker method with its arguments. -/
inductive Call
  | produce (topic : Bytes) (partition : Int) (records : List RecordData)
  | fetchWithIsolation (topic : Bytes) (partition offset : Int) (maxRecords maxBytes : ℕ)
      (readCommitted : Bool)
  | listOffset (topic : Bytes) (partition : Int) (earliest : Bool)
  | initProducer (transactionalId : Bytes)
  | addTransactionPartition (transactionalId : Bytes) (producer : ProducerIdentity)
      (topic : Bytes) (partition : Int)
  | validateTransactionalProduce (transactionalId : Bytes) (producer : ProducerIdentity)
      (topic : Bytes) (partition : Int)
  | produceTransactional (transactionalId : Bytes) (producer : ProducerIdentity) (topic : Bytes)
      (partition : Int) (records : List RecordData)
  | addTransactionOffset (transactionalId : Bytes) (producer : ProducerIdentity)
      (offset : TransactionOffset)
  | endTransaction (transactionalId : Bytes) (producer : ProducerIdentity) (commit : Bool)
  | joinGroup (groupId memberId : Bytes) (subscriptions : List Bytes)
  | heartbeatGroup (groupId memberId : Bytes) (generation : Int)
  | leaveGroup (groupId memberId : Bytes) (generation : Int)
  | leaveGroupAny (groupId memberId : Bytes)
  | commitGroupOffset (groupId : Bytes) (generation : Int) (topic : Bytes)
      (partition offset : Int)
  | groupOffset (groupId topic : Bytes) (partition : Int)
  deriving DecidableEq, Repr

/-- What a call returns on success. -/
inductive Answer
  | offset (offset : Int)
  | window (window : FetchWindow)
  | identity (identity : ProducerIdentity)
  | done
  | group (generation : Int) (assignments : List GroupAssignment)
  | groupOffset (offset : Option Int)
  deriving DecidableEq, Repr

/-- The program each call runs. -/
def Call.program (catalog : TopicCatalog) : Call → BrokerM n Answer
  | .produce topic partition records => .offset <$> Runtime.produce catalog topic partition records
  | .fetchWithIsolation topic partition offset maxRecords maxBytes readCommitted =>
      .window <$>
        Runtime.fetchWithIsolation catalog topic partition offset maxRecords maxBytes readCommitted
  | .listOffset topic partition earliest =>
      .offset <$> Runtime.listOffset catalog topic partition earliest
  | .initProducer transactionalId => .identity <$> Runtime.initProducer transactionalId
  | .addTransactionPartition transactionalId producer topic partition =>
      (fun _ => .done) <$> Runtime.addTransactionPartition transactionalId producer topic partition
  | .validateTransactionalProduce transactionalId producer topic partition =>
      (fun _ => .done) <$>
        Runtime.validateTransactionalProduce transactionalId producer topic partition
  | .produceTransactional transactionalId producer topic partition records =>
      .offset <$>
        Runtime.produceTransactional catalog transactionalId producer topic partition records
  | .addTransactionOffset transactionalId producer offset =>
      (fun _ => .done) <$> Runtime.addTransactionOffset transactionalId producer offset
  | .endTransaction transactionalId producer commit =>
      (fun _ => .done) <$> Runtime.endTransaction transactionalId producer commit
  | .joinGroup groupId memberId subscriptions =>
      (fun joined => .group joined.1 joined.2) <$>
        Runtime.joinGroup catalog groupId memberId subscriptions
  | .heartbeatGroup groupId memberId generation =>
      (fun _ => .done) <$> Runtime.heartbeatGroup groupId memberId generation
  | .leaveGroup groupId memberId generation =>
      (fun _ => .done) <$> Runtime.leaveGroup groupId memberId generation
  | .leaveGroupAny groupId memberId =>
      (fun _ => .done) <$> Runtime.leaveGroupAny groupId memberId
  | .commitGroupOffset groupId generation topic partition offset =>
      (fun _ => .done) <$> Runtime.commitGroupOffset groupId generation topic partition offset
  | .groupOffset groupId topic partition =>
      .groupOffset <$> Runtime.groupOffset groupId topic partition

/-! ## Alone: the sequential broker -/

/-- The shards after one command at one of them, and its answer. -/
def serve (config : ShardConfig) (shards : Fin n → Shard) (shard : Fin n)
    (command : PartitionCommand) : (Fin n → Shard) × PartitionResult :=
  let handled := (shards shard).handle config command
  (Function.update shards shard handled.1, handled.2)

/-- A call made while no other is under way and no mailbox fails. -/
def perform (config : ShardConfig) (shards : Fin n → Shard) (call : Call) :
    (Fin n → Shard) × Except BrokerError Answer :=
  Prog.run (serve config) shards (call.program config.catalog)

/-! ## Startup -/

/-- One topic's desired partition count. Source: `broker.rs`, `TopicSpec`. Kind: D -/
structure TopicSpec where
  name : Bytes
  partitions : Int32
  deriving DecidableEq, Repr

/-- Static broker configuration; the park interval has no counterpart here.
Source: `broker.rs`, `BrokerConfig`. Kind: D -/
structure BrokerConfig where
  shardCount : ℕ
  topics : List TopicSpec
  mailboxCapacity : ℕ
  maxRetries : ℕ
  partitionMaxBytes : Option ℕ
  deriving DecidableEq, Repr

/-- The topics of the configuration, created one after another.
Source: `broker.rs`, `start` (`for topic in &config.topics`). Kind: D -/
def createTopics (catalog : TopicCatalog) : List TopicSpec → Except LogError TopicCatalog
  | [] => .ok catalog
  | topic :: rest =>
      match catalog.create topic.name topic.partitions with
      | (_, .error error) => .error error
      | (catalog, .ok ()) => createTopics catalog rest

/-- What `Broker::start` hands to the shards it spawns.
Source: `broker.rs`, `start`. Kind: D -/
def BrokerConfig.start (config : BrokerConfig) : Except BrokerError ShardConfig :=
  if config.shardCount = 0 || config.topics.isEmpty || config.mailboxCapacity < 2 then
    .error .invalidConfig
  else
    match createTopics .new config.topics with
    | .error error => .error (.core error)
    | .ok catalog => .ok ⟨catalog, config.partitionMaxBytes⟩

/-- The shards as `Broker::start` spawns them. -/
def startShards (n : ℕ) : Fin n → Shard := fun _ => .new

/-- A broker with one topic of two partitions and no retention limit. -/
def oneTopic : ShardConfig := ⟨(TopicCatalog.new.create [116] 2).1, none⟩

/-- Its configuration: two shards, four usable mailbox slots, one attempt for every send and
every wait. -/
def oneTopicBroker : BrokerConfig := ⟨2, [⟨[116], 2⟩], 4, 1, none⟩

example : oneTopicBroker.start = .ok oneTopic := rfl

end CharlotteBroker.Runtime
