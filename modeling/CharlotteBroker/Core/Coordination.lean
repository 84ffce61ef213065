import CharlotteBroker.Core.Basic

/-!
# Transaction coordination

The transaction coordinator of `coordination.rs`: producer identities, the lifecycle of the
transaction open under each transactional id, and the partitions and consumer offsets enlisted
in it.

* Every operation on an open transaction goes through `withTransaction`, which looks the
  transaction up, fences a stale identity and writes the updated transaction back.
* The producer id and the epoch saturate at the limits of `i64` and `i16`.
* A rejected operation leaves the coordinator as it was (`withTransaction_error`); an accepted one
  changes one entry (`withTransaction_ok`).
-/

namespace CharlotteBroker.Core

open Std

variable {partition : Int} {topic : Bytes}

/-- `i16::MAX`. -/
def i16Max : Int := 2 ^ 15 - 1

/-- `i32::MAX`. -/
def i32Max : Int := 2 ^ 31 - 1

/-- `i64::MAX`. -/
def i64Max : Int := 2 ^ 63 - 1

/-- `saturating_add(1)` on a signed integer with the given maximum. -/
def saturatingSucc (limit value : Int) : Int := min (value + 1) limit

/-- A producer identity issued by the transaction coordinator.
Source: `coordination.rs`, `ProducerIdentity`. Kind: D -/
structure ProducerIdentity where
  id : Int
  epoch : Int
  deriving DecidableEq, Repr

/-- Transaction lifecycle visible to the coordinator.
Source: `coordination.rs`, `TransactionState`. Kind: D -/
inductive TransactionState
  | empty
  | ongoing
  | prepareCommit
  | prepareAbort
  deriving DecidableEq, Repr

/-- A consumer offset enlisted in a producer transaction.
Source: `coordination.rs`, `TransactionOffset`. Kind: D -/
structure TransactionOffset where
  groupId : Bytes
  generation : Int
  topic : Bytes
  partition : Int
  offset : Int
  deriving DecidableEq, Repr

/-- What `add_offset` asks of an offset. -/
structure TransactionOffset.Valid (offset : TransactionOffset) : Prop where
  groupId : offset.groupId ≠ []
  topic : offset.topic ≠ []
  generation : 0 ≤ offset.generation
  partition : 0 ≤ offset.partition
  offset : 0 ≤ offset.offset

/-- Source: `coordination.rs`, `Transaction`. Kind: D -/
structure Transaction where
  identity : ProducerIdentity
  state : TransactionState
  partitions : ExtTreeSet TopicPartition
  offsets : List TransactionOffset

/-- Work that must be resolved when a transaction ends.
Source: `coordination.rs`, `TransactionCompletion`. Kind: D -/
structure TransactionCompletion where
  partitions : List TopicPartition
  offsets : List TransactionOffset
  deriving DecidableEq, Repr

/-- Errors raised by transaction and group coordination.
Source: `coordination.rs`, `CoordinationError`. Kind: D -/
inductive CoordinationError
  | invalidId
  | unknownTransaction
  | producerFenced
  | invalidTransactionState
  | unknownGroup
  | unknownMember
  | illegalGeneration
  deriving DecidableEq, Repr

/-- Source: `coordination.rs`, `TransactionCoordinator`. Kind: D -/
structure TransactionCoordinator where
  nextId : Int
  transactions : ExtTreeMap Bytes Transaction

namespace TransactionCoordinator

/-- Source: `coordination.rs`, `TransactionCoordinator::new`. Kind: D -/
def new : TransactionCoordinator := ⟨1, ∅⟩

/-- The identity a new initialisation of `transactionalId` gets, and the id counter after it.
Source: `coordination.rs`, `init` (the `match`). Kind: D -/
def issue (coordinator : TransactionCoordinator) (transactionalId : Bytes) :
    ProducerIdentity × Int :=
  match coordinator.transactions[transactionalId]? with
  | some previous =>
      (⟨previous.identity.id, saturatingSucc i16Max previous.identity.epoch⟩, coordinator.nextId)
  | none => (⟨coordinator.nextId, 0⟩, saturatingSucc i64Max coordinator.nextId)

/-- Fences the previous producer for `transactionalId` and issues a new epoch.
Source: `coordination.rs`, `init`. Kind: D -/
def init (coordinator : TransactionCoordinator) (transactionalId : Bytes) :
    TransactionCoordinator × Except CoordinationError ProducerIdentity :=
  if transactionalId.isEmpty then (coordinator, .error .invalidId)
  else
    let issued := coordinator.issue transactionalId
    (⟨issued.2, coordinator.transactions.insert transactionalId ⟨issued.1, .empty, ∅, []⟩⟩,
      .ok issued.1)

/-- The transaction of `transactionalId`, if `identity` is its current producer.
Source: `coordination.rs`, `transaction_mut`. Kind: D -/
def transactionMut (coordinator : TransactionCoordinator) (transactionalId : Bytes)
    (identity : ProducerIdentity) : Except CoordinationError Transaction :=
  match coordinator.transactions[transactionalId]? with
  | none => .error .unknownTransaction
  | some transaction =>
      if transaction.identity ≠ identity then .error .producerFenced else .ok transaction

/-- An update of the transaction that `transaction_mut` hands out: `update` refuses it, or gives
the transaction's new value and the result. -/
def withTransaction {α : Type} (coordinator : TransactionCoordinator) (transactionalId : Bytes)
    (identity : ProducerIdentity)
    (update : Transaction → Except CoordinationError (Transaction × α)) :
    TransactionCoordinator × Except CoordinationError α :=
  match coordinator.transactionMut transactionalId identity with
  | .error error => (coordinator, .error error)
  | .ok transaction =>
      match update transaction with
      | .error error => (coordinator, .error error)
      | .ok (transaction', result) =>
          ({ coordinator with
              transactions := coordinator.transactions.insert transactionalId transaction' },
            .ok result)

/-- Adds a partition and starts the transaction if necessary.
Source: `coordination.rs`, `add_partition`. Kind: D -/
def addPartition (coordinator : TransactionCoordinator) (transactionalId : Bytes)
    (identity : ProducerIdentity) (topic : Bytes) (partition : Int) :
    TransactionCoordinator × Except CoordinationError Unit :=
  if topic.isEmpty || partition < 0 then (coordinator, .error .invalidId)
  else
    coordinator.withTransaction transactionalId identity fun transaction =>
      if transaction.state = .prepareCommit ∨ transaction.state = .prepareAbort then
        .error .invalidTransactionState
      else
        .ok ({ transaction with
                state := .ongoing
                partitions := transaction.partitions.insert ⟨topic, partition⟩ }, ())

/-- Validates a transactional produce against the current producer epoch; nothing is changed.
Source: `coordination.rs`, `validate_produce`. Kind: D -/
def validateProduce (coordinator : TransactionCoordinator) (transactionalId : Bytes)
    (identity : ProducerIdentity) (topic : Bytes) (partition : Int) :
    Except CoordinationError Unit :=
  match coordinator.transactionMut transactionalId identity with
  | .error error => .error error
  | .ok transaction =>
      if transaction.state ≠ .ongoing ∨ ⟨topic, partition⟩ ∉ transaction.partitions then
        .error .invalidTransactionState
      else .ok ()

/-- Enlists a consumer-group offset in the open transaction.
Source: `coordination.rs`, `add_offset`. Kind: D -/
def addOffset (coordinator : TransactionCoordinator) (transactionalId : Bytes)
    (identity : ProducerIdentity) (offset : TransactionOffset) :
    TransactionCoordinator × Except CoordinationError Unit :=
  if offset.groupId.isEmpty || offset.topic.isEmpty || offset.generation < 0 ||
      offset.partition < 0 || offset.offset < 0 then
    (coordinator, .error .invalidId)
  else
    coordinator.withTransaction transactionalId identity fun transaction =>
      if transaction.state ≠ .ongoing then .error .invalidTransactionState
      else .ok ({ transaction with offsets := transaction.offsets ++ [offset] }, ())

/-- Completes a transaction while retaining its identity for fencing. The prepared state is
overwritten before the call returns.
Source: `coordination.rs`, `end`. Kind: D -/
def endTransaction (coordinator : TransactionCoordinator) (transactionalId : Bytes)
    (identity : ProducerIdentity) (commit : Bool) :
    TransactionCoordinator × Except CoordinationError TransactionCompletion :=
  coordinator.withTransaction transactionalId identity fun transaction =>
    if transaction.state ≠ .ongoing then .error .invalidTransactionState
    else
      let prepared := { transaction with state := if commit then .prepareCommit else .prepareAbort }
      let completion : TransactionCompletion := ⟨prepared.partitions.toList, prepared.offsets⟩
      .ok ({ prepared with partitions := ∅, offsets := [], state := .empty }, completion)

/-! ## What an accepted operation does -/

/-- Only the current identity of a known transactional id passes. -/
theorem transactionMut_eq_ok {coordinator : TransactionCoordinator} {transactionalId : Bytes}
    {identity : ProducerIdentity} {transaction : Transaction} :
    coordinator.transactionMut transactionalId identity = .ok transaction ↔
      coordinator.transactions[transactionalId]? = some transaction ∧
        transaction.identity = identity := by
  unfold transactionMut
  rcases h : coordinator.transactions[transactionalId]? with _ | found
  · simp
  · by_cases hid : found.identity = identity
    · simp only [hid, ne_eq, not_true_eq_false, if_false, Except.ok.injEq, Option.some.injEq]
      constructor
      · rintro rfl
        exact ⟨rfl, hid⟩
      · exact And.left
    · simp only [ne_eq, hid, not_false_eq_true, if_true, reduceCtorEq, Option.some.injEq, false_iff]
      rintro ⟨rfl, h⟩
      exact hid h

/-- A refused update leaves the coordinator as it was. -/
theorem withTransaction_error {α : Type} {coordinator : TransactionCoordinator}
    {transactionalId : Bytes} {identity : ProducerIdentity}
    {update : Transaction → Except CoordinationError (Transaction × α)}
    {error : CoordinationError}
    (h : (coordinator.withTransaction transactionalId identity update).2 = .error error) :
    (coordinator.withTransaction transactionalId identity update).1 = coordinator := by
  unfold withTransaction at h ⊢
  rcases hm : coordinator.transactionMut transactionalId identity with e | transaction
  · rfl
  · rw [hm] at h
    rcases hu : update transaction with e | ⟨transaction', result⟩
    · simp only [hu]
    · simp only [hu] at h
      cases h

/-- **What an accepted update does**: it replaces the one transaction it was given. -/
theorem withTransaction_ok {α : Type} {coordinator : TransactionCoordinator}
    {transactionalId : Bytes} {identity : ProducerIdentity}
    {update : Transaction → Except CoordinationError (Transaction × α)} {result : α}
    (h : (coordinator.withTransaction transactionalId identity update).2 = .ok result) :
    ∃ transaction transaction',
      coordinator.transactions[transactionalId]? = some transaction ∧
        transaction.identity = identity ∧ update transaction = .ok (transaction', result) ∧
        (coordinator.withTransaction transactionalId identity update).1 =
          ⟨coordinator.nextId, coordinator.transactions.insert transactionalId transaction'⟩ := by
  unfold withTransaction at h ⊢
  rcases hm : coordinator.transactionMut transactionalId identity with e | transaction
  · rw [hm] at h
    cases h
  · rw [hm] at h
    obtain ⟨hget, hid⟩ := transactionMut_eq_ok.mp hm
    rcases hu : update transaction with e | ⟨transaction', result'⟩
    · simp only [hu] at h
      cases h
    · simp only [hu] at h ⊢
      cases h
      exact ⟨transaction, transaction', hget, hid, hu, rfl⟩

/-- An update under the current identity that is not refused. -/
theorem withTransaction_accepts {α : Type} {coordinator : TransactionCoordinator}
    {transactionalId : Bytes} {transaction transaction' : Transaction} {result : α}
    {update : Transaction → Except CoordinationError (Transaction × α)}
    (hget : coordinator.transactions[transactionalId]? = some transaction)
    (hupdate : update transaction = .ok (transaction', result)) :
    coordinator.withTransaction transactionalId transaction.identity update =
      (⟨coordinator.nextId, coordinator.transactions.insert transactionalId transaction'⟩,
        .ok result) := by
  unfold withTransaction
  simp only [transactionMut_eq_ok.mpr ⟨hget, rfl⟩, hupdate]

section Operations

variable {coordinator : TransactionCoordinator} {transactionalId : Bytes}
  {identity : ProducerIdentity}

/-- A rejected initialisation is one of the empty id, and changes nothing. -/
theorem init_error {error : CoordinationError}
    (h : (coordinator.init transactionalId).2 = .error error) :
    (coordinator.init transactionalId).1 = coordinator := by
  unfold init at h ⊢
  by_cases hempty : transactionalId.isEmpty
  · rw [if_pos hempty]
  · rw [if_neg hempty] at h
    cases h

/-- An accepted initialisation replaces the entry by an empty transaction. -/
theorem init_ok {issued : ProducerIdentity}
    (h : (coordinator.init transactionalId).2 = .ok issued) :
    issued = (coordinator.issue transactionalId).1 ∧
      (coordinator.init transactionalId).1 =
        ⟨(coordinator.issue transactionalId).2,
          coordinator.transactions.insert transactionalId ⟨issued, .empty, ∅, []⟩⟩ := by
  unfold init at h ⊢
  by_cases hempty : transactionalId.isEmpty
  · rw [if_pos hempty] at h
    cases h
  · rw [if_neg hempty] at h ⊢
    cases h
    exact ⟨rfl, rfl⟩

theorem ne_nil_of_init_ok {issued : ProducerIdentity}
    (h : (coordinator.init transactionalId).2 = .ok issued) : transactionalId ≠ [] := by
  rintro rfl
  cases h

/-- A known transactional id keeps its producer id when it is initialised again. -/
theorem issue_id {transaction : Transaction}
    (h : coordinator.transactions[transactionalId]? = some transaction) :
    (coordinator.issue transactionalId).1.id = transaction.identity.id := by
  unfold issue
  rw [h]

/-- A new transactional id gets the next producer id, and the counter moves on. -/
theorem issue_of_none (h : coordinator.transactions[transactionalId]? = none) :
    coordinator.issue transactionalId =
      (⟨coordinator.nextId, 0⟩, saturatingSucc i64Max coordinator.nextId) := by
  unfold issue
  rw [h]

/-- Initialising a known transactional id again does not touch the counter. -/
theorem issue_of_some {transaction : Transaction}
    (h : coordinator.transactions[transactionalId]? = some transaction) :
    (coordinator.issue transactionalId).2 = coordinator.nextId := by
  unfold issue
  rw [h]

theorem addPartition_error {error : CoordinationError}
    (h : (coordinator.addPartition transactionalId identity topic partition).2 = .error error) :
    (coordinator.addPartition transactionalId identity topic partition).1 = coordinator := by
  unfold addPartition at h ⊢
  split
  · rfl
  · next hvalid =>
      rw [if_neg hvalid] at h
      exact withTransaction_error h

/-- An accepted enlistment starts the transaction if necessary. -/
theorem addPartition_ok
    (h : (coordinator.addPartition transactionalId identity topic partition).2 = .ok ()) :
    ∃ transaction, coordinator.transactions[transactionalId]? = some transaction ∧
      transaction.identity = identity ∧
      (coordinator.addPartition transactionalId identity topic partition).1 =
        ⟨coordinator.nextId, coordinator.transactions.insert transactionalId
          { transaction with
            state := .ongoing
            partitions := transaction.partitions.insert ⟨topic, partition⟩ }⟩ := by
  unfold addPartition at h ⊢
  split at h
  · cases h
  · next hvalid =>
      rw [if_neg hvalid]
      obtain ⟨transaction, transaction', hget, hid, hupdate, hstate⟩ := withTransaction_ok h
      split at hupdate
      · cases hupdate
      · cases hupdate
        exact ⟨transaction, hget, hid, hstate⟩

/-- An accepted enlistment names a topic and an index. -/
theorem addPartition_valid
    (h : (coordinator.addPartition transactionalId identity topic partition).2 = .ok ()) :
    topic ≠ [] ∧ 0 ≤ partition := by
  unfold addPartition at h
  split at h
  · cases h
  · next hvalid =>
      simp only [Bool.or_eq_true, List.isEmpty_iff, decide_eq_true_eq, not_or, Int.not_lt] at hvalid
      exact hvalid

/-- A validated produce is one under the current identity, into an enlisted partition of an
ongoing transaction. -/
theorem validateProduce_ok
    (h : coordinator.validateProduce transactionalId identity topic partition = .ok ()) :
    ∃ transaction, coordinator.transactions[transactionalId]? = some transaction ∧
      transaction.identity = identity ∧ transaction.state = .ongoing ∧
      ⟨topic, partition⟩ ∈ transaction.partitions := by
  unfold validateProduce at h
  rcases hm : coordinator.transactionMut transactionalId identity with error | transaction
  · rw [hm] at h
    cases h
  · rw [hm] at h
    obtain ⟨hget, hid⟩ := transactionMut_eq_ok.mp hm
    simp only at h
    split at h
    · cases h
    · next hvalid =>
        rw [not_or, not_not, not_not] at hvalid
        exact ⟨transaction, hget, hid, hvalid.1, hvalid.2⟩

theorem addOffset_error {offset : TransactionOffset} {error : CoordinationError}
    (h : (coordinator.addOffset transactionalId identity offset).2 = .error error) :
    (coordinator.addOffset transactionalId identity offset).1 = coordinator := by
  unfold addOffset at h ⊢
  split
  · rfl
  · next hvalid =>
      rw [if_neg hvalid] at h
      exact withTransaction_error h

/-- An accepted consumer offset is well-formed and goes to the end of the ongoing transaction's
list. -/
theorem addOffset_ok {offset : TransactionOffset}
    (h : (coordinator.addOffset transactionalId identity offset).2 = .ok ()) :
    (0 ≤ offset.partition ∧ 0 ≤ offset.offset) ∧
      ∃ transaction, coordinator.transactions[transactionalId]? = some transaction ∧
        transaction.identity = identity ∧ transaction.state = .ongoing ∧
        (coordinator.addOffset transactionalId identity offset).1 =
          ⟨coordinator.nextId, coordinator.transactions.insert transactionalId
            { transaction with offsets := transaction.offsets ++ [offset] }⟩ := by
  unfold addOffset at h ⊢
  split at h
  · cases h
  · next hvalid =>
      rw [if_neg hvalid]
      simp only [Bool.or_eq_true, decide_eq_true_eq, not_or, Int.not_lt] at hvalid
      obtain ⟨transaction, transaction', hget, hid, hupdate, hstate⟩ := withTransaction_ok h
      split at hupdate
      · cases hupdate
      · next hongoing =>
          cases hupdate
          exact ⟨⟨hvalid.1.2, hvalid.2⟩, transaction, hget, hid, not_not.mp hongoing, hstate⟩

/-- The fields of an accepted consumer offset. -/
theorem addOffset_valid {offset : TransactionOffset}
    (h : (coordinator.addOffset transactionalId identity offset).2 = .ok ()) : offset.Valid := by
  unfold addOffset at h
  split at h
  · cases h
  · next hvalid =>
      simp only [Bool.or_eq_true, List.isEmpty_iff, decide_eq_true_eq, not_or, Int.not_lt] at hvalid
      obtain ⟨⟨⟨⟨hgroup, htopic⟩, hgeneration⟩, hpartition⟩, hoffset⟩ := hvalid
      exact ⟨hgroup, htopic, hgeneration, hpartition, hoffset⟩

theorem endTransaction_error {commit : Bool} {error : CoordinationError}
    (h : (coordinator.endTransaction transactionalId identity commit).2 = .error error) :
    (coordinator.endTransaction transactionalId identity commit).1 = coordinator :=
  withTransaction_error h

/-- **An accepted end** hands out everything enlisted and leaves an empty transaction. -/
theorem endTransaction_ok {commit : Bool} {completion : TransactionCompletion}
    (h : (coordinator.endTransaction transactionalId identity commit).2 = .ok completion) :
    ∃ transaction, coordinator.transactions[transactionalId]? = some transaction ∧
      transaction.identity = identity ∧ transaction.state = .ongoing ∧
      completion = ⟨transaction.partitions.toList, transaction.offsets⟩ ∧
      (coordinator.endTransaction transactionalId identity commit).1 =
        ⟨coordinator.nextId, coordinator.transactions.insert transactionalId
          ⟨transaction.identity, .empty, ∅, []⟩⟩ := by
  obtain ⟨transaction, transaction', hget, hid, hupdate, hstate⟩ := withTransaction_ok h
  split at hupdate
  · cases hupdate
  · next hongoing =>
      cases hupdate
      exact ⟨transaction, hget, hid, not_not.mp hongoing, rfl, hstate⟩

/-- The current producer may enlist a partition while nothing is open. -/
theorem addPartition_accepts {transaction : Transaction}
    (hget : coordinator.transactions[transactionalId]? = some transaction)
    (hempty : transaction.state = .empty) (htopic : topic ≠ []) (hpartition : 0 ≤ partition) :
    coordinator.addPartition transactionalId transaction.identity topic partition =
      (⟨coordinator.nextId, coordinator.transactions.insert transactionalId
          { transaction with
            state := .ongoing
            partitions := transaction.partitions.insert ⟨topic, partition⟩ }⟩, .ok ()) := by
  unfold addPartition
  rw [if_neg]
  · refine withTransaction_accepts hget ?_
    simp [hempty]
  · simp [htopic, hpartition]

/-- The current producer may end what is open. -/
theorem endTransaction_accepts {transaction : Transaction} (commit : Bool)
    (hget : coordinator.transactions[transactionalId]? = some transaction)
    (hongoing : transaction.state = .ongoing) :
    coordinator.endTransaction transactionalId transaction.identity commit =
      (⟨coordinator.nextId, coordinator.transactions.insert transactionalId
          ⟨transaction.identity, .empty, ∅, []⟩⟩,
        .ok ⟨transaction.partitions.toList, transaction.offsets⟩) := by
  refine withTransaction_accepts hget ?_
  simp [hongoing]

/-- What is not open cannot be ended, not even by the current producer. -/
theorem endTransaction_refuses {transaction : Transaction} (commit : Bool)
    (hget : coordinator.transactions[transactionalId]? = some transaction)
    (hclosed : transaction.state ≠ .ongoing) :
    coordinator.endTransaction transactionalId transaction.identity commit =
      (coordinator, .error .invalidTransactionState) := by
  unfold endTransaction withTransaction
  rw [transactionMut_eq_ok.mpr ⟨hget, rfl⟩]
  simp only [if_pos hclosed]

end Operations

end TransactionCoordinator

end CharlotteBroker.Core
