import CharlotteBroker.Core.Epochs
import Mathlib.Data.List.DropRight

/-!
# What the transaction coordinator stores

The state of every transaction along a run of the coordinator's operations, and what `end` hands
out.

* `TransactionOp.apply_cases` is the inversion of one operation: it is refused and changes nothing;
  or it is an `init`; or it updates the transaction it names (`TransactionOp.update`), which passed
  the operation's checks (`TransactionOp.Admits`).
* `Transaction.Consistent` is the invariant of one transaction, `Transaction.Holds` relates it to
  the operations accepted since it was last emptied (`sinceReset`).
* `DistinctIds`: producer ids are given out once, below the counter.
* `coordinator_consistent` puts these together for every run.
-/

namespace CharlotteBroker.Core

open Std Lib TransactionCoordinator

namespace TransactionOp

/-- The operation returns `Ok`. -/
def accepted (coordinator : TransactionCoordinator) : TransactionOp → Bool
  | .init transactionalId => (coordinator.init transactionalId).2.isOk
  | .addPartition transactionalId identity topic partition =>
      (coordinator.addPartition transactionalId identity topic partition).2.isOk
  | .validateProduce transactionalId identity topic partition =>
      (coordinator.validateProduce transactionalId identity topic partition).isOk
  | .addOffset transactionalId identity offset =>
      (coordinator.addOffset transactionalId identity offset).2.isOk
  | .endTransaction transactionalId identity commit =>
      (coordinator.endTransaction transactionalId identity commit).2.isOk

/-- The transactional id the operation names. -/
def transactionalId : TransactionOp → Bytes
  | .init transactionalId => transactionalId
  | .addPartition transactionalId _ _ _ => transactionalId
  | .validateProduce transactionalId _ _ _ => transactionalId
  | .addOffset transactionalId _ _ => transactionalId
  | .endTransaction transactionalId _ _ => transactionalId

/-- The operation is an `init`. -/
def isInit : TransactionOp → Bool
  | .init _ => true
  | _ => false

/-- The operation, if accepted, empties the transaction. -/
def resets (tid : Bytes) : TransactionOp → Bool
  | .init transactionalId => transactionalId == tid
  | .endTransaction transactionalId _ _ => transactionalId == tid
  | _ => false

/-- The partition the operation, if accepted, enlists. -/
def enlistsPartition (tid : Bytes) : TransactionOp → Option TopicPartition
  | .addPartition transactionalId _ topic partition =>
      if transactionalId = tid then some ⟨topic, partition⟩ else none
  | _ => none

/-- The consumer offset the operation, if accepted, enlists. -/
def enlistsOffset (tid : Bytes) : TransactionOp → Option TransactionOffset
  | .addOffset transactionalId _ offset => if transactionalId = tid then some offset else none
  | _ => none

/-- What an operation other than `init` makes of the transaction it finds. -/
def update (transaction : Transaction) : TransactionOp → Transaction
  | .addPartition _ _ topic partition =>
      { transaction with
        state := .ongoing
        partitions := transaction.partitions.insert ⟨topic, partition⟩ }
  | .addOffset _ _ offset => { transaction with offsets := transaction.offsets ++ [offset] }
  | .endTransaction _ _ _ => ⟨transaction.identity, .empty, ∅, []⟩
  | .init _ | .validateProduce _ _ _ _ => transaction

/-- What an operation other than `init` asks of its arguments and of the transaction it finds. -/
def Admits (transaction : Transaction) : TransactionOp → Prop
  | .addPartition _ identity topic partition =>
      transaction.identity = identity ∧ topic ≠ [] ∧ 0 ≤ partition
  | .addOffset _ identity offset =>
      transaction.identity = identity ∧ transaction.state = .ongoing ∧ offset.Valid
  | .endTransaction _ identity _ =>
      transaction.identity = identity ∧ transaction.state = .ongoing
  | .validateProduce _ identity topic partition =>
      transaction.identity = identity ∧ transaction.state = .ongoing ∧
        ⟨topic, partition⟩ ∈ transaction.partitions
  | .init _ => False

/-! ## One operation -/

/-- **One operation, by its result.** -/
theorem apply_cases (coordinator : TransactionCoordinator) (op : TransactionOp) :
    op.accepted coordinator = false ∧ op.apply coordinator = coordinator ∨
      op.accepted coordinator = true ∧
        (∃ tid, op = .init tid ∧ tid ≠ [] ∧
          op.apply coordinator = ⟨(coordinator.issue tid).2,
            coordinator.transactions.insert tid ⟨(coordinator.issue tid).1, .empty, ∅, []⟩⟩) ∨
      op.accepted coordinator = true ∧
        ∃ transaction, coordinator.transactions[op.transactionalId]? = some transaction ∧
          op.Admits transaction ∧
          op.apply coordinator = ⟨coordinator.nextId,
            coordinator.transactions.insert op.transactionalId (op.update transaction)⟩ := by
  cases op with
  | init tid =>
      rcases hinit : (coordinator.init tid).2 with error | issued
      · exact Or.inl ⟨congrArg Except.isOk hinit, init_error hinit⟩
      · obtain ⟨rfl, hstate⟩ := init_ok hinit
        exact Or.inr (Or.inl ⟨congrArg Except.isOk hinit, tid, rfl, ne_nil_of_init_ok hinit, hstate⟩)
  | addPartition tid identity topic partition =>
      rcases hadd : (coordinator.addPartition tid identity topic partition).2 with error | ⟨⟩
      · exact Or.inl ⟨congrArg Except.isOk hadd, addPartition_error hadd⟩
      · obtain ⟨transaction, hget, hid, hstate⟩ := addPartition_ok hadd
        exact Or.inr (Or.inr ⟨congrArg Except.isOk hadd, transaction, hget,
          ⟨hid, addPartition_valid hadd⟩, hstate⟩)
  | validateProduce tid identity topic partition =>
      rcases hvalidate : coordinator.validateProduce tid identity topic partition with error | ⟨⟩
      · exact Or.inl ⟨congrArg Except.isOk hvalidate, rfl⟩
      · obtain ⟨transaction, hget, hadmits⟩ := validateProduce_ok hvalidate
        refine Or.inr (Or.inr ⟨congrArg Except.isOk hvalidate, transaction, hget, hadmits, ?_⟩)
        show coordinator = ⟨coordinator.nextId, coordinator.transactions.insert tid transaction⟩
        rw [insert_of_getElem? hget]
  | addOffset tid identity offset =>
      rcases hadd : (coordinator.addOffset tid identity offset).2 with error | ⟨⟩
      · exact Or.inl ⟨congrArg Except.isOk hadd, addOffset_error hadd⟩
      · obtain ⟨-, transaction, hget, hid, hongoing, hstate⟩ := addOffset_ok hadd
        exact Or.inr (Or.inr ⟨congrArg Except.isOk hadd, transaction, hget,
          ⟨hid, hongoing, addOffset_valid hadd⟩, hstate⟩)
  | endTransaction tid identity commit =>
      rcases hend : (coordinator.endTransaction tid identity commit).2 with error | completion
      · exact Or.inl ⟨congrArg Except.isOk hend, endTransaction_error hend⟩
      · obtain ⟨transaction, hget, hid, hongoing, -, hstate⟩ := endTransaction_ok hend
        exact Or.inr (Or.inr ⟨congrArg Except.isOk hend, transaction, hget, ⟨hid, hongoing⟩,
          hstate⟩)

/-- Only `init` changes an identity. -/
theorem identity_update (op : TransactionOp) (transaction : Transaction) :
    (op.update transaction).identity = transaction.identity := by
  cases op <;> rfl

end TransactionOp

/-! ## One transaction -/

/-- What holds of every stored transaction. The prepared states are never stored. -/
structure Transaction.Consistent (transaction : Transaction) : Prop where
  state : transaction.state = .empty ∨ transaction.state = .ongoing
  empty_iff : transaction.state = .empty ↔ transaction.partitions = ∅
  no_offsets : transaction.state = .empty → transaction.offsets = []
  partitions : ∀ key ∈ transaction.partitions, key.topic ≠ [] ∧ 0 ≤ key.partition
  offsets : ∀ offset ∈ transaction.offsets, offset.Valid

/-- An emptied transaction is consistent. -/
theorem Transaction.consistent_empty (identity : ProducerIdentity) :
    (⟨identity, .empty, ∅, []⟩ : Transaction).Consistent where
  state := Or.inl rfl
  empty_iff := ⟨fun _ => rfl, fun _ => rfl⟩
  no_offsets _ := rfl
  partitions _ h := absurd h ExtTreeSet.not_mem_empty
  offsets _ h := nomatch h

/-- **One operation** keeps the transaction it updates consistent. -/
theorem Transaction.Consistent.update {transaction : Transaction} (h : transaction.Consistent)
    {op : TransactionOp} (hadmits : op.Admits transaction) :
    (op.update transaction).Consistent := by
  cases op with
  | init tid => exact hadmits.elim
  | validateProduce tid identity topic partition => exact h
  | endTransaction tid identity commit => exact consistent_empty _
  | addPartition tid identity topic partition =>
      refine ⟨Or.inr rfl, ?_, nofun, ?_, h.offsets⟩
      · exact ⟨nofun, fun hempty => absurd hempty ExtTreeSet.insert_ne_empty⟩
      · intro key hkey
        rcases (mem_insert_iff_eq_or _ _ _).mp hkey with rfl | hold
        · exact hadmits.2
        · exact h.partitions key hold
  | addOffset tid identity offset =>
      obtain ⟨-, hongoing, hvalid⟩ := hadmits
      refine ⟨h.state, h.empty_iff, fun hempty => ?_, h.partitions, ?_⟩
      · rw [show transaction.state = .empty from hempty] at hongoing
        cases hongoing
      · intro other hother
        rcases List.mem_append.mp hother with hold | hnew
        · exact h.offsets other hold
        · rw [List.mem_singleton.mp hnew]
          exact hvalid

/-! ## The history of a transaction -/

/-- The operations since the transaction was last emptied. -/
def sinceReset (tid : Bytes) (ops : List TransactionOp) : List TransactionOp :=
  ops.rtakeWhile fun op => !op.resets tid

/-- The partitions enlisted since then. -/
def enlistedPartitions (tid : Bytes) (ops : List TransactionOp) : List TopicPartition :=
  (sinceReset tid ops).filterMap (TransactionOp.enlistsPartition tid)

/-- The consumer offsets enlisted since then. -/
def enlistedOffsets (tid : Bytes) (ops : List TransactionOp) : List TransactionOffset :=
  (sinceReset tid ops).filterMap (TransactionOp.enlistsOffset tid)

theorem sinceReset_concat (tid : Bytes) (ops : List TransactionOp) (op : TransactionOp) :
    sinceReset tid (ops ++ [op]) = if op.resets tid then [] else sinceReset tid ops ++ [op] := by
  unfold sinceReset
  rw [List.rtakeWhile_concat]
  rcases op.resets tid with _ | _
  · rfl
  · rfl

/-- What is enlisted after one more operation. -/
theorem filterMap_sinceReset_concat {α : Type} (tid : Bytes) (ops : List TransactionOp)
    (op : TransactionOp) (f : TransactionOp → Option α) :
    (sinceReset tid (ops ++ [op])).filterMap f =
      if op.resets tid then [] else (sinceReset tid ops).filterMap f ++ (f op).toList := by
  rw [sinceReset_concat]
  split
  · rfl
  · rw [List.filterMap_append]
    rcases hop : f op with _ | a
    · simp [hop]
    · simp [hop]

section Enlisted

variable {tid : Bytes} {ops : List TransactionOp} {op : TransactionOp}

theorem enlistedPartitions_reset (h : op.resets tid = true) :
    enlistedPartitions tid (ops ++ [op]) = [] := by
  rw [enlistedPartitions, filterMap_sinceReset_concat, if_pos h]

theorem enlistedOffsets_reset (h : op.resets tid = true) :
    enlistedOffsets tid (ops ++ [op]) = [] := by
  rw [enlistedOffsets, filterMap_sinceReset_concat, if_pos h]

/-- An operation that empties nothing enlists at the end. -/
theorem enlistedPartitions_concat (h : op.resets tid = false) :
    enlistedPartitions tid (ops ++ [op]) =
      enlistedPartitions tid ops ++ (op.enlistsPartition tid).toList := by
  rw [enlistedPartitions, filterMap_sinceReset_concat, h]
  rfl

theorem enlistedOffsets_concat (h : op.resets tid = false) :
    enlistedOffsets tid (ops ++ [op]) =
      enlistedOffsets tid ops ++ (op.enlistsOffset tid).toList := by
  rw [enlistedOffsets, filterMap_sinceReset_concat, h]
  rfl

/-- An operation on another transaction does nothing here. -/
theorem enlists_other (h : tid ≠ op.transactionalId) :
    op.resets tid = false ∧ op.enlistsPartition tid = none ∧ op.enlistsOffset tid = none := by
  have hne : ¬ op.transactionalId = tid := fun heq => h heq.symm
  cases op with
  | init | endTransaction => exact ⟨beq_false_of_ne hne, rfl, rfl⟩
  | addPartition => exact ⟨rfl, if_neg hne, rfl⟩
  | addOffset => exact ⟨rfl, rfl, if_neg hne⟩
  | validateProduce => exact ⟨rfl, rfl, rfl⟩

end Enlisted

/-- The transaction holds what the operations enlisted. -/
structure Transaction.Holds (transaction : Transaction) (tid : Bytes) (ops : List TransactionOp) :
    Prop where
  partitions : ∀ key, key ∈ transaction.partitions ↔ key ∈ enlistedPartitions tid ops
  offsets : transaction.offsets = enlistedOffsets tid ops

theorem Transaction.holds_of_resets {op : TransactionOp} {tid : Bytes} (h : op.resets tid = true)
    (identity : ProducerIdentity) (ops : List TransactionOp) :
    (⟨identity, .empty, ∅, []⟩ : Transaction).Holds tid (ops ++ [op]) := by
  refine ⟨fun key => ?_, (enlistedOffsets_reset h).symm⟩
  rw [enlistedPartitions_reset h]
  exact iff_of_false ExtTreeSet.not_mem_empty List.not_mem_nil

section Holds

variable {transaction : Transaction} {tid : Bytes} {ops : List TransactionOp}

theorem Transaction.Holds.other (h : transaction.Holds tid ops) {op : TransactionOp}
    (hother : tid ≠ op.transactionalId) : transaction.Holds tid (ops ++ [op]) := by
  obtain ⟨hreset, hpartition, hoffset⟩ := enlists_other hother
  refine ⟨fun key => ?_, ?_⟩
  · rw [enlistedPartitions_concat hreset, hpartition, Option.toList_none, List.append_nil]
    exact h.partitions key
  · rw [enlistedOffsets_concat hreset, hoffset, Option.toList_none, List.append_nil]
    exact h.offsets

/-- **One operation** on the transaction enlists what it says. -/
theorem Transaction.Holds.update {op : TransactionOp} (h : transaction.Holds op.transactionalId ops)
    (hadmits : op.Admits transaction) :
    (op.update transaction).Holds op.transactionalId (ops ++ [op]) := by
  -- of the operations that empty nothing, each enlists at most one thing
  have hkeepPartitions : op.resets op.transactionalId = false →
      op.enlistsPartition op.transactionalId = none → ∀ key,
        key ∈ transaction.partitions ↔
          key ∈ enlistedPartitions op.transactionalId (ops ++ [op]) := by
    intro hreset hnone key
    rw [enlistedPartitions_concat hreset, hnone, Option.toList_none, List.append_nil]
    exact h.partitions key
  have hkeepOffsets : op.resets op.transactionalId = false →
      op.enlistsOffset op.transactionalId = none →
        transaction.offsets = enlistedOffsets op.transactionalId (ops ++ [op]) := by
    intro hreset hnone
    rw [enlistedOffsets_concat hreset, hnone, Option.toList_none, List.append_nil]
    exact h.offsets
  cases op with
  | init tid => exact hadmits.elim
  | endTransaction tid identity commit =>
      have hreset : (TransactionOp.endTransaction tid identity commit).resets tid = true :=
        beq_self_eq_true tid
      exact holds_of_resets hreset _ _
  | validateProduce tid identity topic partition =>
      exact ⟨hkeepPartitions rfl rfl, hkeepOffsets rfl rfl⟩
  | addPartition tid identity topic partition =>
      have henlists : (TransactionOp.addPartition tid identity topic partition).enlistsPartition
          tid = some ⟨topic, partition⟩ := if_pos rfl
      refine ⟨fun key => ?_, hkeepOffsets rfl rfl⟩
      rw [enlistedPartitions_concat rfl, TransactionOp.transactionalId, henlists,
        Option.toList_some, List.mem_append, List.mem_singleton, or_comm]
      exact (mem_insert_iff_eq_or _ _ _).trans (or_congr_right (h.partitions key))
  | addOffset tid identity offset =>
      have henlists : (TransactionOp.addOffset tid identity offset).enlistsOffset tid =
          some offset := if_pos rfl
      refine ⟨hkeepPartitions rfl rfl, ?_⟩
      rw [enlistedOffsets_concat rfl, TransactionOp.transactionalId, henlists, Option.toList_some]
      exact congrArg (· ++ [offset]) h.offsets

end Holds

/-! ## Producer ids -/

/-- After `allocated` allocations, every id given out is below the counter and belongs to one
transactional id. -/
structure DistinctIds (transactions : TransactionCoordinator) (allocated : ℕ) : Prop where
  next : transactions.nextId = 1 + allocated
  below : ∀ (tid : Bytes) (transaction : Transaction),
    transactions.transactions[tid]? = some transaction →
      transaction.identity.id < transactions.nextId
  distinct : ∀ (tid tid' : Bytes) (transaction transaction' : Transaction),
    transactions.transactions[tid]? = some transaction →
      transactions.transactions[tid']? = some transaction' →
        transaction.identity.id = transaction'.identity.id → tid = tid'

theorem distinctIds_new : DistinctIds .new 0 where
  next := rfl
  below _ _ h := by simp [TransactionCoordinator.new] at h
  distinct _ _ _ _ h := by simp [TransactionCoordinator.new] at h

/-- A transaction replaced under its own id. -/
theorem DistinctIds.replace {transactions : TransactionCoordinator} {allocated : ℕ}
    (h : DistinctIds transactions allocated) {tid : Bytes} {old new : Transaction}
    (hget : transactions.transactions[tid]? = some old)
    (hid : new.identity.id = old.identity.id) :
    DistinctIds ⟨transactions.nextId, transactions.transactions.insert tid new⟩ allocated := by
  -- every transaction has the producer id it had
  have hback : ∀ (tid' : Bytes) (transaction : Transaction),
      (transactions.transactions.insert tid new)[tid']? = some transaction →
        ∃ before : Transaction, transactions.transactions[tid']? = some before ∧
          transaction.identity.id = before.identity.id := by
    intro tid' transaction hfound
    rw [getElem?_insert_eq_ite] at hfound
    by_cases heq : tid' = tid
    · rw [if_pos heq] at hfound
      cases hfound
      exact ⟨old, heq ▸ hget, hid⟩
    · rw [if_neg heq] at hfound
      exact ⟨transaction, hfound, rfl⟩
  refine ⟨h.next, ?_, ?_⟩
  · intro tid' transaction hfound
    obtain ⟨before, hbefore, hsame⟩ := hback tid' transaction hfound
    rw [hsame]
    exact h.below tid' before hbefore
  · intro tid₁ tid₂ transaction₁ transaction₂ h₁ h₂ heq
    obtain ⟨before₁, hbefore₁, hsame₁⟩ := hback tid₁ transaction₁ h₁
    obtain ⟨before₂, hbefore₂, hsame₂⟩ := hback tid₂ transaction₂ h₂
    exact h.distinct tid₁ tid₂ before₁ before₂ hbefore₁ hbefore₂ (by omega)

/-- A new transactional id gets the counter's value, which moves on. -/
theorem DistinctIds.allocate {transactions : TransactionCoordinator} {allocated : ℕ}
    (h : DistinctIds transactions allocated) {tid : Bytes} {new : Transaction}
    (hnone : transactions.transactions[tid]? = none)
    (hid : new.identity.id = transactions.nextId) (hroom : allocated + 1 < 2 ^ 63 - 1) :
    DistinctIds ⟨saturatingSucc i64Max transactions.nextId,
      transactions.transactions.insert tid new⟩ (allocated + 1) := by
  have hnext := h.next
  have hsucc : saturatingSucc i64Max transactions.nextId = transactions.nextId + 1 := by
    unfold saturatingSucc i64Max
    omega
  have hcases : ∀ (tid' : Bytes) (transaction : Transaction),
      (transactions.transactions.insert tid new)[tid']? = some transaction →
        tid' = tid ∧ transaction.identity.id = transactions.nextId ∨
          tid' ≠ tid ∧ transactions.transactions[tid']? = some transaction := by
    intro tid' transaction hfound
    rw [getElem?_insert_eq_ite] at hfound
    by_cases heq : tid' = tid
    · rw [if_pos heq] at hfound
      cases hfound
      exact Or.inl ⟨heq, hid⟩
    · rw [if_neg heq] at hfound
      exact Or.inr ⟨heq, hfound⟩
  rw [hsucc]
  refine ⟨by push_cast; omega, ?_, ?_⟩
  · intro tid' transaction hfound
    show transaction.identity.id < transactions.nextId + 1
    rcases hcases tid' transaction hfound with ⟨-, hnew⟩ | ⟨-, hold⟩
    · omega
    · have hlt := h.below tid' transaction hold
      omega
  · intro tid₁ tid₂ transaction₁ transaction₂ h₁ h₂ heq
    rcases hcases tid₁ transaction₁ h₁ with ⟨rfl, hnew₁⟩ | ⟨-, hold₁⟩ <;>
      rcases hcases tid₂ transaction₂ h₂ with ⟨rfl, hnew₂⟩ | ⟨-, hold₂⟩
    · rfl
    · have hlt := h.below tid₂ transaction₂ hold₂
      omega
    · have hlt := h.below tid₁ transaction₁ hold₁
      omega
    · exact h.distinct tid₁ tid₂ transaction₁ transaction₂ hold₁ hold₂ heq

/-- **What an operation can do to the producer ids**: nothing, or replace one transaction under the
producer id it has, or enter a new transactional id under the next producer id. -/
theorem TransactionOp.apply_ids (coordinator : TransactionCoordinator) (op : TransactionOp) :
    op.apply coordinator = coordinator ∨
      (∃ (tid : Bytes) (old new : Transaction), coordinator.transactions[tid]? = some old ∧
        new.identity.id = old.identity.id ∧
        op.apply coordinator = ⟨coordinator.nextId, coordinator.transactions.insert tid new⟩) ∨
      ∃ (tid : Bytes) (new : Transaction), op = .init tid ∧ tid ≠ [] ∧
        coordinator.transactions[tid]? = none ∧ new.identity.id = coordinator.nextId ∧
        op.apply coordinator =
          ⟨saturatingSucc i64Max coordinator.nextId, coordinator.transactions.insert tid new⟩ := by
  rcases op.apply_cases coordinator with
    ⟨-, hsame⟩ | ⟨-, tid, rfl, hne, hstate⟩ | ⟨-, old, hget, -, hstate⟩
  · exact Or.inl hsame
  · rcases hget : coordinator.transactions[tid]? with _ | old
    · refine Or.inr (Or.inr ⟨tid, ⟨(coordinator.issue tid).1, .empty, ∅, []⟩, rfl, hne, hget, ?_, ?_⟩)
      · show (coordinator.issue tid).1.id = coordinator.nextId
        rw [issue_of_none hget]
      · rw [hstate, issue_of_none hget]
    · exact Or.inr (Or.inl ⟨tid, old, _, hget, issue_id hget, by rw [hstate, issue_of_some hget]⟩)
  · exact Or.inr (Or.inl ⟨_, old, _, hget, by rw [op.identity_update], hstate⟩)

/-! ## Runs -/

namespace TransactionCoordinator

/-- The operations that a run accepts, in order. -/
def acceptedOps : TransactionCoordinator → List TransactionOp → List TransactionOp
  | _, [] => []
  | coordinator, op :: ops =>
      if op.accepted coordinator then op :: acceptedOps (op.apply coordinator) ops
      else acceptedOps (op.apply coordinator) ops

theorem acceptedOps_concat (coordinator : TransactionCoordinator) (ops : List TransactionOp)
    (op : TransactionOp) :
    coordinator.acceptedOps (ops ++ [op]) =
      if op.accepted (coordinator.run ops) then coordinator.acceptedOps ops ++ [op]
      else coordinator.acceptedOps ops := by
  induction ops generalizing coordinator with
  | nil => rfl
  | cons first ops ih =>
      rw [List.cons_append, acceptedOps, acceptedOps, run_cons, ih]
      split <;> split <;> rfl

/-- The state of the coordinator: consistent transactions, under ids given out once. -/
structure Consistent (coordinator : TransactionCoordinator) : Prop where
  transactions : ∀ (tid : Bytes) (transaction : Transaction),
    coordinator.transactions[tid]? = some transaction → transaction.Consistent
  ids : ∀ (tid : Bytes) (transaction : Transaction),
    coordinator.transactions[tid]? = some transaction →
      1 ≤ transaction.identity.id ∧ transaction.identity.id ≤ coordinator.nextId - 1
  distinct : ∀ (tid tid' : Bytes) (transaction transaction' : Transaction), tid ≠ tid' →
    coordinator.transactions[tid]? = some transaction →
      coordinator.transactions[tid']? = some transaction' →
        transaction.identity.id ≠ transaction'.identity.id

/-- **Every run** keeps the transactions consistent, with what was enlisted in them. -/
theorem run_holds (ops : List TransactionOp) (tid : Bytes) (transaction : Transaction)
    (h : (TransactionCoordinator.new.run ops).transactions[tid]? = some transaction) :
    transaction.Consistent ∧ transaction.Holds tid (TransactionCoordinator.new.acceptedOps ops) := by
  induction ops using List.reverseRecOn generalizing tid transaction with
  | nil => simp [TransactionCoordinator.new] at h
  | append_singleton ops op ih =>
      rw [run_append, run_cons, run_nil] at h
      rw [acceptedOps_concat]
      rcases op.apply_cases (TransactionCoordinator.new.run ops) with
        ⟨hrefused, hsame⟩ | ⟨haccepted, tid', rfl, -, hstate⟩ |
          ⟨haccepted, old, hget, hadmits, hstate⟩
      · rw [hsame] at h
        rw [if_neg (by rw [hrefused]; exact Bool.false_ne_true)]
        exact ih tid transaction h
      · rw [hstate, getElem?_insert_eq_ite] at h
        rw [if_pos haccepted]
        split at h
        · next heq =>
            cases h
            subst heq
            have hreset : (TransactionOp.init tid).resets tid = true := beq_self_eq_true tid
            exact ⟨Transaction.consistent_empty _, Transaction.holds_of_resets hreset _ _⟩
        · next hne =>
            obtain ⟨hconsistent, hholds⟩ := ih tid transaction h
            exact ⟨hconsistent, hholds.other hne⟩
      · rw [hstate, getElem?_insert_eq_ite] at h
        rw [if_pos haccepted]
        split at h
        · next heq =>
            cases h
            subst heq
            obtain ⟨hconsistent, hholds⟩ := ih _ old hget
            exact ⟨hconsistent.update hadmits, hholds.update hadmits⟩
        · next hne =>
            obtain ⟨hconsistent, hholds⟩ := ih tid transaction h
            exact ⟨hconsistent, hholds.other hne⟩

/-- The producer ids of a run with room for its allocations. -/
theorem run_distinctIds (ops : List TransactionOp)
    (h : ops.countP TransactionOp.isInit < 2 ^ 63 - 1) :
    ∃ allocated ≤ ops.countP TransactionOp.isInit,
      DistinctIds (TransactionCoordinator.new.run ops) allocated ∧
        ∀ (tid : Bytes) (transaction : Transaction),
          (TransactionCoordinator.new.run ops).transactions[tid]? = some transaction →
            1 ≤ transaction.identity.id := by
  induction ops using List.reverseRecOn with
  | nil =>
      refine ⟨0, Nat.zero_le _, distinctIds_new, fun tid transaction hget => ?_⟩
      simp [TransactionCoordinator.new] at hget
  | append_singleton ops op ih =>
      rw [List.countP_append, List.countP_singleton] at h ⊢
      obtain ⟨allocated, hle, hids, hpositive⟩ := ih (by omega)
      rw [run_append, run_cons, run_nil]
      have hinsert : ∀ {next : Int} {tid' : Bytes} {new : Transaction}, 1 ≤ new.identity.id →
          ∀ (tid : Bytes) (transaction : Transaction),
            (TransactionCoordinator.mk next ((TransactionCoordinator.new.run
              ops).transactions.insert tid' new)).transactions[tid]? = some transaction →
                1 ≤ transaction.identity.id := by
        intro next tid' new hnew tid transaction hget
        rw [getElem?_insert_eq_ite] at hget
        split at hget
        · cases hget
          exact hnew
        · exact hpositive tid transaction hget
      rcases op.apply_ids (TransactionCoordinator.new.run ops) with
        hsame | ⟨tid', old, new, hget, hid, hstate⟩ | ⟨tid', new, rfl, -, hnone, hid, hstate⟩
      · rw [hsame]
        exact ⟨allocated, by omega, hids, hpositive⟩
      · rw [hstate]
        exact ⟨allocated, by omega, hids.replace hget hid,
          hinsert (by rw [hid]; exact hpositive tid' old hget)⟩
      · rw [hstate]
        rw [show (TransactionOp.init tid').isInit = true from rfl, if_pos rfl] at h ⊢
        have hnext := hids.next
        exact ⟨allocated + 1, by omega, hids.allocate hnone hid (by omega), hinsert (by omega)⟩

end TransactionCoordinator

/-- The completion is what the operations enlisted: every partition once, and the offsets in order,
as often as they were enlisted. -/
structure TransactionCompletion.Returns (completion : TransactionCompletion) (tid : Bytes)
    (ops : List TransactionOp) : Prop where
  nodup : completion.partitions.Nodup
  partitions : ∀ key, key ∈ completion.partitions ↔ key ∈ enlistedPartitions tid ops
  offsets : completion.offsets = enlistedOffsets tid ops

/-- **The state of the coordinator** after any operations, with fewer than `2^63 - 1` inits among
them: its transactions are consistent and their ids distinct, and an end returns exactly what was
accepted for the transaction since its last accepted init or end. -/
theorem coordinator_consistent (ops : List TransactionOp)
    (h : ops.countP TransactionOp.isInit < 2 ^ 63 - 1) :
    (TransactionCoordinator.new.run ops).Consistent ∧
      ∀ tid identity commit completion,
        ((TransactionCoordinator.new.run ops).endTransaction tid identity commit).2 =
            .ok completion →
          completion.Returns tid (TransactionCoordinator.new.acceptedOps ops) := by
  obtain ⟨allocated, -, hids, hpositive⟩ := run_distinctIds ops h
  refine ⟨⟨fun tid transaction hget => (run_holds ops tid transaction hget).1, ?_, ?_⟩, ?_⟩
  · intro tid transaction hget
    have hlt := hids.below tid transaction hget
    exact ⟨hpositive tid transaction hget, by omega⟩
  · intro tid tid' transaction transaction' hne hget hget' heq
    exact hne (hids.distinct tid tid' transaction transaction' hget hget' heq)
  · intro tid identity commit completion hend
    obtain ⟨transaction, hget, -, -, rfl, -⟩ := endTransaction_ok hend
    obtain ⟨-, hholds⟩ := run_holds ops tid transaction hget
    refine ⟨?_, fun key => ?_, hholds.offsets⟩
    · exact ExtTreeSet.distinct_toList.imp fun {key other} hne heq =>
        hne (Std.compare_eq_iff_eq.mpr heq)
    · exact ExtTreeSet.mem_toList.trans (hholds.partitions key)

/-- A partition enlisted twice, a refused one, and an offset enlisted twice. -/
theorem coordinator_consistent_twice :
    let ops : List TransactionOp :=
      [.init [120], .addPartition [120] ⟨1, 0⟩ [116] 0, .addPartition [120] ⟨1, 7⟩ [116] 1,
        .addPartition [120] ⟨1, 0⟩ [116] 0, .addOffset [120] ⟨1, 0⟩ ⟨[103], 1, [116], 0, 5⟩,
        .addOffset [120] ⟨1, 0⟩ ⟨[103], 1, [116], 0, 5⟩]
    let completion : TransactionCompletion :=
      ⟨[⟨[116], 0⟩], [⟨[103], 1, [116], 0, 5⟩, ⟨[103], 1, [116], 0, 5⟩]⟩
    (TransactionCoordinator.new.run ops).Consistent ∧
      ((TransactionCoordinator.new.run ops).endTransaction [120] ⟨1, 0⟩ true).2 = .ok completion ∧
      completion.Returns [120] (TransactionCoordinator.new.acceptedOps ops) := by
  intro ops completion
  obtain ⟨hconsistent, hreturns⟩ := coordinator_consistent ops (by decide)
  have hend : ((TransactionCoordinator.new.run ops).endTransaction [120] ⟨1, 0⟩ true).2 =
      .ok completion := by decide
  exact ⟨hconsistent, hend, hreturns [120] ⟨1, 0⟩ true completion hend⟩

end CharlotteBroker.Core
