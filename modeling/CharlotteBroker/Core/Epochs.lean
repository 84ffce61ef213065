import CharlotteBroker.Core.Coordination
import CharlotteBroker.Lib.OrderedMap
import Mathlib.Data.List.Induction

/-!
# Producer epochs

Each `init` of a transactional id issues the next epoch of the same producer id, and only the
identity issued last passes `transaction_mut`. How far that fences the earlier identities is a
question of the epoch counter, which saturates at `i16::MAX`.

* `TransactionOp` are the coordinator's operations; `TransactionOp.apply_identity` says what one
  of them can do to the identity stored under a transactional id: only `init` changes it.
* Along a run the stored identity keeps its id and its epoch does not go down
  (`Issued.run`), and a further `init` moves it up, below the limit (`Issued.init`).
* `fenced_iff`: an identity superseded by a later `init` is refused for good exactly when its
  epoch was below the limit.
-/

namespace CharlotteBroker.Core

open Std Lib

/-- The operations of the transaction coordinator. -/
inductive TransactionOp
  | init (transactionalId : Bytes)
  | addPartition (transactionalId : Bytes) (identity : ProducerIdentity) (topic : Bytes)
      (partition : Int)
  | validateProduce (transactionalId : Bytes) (identity : ProducerIdentity) (topic : Bytes)
      (partition : Int)
  | addOffset (transactionalId : Bytes) (identity : ProducerIdentity) (offset : TransactionOffset)
  | endTransaction (transactionalId : Bytes) (identity : ProducerIdentity) (commit : Bool)

/-- The coordinator an operation leaves behind, whatever it returns. -/
def TransactionOp.apply (coordinator : TransactionCoordinator) :
    TransactionOp → TransactionCoordinator
  | .init transactionalId => (coordinator.init transactionalId).1
  | .addPartition transactionalId identity topic partition =>
      (coordinator.addPartition transactionalId identity topic partition).1
  | .validateProduce _ _ _ _ => coordinator
  | .addOffset transactionalId identity offset =>
      (coordinator.addOffset transactionalId identity offset).1
  | .endTransaction transactionalId identity commit =>
      (coordinator.endTransaction transactionalId identity commit).1

namespace TransactionCoordinator

/-- The coordinator after a sequence of operations. -/
def run (coordinator : TransactionCoordinator) (ops : List TransactionOp) :
    TransactionCoordinator :=
  ops.foldl TransactionOp.apply coordinator

@[simp] theorem run_nil (coordinator : TransactionCoordinator) : coordinator.run [] = coordinator :=
  rfl

@[simp] theorem run_cons (coordinator : TransactionCoordinator) (op : TransactionOp)
    (ops : List TransactionOp) :
    coordinator.run (op :: ops) = (op.apply coordinator).run ops := rfl

theorem run_append (coordinator : TransactionCoordinator) (ops ops' : List TransactionOp) :
    coordinator.run (ops ++ ops') = (coordinator.run ops).run ops' := by
  simp [run, List.foldl_append]

/-- The identity stored under a transactional id. -/
def identityOf (coordinator : TransactionCoordinator) (transactionalId : Bytes) :
    Option ProducerIdentity :=
  (coordinator.transactions[transactionalId]?).map Transaction.identity

/-! ## Fenced identities -/

/-- Every operation on the transaction refuses the identity as fenced, whatever its other
arguments, as long as they pass the checks that come before the lookup. -/
structure Fenced (coordinator : TransactionCoordinator) (transactionalId : Bytes)
    (identity : ProducerIdentity) : Prop where
  addPartition : ∀ topic partition, topic ≠ [] → 0 ≤ partition →
    (coordinator.addPartition transactionalId identity topic partition).2 = .error .producerFenced
  validateProduce : ∀ topic partition,
    coordinator.validateProduce transactionalId identity topic partition = .error .producerFenced
  addOffset : ∀ offset : TransactionOffset, offset.groupId ≠ [] → offset.topic ≠ [] →
    0 ≤ offset.generation → 0 ≤ offset.partition → 0 ≤ offset.offset →
    (coordinator.addOffset transactionalId identity offset).2 = .error .producerFenced
  endTransaction : ∀ commit,
    (coordinator.endTransaction transactionalId identity commit).2 = .error .producerFenced

section Fenced

variable {coordinator : TransactionCoordinator} {transactionalId : Bytes}
  {current identity : ProducerIdentity}

theorem transactionMut_of_ne (h : coordinator.identityOf transactionalId = some current)
    (hne : current ≠ identity) :
    coordinator.transactionMut transactionalId identity = .error .producerFenced := by
  obtain ⟨transaction, hget, rfl⟩ := Option.map_eq_some_iff.mp h
  unfold transactionMut
  simp only [hget, ne_eq, hne, not_false_eq_true, if_true]

theorem withTransaction_of_ne {α : Type}
    (h : coordinator.identityOf transactionalId = some current) (hne : current ≠ identity)
    (update : Transaction → Except CoordinationError (Transaction × α)) :
    (coordinator.withTransaction transactionalId identity update).2 = .error .producerFenced := by
  unfold withTransaction
  rw [transactionMut_of_ne h hne]

/-- **Any other identity than the stored one is fenced.** -/
theorem fenced_of_ne (h : coordinator.identityOf transactionalId = some current)
    (hne : current ≠ identity) : coordinator.Fenced transactionalId identity where
  addPartition topic partition htopic hpartition := by
    unfold TransactionCoordinator.addPartition
    rw [if_neg (by simp [htopic, hpartition])]
    exact withTransaction_of_ne h hne _
  validateProduce topic partition := by
    unfold TransactionCoordinator.validateProduce
    rw [transactionMut_of_ne h hne]
  addOffset offset hgroup htopic hgeneration hpartition hoffset := by
    unfold TransactionCoordinator.addOffset
    rw [if_neg (by simp [hgroup, htopic, hgeneration, hpartition, hoffset])]
    exact withTransaction_of_ne h hne _
  endTransaction commit := withTransaction_of_ne h hne _

/-- The stored identity is not fenced: an end under it is accepted or refused for its state. -/
theorem not_fenced_current (h : coordinator.identityOf transactionalId = some current) :
    ¬ coordinator.Fenced transactionalId current := by
  intro hfenced
  have hend := hfenced.endTransaction true
  obtain ⟨transaction, hget, rfl⟩ := Option.map_eq_some_iff.mp h
  unfold TransactionCoordinator.endTransaction withTransaction at hend
  rw [transactionMut_eq_ok.mpr ⟨hget, rfl⟩] at hend
  by_cases hongoing : transaction.state = .ongoing <;> simp [hongoing] at hend

theorem fenced_iff_ne (h : coordinator.identityOf transactionalId = some current) :
    coordinator.Fenced transactionalId identity ↔ current ≠ identity := by
  refine ⟨?_, fenced_of_ne h⟩
  rintro hfenced rfl
  exact not_fenced_current h hfenced

end Fenced

/-! ## What the operations do to the identity -/

section Identity

variable {coordinator : TransactionCoordinator} {transactionalId : Bytes}

theorem identityOf_insert (next : Int) (key : Bytes) (transaction : Transaction) :
    (TransactionCoordinator.mk next
        (coordinator.transactions.insert key transaction)).identityOf transactionalId =
      if transactionalId = key then some transaction.identity
      else coordinator.identityOf transactionalId := by
  unfold identityOf
  rw [getElem?_insert_eq_ite]
  split <;> rfl

/-- An update that keeps the identity keeps every stored identity. -/
theorem identityOf_withTransaction {α : Type} {key : Bytes} {identity : ProducerIdentity}
    {update : Transaction → Except CoordinationError (Transaction × α)}
    (hkeep : ∀ transaction transaction' result, update transaction = .ok (transaction', result) →
      transaction'.identity = transaction.identity) :
    (coordinator.withTransaction key identity update).1.identityOf transactionalId =
      coordinator.identityOf transactionalId := by
  rcases h : (coordinator.withTransaction key identity update).2 with error | result
  · rw [withTransaction_error h]
  · obtain ⟨transaction, transaction', hget, -, hupdate, hstate⟩ := withTransaction_ok h
    rw [hstate, identityOf_insert]
    split
    · next heq =>
        subst heq
        rw [identityOf, hget, hkeep _ _ _ hupdate]
        rfl
    · rfl

theorem identityOf_addPartition {key : Bytes} {identity : ProducerIdentity} {topic : Bytes}
    {partition : Int} :
    (coordinator.addPartition key identity topic partition).1.identityOf transactionalId =
      coordinator.identityOf transactionalId := by
  unfold addPartition
  split
  · rfl
  · apply identityOf_withTransaction
    intro transaction transaction' result hupdate
    split at hupdate <;> cases hupdate
    rfl

theorem identityOf_addOffset {key : Bytes} {identity : ProducerIdentity}
    {offset : TransactionOffset} :
    (coordinator.addOffset key identity offset).1.identityOf transactionalId =
      coordinator.identityOf transactionalId := by
  unfold addOffset
  split
  · rfl
  · apply identityOf_withTransaction
    intro transaction transaction' result hupdate
    split at hupdate <;> cases hupdate
    rfl

theorem identityOf_endTransaction {key : Bytes} {identity : ProducerIdentity} {commit : Bool} :
    (coordinator.endTransaction key identity commit).1.identityOf transactionalId =
      coordinator.identityOf transactionalId := by
  apply identityOf_withTransaction
  intro transaction transaction' result hupdate
  split at hupdate <;> cases hupdate
  rfl

theorem identityOf_init {key : Bytes} :
    (coordinator.init key).1.identityOf transactionalId =
      if key ≠ [] ∧ transactionalId = key then some (coordinator.issue key).1
      else coordinator.identityOf transactionalId := by
  unfold init
  rcases key with _ | ⟨first, rest⟩
  · simp
  · have hempty : ¬ (first :: rest).isEmpty = true := by simp
    rw [if_neg hempty]
    show (TransactionCoordinator.mk _ (coordinator.transactions.insert _ _)).identityOf _ = _
    rw [identityOf_insert]
    simp

/-- The epoch issued to a known transactional id is the next one of the stored identity. -/
theorem issue_of_identityOf {current : ProducerIdentity}
    (h : coordinator.identityOf transactionalId = some current) :
    (coordinator.issue transactionalId).1 = ⟨current.id, saturatingSucc i16Max current.epoch⟩ := by
  obtain ⟨transaction, hget, rfl⟩ := Option.map_eq_some_iff.mp h
  unfold issue
  rw [hget]

theorem issue_of_identityOf_none (h : coordinator.identityOf transactionalId = none) :
    (coordinator.issue transactionalId).1 = ⟨coordinator.nextId, 0⟩ := by
  rw [issue_of_none (Option.map_eq_none_iff.mp h)]

end Identity

end TransactionCoordinator

open TransactionCoordinator

/-- **What one operation can do to the identity**: an accepted `init` of the same transactional id
issues the next one, and everything else leaves it. -/
theorem TransactionOp.apply_identity (coordinator : TransactionCoordinator) (op : TransactionOp)
    (transactionalId : Bytes) :
    (op = .init transactionalId ∧
        (op.apply coordinator).identityOf transactionalId =
          some (coordinator.issue transactionalId).1) ∨
      (op.apply coordinator).identityOf transactionalId =
        coordinator.identityOf transactionalId := by
  cases op with
  | init key =>
      by_cases hkey : key ≠ [] ∧ transactionalId = key
      · obtain ⟨hne, rfl⟩ := hkey
        exact Or.inl ⟨rfl, by rw [TransactionOp.apply, identityOf_init, if_pos ⟨hne, rfl⟩]⟩
      · exact Or.inr (by rw [TransactionOp.apply, identityOf_init, if_neg hkey])
  | addPartition key identity topic partition => exact Or.inr identityOf_addPartition
  | validateProduce key identity topic partition => exact Or.inr rfl
  | addOffset key identity offset => exact Or.inr identityOf_addOffset
  | endTransaction key identity commit => exact Or.inr identityOf_endTransaction

/-! ## Epochs along a run -/

/-- The transactional id is known under producer id `id`, at an epoch from `low` on. -/
def Issued (coordinator : TransactionCoordinator) (transactionalId : Bytes) (id low : Int) : Prop :=
  ∃ current, coordinator.identityOf transactionalId = some current ∧ current.id = id ∧
    low ≤ current.epoch ∧ current.epoch ≤ i16Max

section Issued

variable {coordinator : TransactionCoordinator} {transactionalId : Bytes} {id low : Int}

/-- A further `init` moves the epoch up, as far as the limit. -/
theorem Issued.issue (h : Issued coordinator transactionalId id low) :
    (coordinator.issue transactionalId).1.id = id ∧
      min (low + 1) i16Max ≤ (coordinator.issue transactionalId).1.epoch ∧
      (coordinator.issue transactionalId).1.epoch ≤ i16Max := by
  obtain ⟨current, hcurrent, hid, hlow, hhigh⟩ := h
  rw [issue_of_identityOf hcurrent]
  refine ⟨hid, ?_, ?_⟩
  · show min (low + 1) i16Max ≤ min (current.epoch + 1) i16Max
    omega
  · show min (current.epoch + 1) i16Max ≤ i16Max
    omega

/-- **One step** keeps the producer id and does not lower the epoch. -/
theorem Issued.apply (h : Issued coordinator transactionalId id low) (op : TransactionOp) :
    Issued (op.apply coordinator) transactionalId id low := by
  rcases op.apply_identity coordinator transactionalId with ⟨-, hnew⟩ | hsame
  · obtain ⟨hid, hlow, hhigh⟩ := h.issue
    obtain ⟨current, -, -, hle, hmax⟩ := h
    exact ⟨_, hnew, hid, by omega, hhigh⟩
  · obtain ⟨current, hcurrent, hrest⟩ := h
    exact ⟨current, hsame.trans hcurrent, hrest⟩

/-- **Every run** keeps it. -/
theorem Issued.run (h : Issued coordinator transactionalId id low) (ops : List TransactionOp) :
    Issued (coordinator.run ops) transactionalId id low := by
  induction ops generalizing coordinator with
  | nil => exact h
  | cons op ops ih => exact ih (h.apply op)

/-- Every stored epoch is in the range of an `i16`. -/
theorem identityOf_run_le (ops : List TransactionOp) {current : ProducerIdentity}
    (h : (TransactionCoordinator.new.run ops).identityOf transactionalId = some current) :
    current.epoch ≤ i16Max := by
  induction ops using List.reverseRecOn generalizing current with
  | nil => simp [identityOf, TransactionCoordinator.new] at h
  | append_singleton ops op ih =>
      rw [run_append, run_cons, run_nil] at h
      rcases op.apply_identity (TransactionCoordinator.new.run ops) transactionalId with
        ⟨-, hnew⟩ | hsame
      · rw [hnew] at h
        cases h
        rcases hold : (TransactionCoordinator.new.run ops).identityOf transactionalId with _ | old
        · rw [issue_of_identityOf_none hold]
          exact (by decide : (0 : Int) ≤ i16Max)
        · rw [issue_of_identityOf hold]
          exact Int.min_le_right _ _
      · exact ih (hsame ▸ h)

/-- What an accepted `init` issues is what it stores. -/
theorem identityOf_of_init_ok {issued : ProducerIdentity}
    (h : (coordinator.init transactionalId).2 = .ok issued) :
    (coordinator.init transactionalId).1.identityOf transactionalId = some issued := by
  obtain ⟨hissued, -⟩ := init_ok h
  rw [identityOf_init, if_pos ⟨ne_nil_of_init_ok h, rfl⟩, hissued]

end Issued

/-- **Fencing, and where it ends.** Once an `init` of the same transactional id has followed the
one that issued `first`, `first` is refused by every operation, after any continuation, exactly
when its epoch was below the limit of the counter. -/
theorem fenced_iff (before between after : List TransactionOp) (transactionalId : Bytes)
    (first second : ProducerIdentity)
    (hfirst : ((TransactionCoordinator.new.run before).init transactionalId).2 = .ok first)
    (hsecond : ((TransactionCoordinator.new.run
      (before ++ .init transactionalId :: between)).init transactionalId).2 = .ok second) :
    (TransactionCoordinator.new.run
        (before ++ .init transactionalId :: between ++ .init transactionalId :: after)).Fenced
          transactionalId first ↔
      first.epoch < i16Max := by
  have hstored := identityOf_of_init_ok hfirst
  have hmax : first.epoch ≤ i16Max := by
    apply identityOf_run_le (before ++ [.init transactionalId])
    rw [run_append]
    exact hstored
  have hissued : Issued ((TransactionCoordinator.new.run before).init transactionalId).1
      transactionalId first.id first.epoch := ⟨first, hstored, rfl, Int.le_refl _, hmax⟩
  obtain ⟨hid, hlow, hhigh⟩ := (hissued.run between).issue
  have hrun : (TransactionCoordinator.new.run (before ++ .init transactionalId :: between)) =
      ((TransactionCoordinator.new.run before).init transactionalId).1.run between := by
    rw [run_append]
    rfl
  rw [← hrun] at hid hlow hhigh
  have hagain : Issued
      ((TransactionCoordinator.new.run (before ++ .init transactionalId :: between)).init
        transactionalId).1 transactionalId first.id (min (first.epoch + 1) i16Max) := by
    have hsecondStored := identityOf_of_init_ok hsecond
    rw [(init_ok hsecond).1] at hsecondStored
    exact ⟨_, hsecondStored, hid, hlow, hhigh⟩
  obtain ⟨current, hcurrent, hcid, hclow, hchigh⟩ := hagain.run after
  have hend : (TransactionCoordinator.new.run
      (before ++ .init transactionalId :: between ++ .init transactionalId :: after)).identityOf
        transactionalId = some current := by
    rw [run_append]
    exact hcurrent
  rw [fenced_iff_ne hend]
  constructor
  · intro hne
    by_contra hnot
    apply hne
    have hepoch : current.epoch = first.epoch := by omega
    cases current
    cases first
    simp_all
  · rintro hlt rfl
    omega

/-- The second producer of a transactional id fences the first. -/
theorem fenced_iff_twoProducers :
    ((TransactionCoordinator.new.run []).init [120]).2 = .ok ⟨1, 0⟩ ∧
      ((TransactionCoordinator.new.run [.init [120]]).init [120]).2 = .ok ⟨1, 1⟩ ∧
      (TransactionCoordinator.new.run [.init [120], .init [120]]).Fenced [120] ⟨1, 0⟩ := by
  have hfirst : ((TransactionCoordinator.new.run []).init [120]).2 = .ok ⟨1, 0⟩ := by
    decide
  have hsecond : ((TransactionCoordinator.new.run [.init [120]]).init [120]).2 = .ok ⟨1, 1⟩ := by
    decide
  exact ⟨hfirst, hsecond, (fenced_iff [] [] [] [120] ⟨1, 0⟩ ⟨1, 1⟩ hfirst hsecond).mpr (by decide)⟩

/-- The identity after repeated initialisations of one transactional id. -/
theorem identityOf_replicate_init (transactionalId : Bytes) (hne : transactionalId ≠ []) (n : ℕ) :
    (TransactionCoordinator.new.run (List.replicate (n + 1) (.init transactionalId))).identityOf
      transactionalId = some ⟨1, min n i16Max⟩ := by
  induction n with
  | zero =>
      rw [List.replicate_one, run_cons, run_nil, TransactionOp.apply, identityOf_init,
        if_pos ⟨hne, rfl⟩, issue_of_identityOf_none]
      · rfl
      · simp [identityOf, TransactionCoordinator.new]
  | succ n ih =>
      rw [List.replicate_succ', run_append, run_cons, run_nil, TransactionOp.apply,
        identityOf_init, if_pos ⟨hne, rfl⟩, issue_of_identityOf ih]
      simp only [saturatingSucc, Option.some.injEq, ProducerIdentity.mk.injEq, true_and]
      push_cast
      omega

theorem init_replicate_init (transactionalId : Bytes) (hne : transactionalId ≠ []) (n : ℕ) :
    ((TransactionCoordinator.new.run (List.replicate (n + 1) (.init transactionalId))).init
      transactionalId).2 = .ok ⟨1, saturatingSucc i16Max (min n i16Max)⟩ := by
  have hempty : ¬ transactionalId.isEmpty = true := by simpa using hne
  rw [← issue_of_identityOf (identityOf_replicate_init transactionalId hne n)]
  unfold TransactionCoordinator.init
  rw [if_neg hempty]

/-- **The epoch runs out.** After 32767 initialisations the next two issue the same identity, and
the producer that got it first is not fenced by the second. -/
theorem not_fenced_exhausted :
    ((TransactionCoordinator.new.run (List.replicate 32767 (.init [120]))).init [120]).2 =
        .ok ⟨1, 32767⟩ ∧
      ((TransactionCoordinator.new.run (List.replicate 32768 (.init [120]))).init [120]).2 =
        .ok ⟨1, 32767⟩ ∧
      ¬ (TransactionCoordinator.new.run (List.replicate 32769 (.init [120]))).Fenced [120]
        ⟨1, 32767⟩ :=
  ⟨init_replicate_init [120] (by simp) 32766, init_replicate_init [120] (by simp) 32767,
    not_fenced_current (identityOf_replicate_init [120] (by simp) 32768)⟩

end CharlotteBroker.Core
