import CharlotteBroker.Core.Enlistments
import CharlotteBroker.Core.Generations
import CharlotteBroker.Runtime.Shard

/-!
# Coordination requests are atomic and local

A coordination request is one operation of one of the two coordinators, or a look at an offset
(`coordinate_transactionOp`, `coordinate_groupOp`). So what a single operation does
(`TransactionOp.apply_cases`, `GroupOp.perform_cases`) is what the request does.

* `coordinate_atomic`: from any two coordinators, a failed request leaves both as they were, and a
  successful one changes the entry it names and no other (`Confined`).
-/

namespace CharlotteBroker.Runtime

open Std CharlotteBroker.Core Lib

/-- The operation of the transaction coordinator a request makes. -/
def CoordinationRequest.transactionOp? : CoordinationRequest → Option TransactionOp
  | .initProducer transactionalId => some (.init transactionalId)
  | .addPartition transactionalId producer topic partition =>
      some (.addPartition transactionalId producer topic partition)
  | .validateProduce transactionalId producer topic partition =>
      some (.validateProduce transactionalId producer topic partition)
  | .endTransaction transactionalId producer commit =>
      some (.endTransaction transactionalId producer commit)
  | .addOffset transactionalId producer offset => some (.addOffset transactionalId producer offset)
  | _ => none

/-- The group operation of a coordination request. -/
def CoordinationRequest.groupOp? : CoordinationRequest → Option GroupOp
  | .joinGroup groupId memberId subscriptions partitions =>
      some (.join groupId memberId subscriptions partitions)
  | .heartbeat groupId memberId generation => some (.heartbeat groupId memberId generation)
  | .leaveGroup groupId memberId generation => some (.leave groupId memberId generation)
  | .leaveGroupAny groupId memberId => some (.leaveAny groupId memberId)
  | .commitOffset groupId generation topic partition offset =>
      some (.commitOffset groupId generation topic partition offset)
  | _ => none

/-- The transactional id a request names. -/
def CoordinationRequest.transactionalId? (request : CoordinationRequest) : Option Bytes :=
  request.transactionOp?.map TransactionOp.transactionalId

/-- The group a request changes. -/
def CoordinationRequest.groupId? (request : CoordinationRequest) : Option Bytes :=
  request.groupOp?.map GroupOp.groupId

/-- The request changes who is in the group. -/
def CoordinationRequest.isMembership : CoordinationRequest → Bool
  | .joinGroup _ _ _ _ => true
  | .leaveGroup _ _ _ => true
  | .leaveGroupAny _ _ => true
  | _ => false

/-! ## A request is an operation -/

section Request

variable (transactions : TransactionCoordinator) (groups : GroupCoordinator)
  {request : CoordinationRequest}

theorem coordinate_groups (request : CoordinationRequest) :
    (coordinate transactions groups request).1.2 =
      (request.groupOp?).elim groups fun op => op.apply groups := by
  cases request <;> rfl

theorem isOk_map {ε α β : Type} (f : α → β) (result : Except ε α) :
    (result.map f).isOk = result.isOk := by
  cases result <;> rfl

theorem coordinate_transactionOp {op : TransactionOp} (h : request.transactionOp? = some op) :
    (coordinate transactions groups request).1 = (op.apply transactions, groups) ∧
      (coordinate transactions groups request).2.isOk = op.accepted transactions := by
  cases request <;> cases h <;> exact ⟨rfl, isOk_map _ _⟩

theorem coordinate_groupOp {op : GroupOp} (h : request.groupOp? = some op) :
    (coordinate transactions groups request).1 = (transactions, op.apply groups) ∧
      (coordinate transactions groups request).2.isOk = op.accepted groups := by
  have haccepted : ∀ op : GroupOp, op.accepted groups = (op.perform groups).2.isOk := fun _ => rfl
  cases request <;> cases h <;> refine ⟨rfl, ?_⟩ <;>
    simp only [coordinate, haccepted, GroupOp.perform, isOk_map]

/-- The remaining request changes nothing. -/
theorem coordinate_eq_of_none (htransaction : request.transactionOp? = none)
    (hgroup : request.groupOp? = none) :
    (coordinate transactions groups request).1 = (transactions, groups) := by
  cases request with
  | fetchOffset => rfl
  | initProducer | addPartition | validateProduce | endTransaction | addOffset =>
      cases htransaction
  | joinGroup | heartbeat | leaveGroup | leaveGroupAny | commitOffset => cases hgroup

end Request

/-! ## Locality -/

/-- What a successful request leaves alone: every transaction and group but the one it names, the id
counter unless a new transactional id is entered, and within the group what is not the request's
own. -/
structure Confined (request : CoordinationRequest)
    (before after : TransactionCoordinator × GroupCoordinator) : Prop where
  transactions : ∀ tid : Bytes, request.transactionalId? ≠ some tid →
    after.1.transactions[tid]? = before.1.transactions[tid]?
  nextId : after.1.nextId ≠ before.1.nextId →
    ∃ tid : Bytes, request = .initProducer tid ∧ before.1.transactions[tid]? = none
  groups : ∀ groupId : Bytes, request.groupId? ≠ some groupId →
    after.2.groups[groupId]? = before.2.groups[groupId]?
  heartbeat : ∀ groupId memberId generation,
    request = .heartbeat groupId memberId generation →
      (after.2.groupOf groupId).generation = (before.2.groupOf groupId).generation ∧
        (∀ member, member ∈ (after.2.groupOf groupId).members ↔
          member ∈ (before.2.groupOf groupId).members) ∧
        (after.2.groupOf groupId).offsets = (before.2.groupOf groupId).offsets
  membership : request.isMembership = true → ∀ groupId, request.groupId? = some groupId →
    (after.2.groupOf groupId).offsets = (before.2.groupOf groupId).offsets

section Confined

variable {transactions : TransactionCoordinator} {groups : GroupCoordinator}
  {request : CoordinationRequest}

theorem groupOp?_eq_none {op : TransactionOp} (h : request.transactionOp? = some op) :
    request.groupOp? = none := by
  cases request <;> first | rfl | cases h

/-- An accepted operation of the transaction coordinator is confined to its transaction. -/
theorem confined_transactionOp {op : TransactionOp} (h : request.transactionOp? = some op) :
    Confined request (transactions, groups) (op.apply transactions, groups) := by
  have hgroup := groupOp?_eq_none h
  have hname : request.transactionalId? = some op.transactionalId := by
    rw [CoordinationRequest.transactionalId?, h]
    rfl
  refine ⟨fun tid hother => ?_, fun hnext => ?_, fun _ _ => rfl, fun _ _ _ _ => ?_, ?_⟩
  · have hne : tid ≠ op.transactionalId := by
      rintro rfl
      exact hother hname
    rcases op.apply_cases transactions with
      ⟨-, hsame⟩ | ⟨-, tid', rfl, -, hstate⟩ | ⟨-, old, -, -, hstate⟩
    · rw [hsame]
    · rw [hstate, getElem?_insert_eq_ite]
      exact if_neg hne
    · rw [hstate, getElem?_insert_eq_ite, if_neg hne]
  · rcases op.apply_ids transactions with
      hsame | ⟨_, _, _, -, -, hstate⟩ | ⟨tid, _, rfl, -, hnone, -, -⟩
    · exact absurd (congrArg TransactionCoordinator.nextId hsame) hnext
    · exact absurd (congrArg TransactionCoordinator.nextId hstate) hnext
    · refine ⟨tid, ?_, hnone⟩
      cases request <;> cases h
      rfl
  · exact ⟨rfl, fun _ => Iff.rfl, rfl⟩
  · intro _ groupId hgroupId
    simp [CoordinationRequest.groupId?, hgroup] at hgroupId

/-- A heartbeat finds a member and leaves it in. -/
theorem mem_members_heartbeat (group : Group) (groupId memberId : Bytes) (generation : Int)
    (member : Bytes) :
    member ∈ (GroupOp.update group (.heartbeat groupId memberId generation)).members ↔
      member ∈ group.members := by
  simp only [GroupOp.update]
  rcases hget : group.members[memberId]? with _ | found
  · rfl
  · have hmem : memberId ∈ group.members := by
      rw [ExtTreeMap.mem_iff_isSome_getElem?, hget]
      rfl
    simp only [ExtTreeMap.mem_insert, Std.compare_eq_iff_eq]
    refine ⟨?_, Or.inr⟩
    rintro (rfl | hold)
    · exact hmem
    · exact hold

/-- An accepted group operation is confined to its group. -/
theorem confined_groupOp {op : GroupOp} (h : request.groupOp? = some op)
    (haccepted : op.accepted groups = true) :
    Confined request (transactions, groups) (transactions, op.apply groups) := by
  have hname : request.groupId? = some op.groupId := by
    rw [CoordinationRequest.groupId?, h]
    rfl
  refine ⟨fun _ _ => rfl, fun hnext => absurd rfl hnext, fun groupId hother => ?_, ?_, ?_⟩
  · have hne : groupId ≠ op.groupId := by
      rintro rfl
      exact hother hname
    rcases op.perform_cases groups with ⟨error, hop⟩ | ⟨hop, -⟩
    · rw [GroupOp.apply, hop]
    · rw [GroupOp.apply, hop, getElem?_insert_eq_ite, if_neg hne]
  · rintro groupId memberId generation rfl
    cases h
    have hupdate := GroupOp.groupOf_apply haccepted groupId
    simp only [GroupOp.groupId, if_true] at hupdate
    rw [hupdate]
    exact ⟨rfl, mem_members_heartbeat _ groupId memberId generation, rfl⟩
  · intro hmembership groupId hgroupId
    rw [hname, Option.some.injEq] at hgroupId
    rw [GroupOp.groupOf_apply haccepted, if_pos hgroupId.symm]
    cases request with
    | joinGroup | leaveGroup | leaveGroupAny =>
        cases h
        rfl
    | _ => cases hmembership

end Confined

/-- **Requests are atomic and local.** From any two coordinators, a failed request leaves both as
they were, and a successful one is confined to what it names. -/
theorem coordinate_atomic (transactions : TransactionCoordinator) (groups : GroupCoordinator)
    (request : CoordinationRequest) :
    (∀ error, (coordinate transactions groups request).2 = .error error →
        (coordinate transactions groups request).1 = (transactions, groups)) ∧
      ∀ result, (coordinate transactions groups request).2 = .ok result →
        Confined request (transactions, groups) (coordinate transactions groups request).1 := by
  rcases htransaction : request.transactionOp? with _ | op
  · rcases hgroup : request.groupOp? with _ | op
    · -- the request only reads
      rw [coordinate_eq_of_none _ _ htransaction hgroup]
      refine ⟨fun _ _ => rfl, fun _ _ => ?_⟩
      refine ⟨fun _ _ => rfl, fun hnext => absurd rfl hnext, fun _ _ => rfl,
        fun _ _ _ _ => ⟨rfl, fun _ => Iff.rfl, rfl⟩, fun _ _ _ => rfl⟩
    · obtain ⟨hstate, hok⟩ := coordinate_groupOp transactions groups hgroup
      rw [hstate]
      refine ⟨fun error herror => ?_, fun result hresult => ?_⟩
      · rw [herror] at hok
        rw [GroupOp.apply_of_refused hok.symm]
      · rw [hresult] at hok
        exact confined_groupOp hgroup hok.symm
  · obtain ⟨hstate, hok⟩ := coordinate_transactionOp transactions groups htransaction
    rw [hstate]
    refine ⟨fun error herror => ?_, fun _ _ => confined_transactionOp htransaction⟩
    rw [herror] at hok
    rcases op.apply_cases transactions with ⟨-, hsame⟩ | ⟨haccepted, -⟩ | ⟨haccepted, -⟩
    · rw [hsame]
    · rw [haccepted] at hok
      cases hok
    · rw [haccepted] at hok
      cases hok

end CharlotteBroker.Runtime
