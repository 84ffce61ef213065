import CharlotteBroker.Core.Coordination
import CharlotteBroker.Lib.OrderedMap

/-!
# Consumer-group coordination

The group coordinator of `coordination.rs`: membership, generations, the round-robin assignment
of partitions and the committed offsets of each group.

* Every successful `join`, `leave` or `leaveAny` advances the group's generation (`nextGeneration`),
  which saturates at the limit of `i32`.
* `heartbeat`, `leave` and `commitOffset` refuse any other generation than the current one. For an
  enlisted offset that is the whole of the check (`admits`), and commits do not change it
  (`admits_commitEnlisted`).
-/

namespace CharlotteBroker.Core

open Std Lib

/-- A member's assignment returned by a group join or synchronisation.
Source: `coordination.rs`, `GroupAssignment`. Kind: D -/
structure GroupAssignment where
  memberId : Bytes
  partitions : List TopicPartition
  deriving DecidableEq, Repr

/-- Source: `coordination.rs`, `GroupMember`. Kind: D -/
structure GroupMember where
  subscriptions : List Bytes
  generation : Int
  alive : Bool
  deriving DecidableEq, Repr

/-- Source: `coordination.rs`, `Group`. Kind: D -/
structure Group where
  generation : Int
  members : ExtTreeMap Bytes GroupMember
  assignments : List GroupAssignment
  offsets : ExtTreeMap TopicPartition Int

/-- A group nobody has joined yet. Source: `coordination.rs`, `join` (`or_insert_with`). Kind: D -/
def Group.new : Group := ⟨0, ∅, [], ∅⟩

/-- The generation after `generation`: `saturating_add(1).max(1)`. -/
def nextGeneration (generation : Int) : Int := max (saturatingSucc i32Max generation) 1

/-- Source: `coordination.rs`, `GroupCoordinator`. Kind: D -/
structure GroupCoordinator where
  groups : ExtTreeMap Bytes Group

/-- The indices of the members subscribed to `topic`, in member order.
Source: `coordination.rs`, `join` (`eligible`). Kind: D -/
def eligible (members : List GroupMember) (topic : Bytes) : List ℕ :=
  members.zipIdx.filterMap fun entry =>
    if entry.1.subscriptions.any (· == topic) then some entry.2 else none

/-- Gives the partition to the assignment at `index`. -/
def pushPartition (assignments : List GroupAssignment) (index : ℕ) (partition : TopicPartition) :
    List GroupAssignment :=
  assignments.modify index fun assignment =>
    { assignment with partitions := assignment.partitions ++ [partition] }

/-- The assignment loop: the partition at position `index` goes to the eligible member at
`index % eligible.len().max(1)`, if there is one.
Source: `coordination.rs`, `join` (the `for`). Kind: D -/
def assignPartitions (members : List GroupMember) (partitions : List TopicPartition)
    (assignments : List GroupAssignment) : List GroupAssignment :=
  partitions.zipIdx.foldl
    (fun assignments entry =>
      let candidates := eligible members entry.1.topic
      match candidates[entry.2 % max candidates.length 1]? with
      | some memberIndex => pushPartition assignments memberIndex entry.1
      | none => assignments)
    assignments

namespace GroupCoordinator

/-- Source: `coordination.rs`, `GroupCoordinator::new`. Kind: D -/
def new : GroupCoordinator := ⟨∅⟩

/-- Joins or renews a member and returns the new generation assignment.
Source: `coordination.rs`, `join`. Kind: D -/
def join (coordinator : GroupCoordinator) (groupId memberId : Bytes) (subscriptions : List Bytes)
    (partitions : List TopicPartition) :
    GroupCoordinator × Except CoordinationError (Int × List GroupAssignment) :=
  if groupId.isEmpty || memberId.isEmpty then (coordinator, .error .invalidId)
  else
    let group := (coordinator.groups[groupId]?).getD .new
    let generation := nextGeneration group.generation
    let members := group.members.insert memberId ⟨subscriptions, generation, true⟩
    let assignments := assignPartitions members.values partitions
      (members.keys.map fun memberId => ⟨memberId, []⟩)
    (⟨coordinator.groups.insert groupId ⟨generation, members, assignments, group.offsets⟩⟩,
      .ok (generation, assignments))

/-- Heartbeats fence stale generations and mark a member alive.
Source: `coordination.rs`, `heartbeat`. Kind: D -/
def heartbeat (coordinator : GroupCoordinator) (groupId memberId : Bytes) (generation : Int) :
    GroupCoordinator × Except CoordinationError Unit :=
  match coordinator.groups[groupId]? with
  | none => (coordinator, .error .unknownGroup)
  | some group =>
      if generation ≠ group.generation then (coordinator, .error .illegalGeneration)
      else
        match group.members[memberId]? with
        | none => (coordinator, .error .unknownMember)
        | some member =>
            if member.generation ≠ generation then (coordinator, .error .illegalGeneration)
            else
              (⟨coordinator.groups.insert groupId
                { group with
                  members := group.members.insert memberId { member with alive := true } }⟩,
                .ok ())

/-- The removal of a member, which forces a new generation.
Source: `coordination.rs`, the common tail of `leave` and `leave_any`. Kind: D -/
def removeMember (coordinator : GroupCoordinator) (groupId : Bytes) (group : Group)
    (memberId : Bytes) : GroupCoordinator × Except CoordinationError Unit :=
  match group.members[memberId]? with
  | none => (coordinator, .error .unknownMember)
  | some _ =>
      (⟨coordinator.groups.insert groupId
        { group with
          members := group.members.erase memberId
          generation := nextGeneration group.generation }⟩,
        .ok ())

/-- Removes a member and forces the next join to create a new generation.
Source: `coordination.rs`, `leave`. Kind: D -/
def leave (coordinator : GroupCoordinator) (groupId memberId : Bytes) (generation : Int) :
    GroupCoordinator × Except CoordinationError Unit :=
  match coordinator.groups[groupId]? with
  | none => (coordinator, .error .unknownGroup)
  | some group =>
      if generation ≠ group.generation then (coordinator, .error .illegalGeneration)
      else coordinator.removeMember groupId group memberId

/-- Removes a member whatever its generation (LeaveGroup v0).
Source: `coordination.rs`, `leave_any`. Kind: D -/
def leaveAny (coordinator : GroupCoordinator) (groupId memberId : Bytes) :
    GroupCoordinator × Except CoordinationError Unit :=
  match coordinator.groups[groupId]? with
  | none => (coordinator, .error .unknownGroup)
  | some group => coordinator.removeMember groupId group memberId

/-- Stores a committed offset under the current generation.
Source: `coordination.rs`, `commit_offset`. Kind: D -/
def commitOffset (coordinator : GroupCoordinator) (groupId : Bytes) (generation : Int)
    (topic : Bytes) (partition offset : Int) :
    GroupCoordinator × Except CoordinationError Unit :=
  match coordinator.groups[groupId]? with
  | none => (coordinator, .error .unknownGroup)
  | some group =>
      if generation ≠ group.generation then (coordinator, .error .illegalGeneration)
      else if partition < 0 || offset < 0 then (coordinator, .error .invalidId)
      else
        (⟨coordinator.groups.insert groupId
          { group with offsets := group.offsets.insert ⟨topic, partition⟩ offset }⟩,
          .ok ())

/-- The committed offset of a partition.
Source: `coordination.rs`, `offset`. Kind: D -/
def offset (coordinator : GroupCoordinator) (groupId topic : Bytes) (partition : Int) :
    Except CoordinationError (Option Int) :=
  match coordinator.groups[groupId]? with
  | none => .error .unknownGroup
  | some group => .ok group.offsets[(⟨topic, partition⟩ : TopicPartition)]?

/-! ## Committing an enlisted offset -/

/-- The group of the enlisted offset exists and is at the generation it was enlisted under. -/
def admits (coordinator : GroupCoordinator) (enlisted : TransactionOffset) : Bool :=
  (coordinator.groups[enlisted.groupId]?).any fun group => group.generation == enlisted.generation

/-- `commit_offset` with the fields of an enlisted offset, as `end_transaction` calls it. -/
def commitEnlisted (coordinator : GroupCoordinator) (enlisted : TransactionOffset) :
    GroupCoordinator × Except CoordinationError Unit :=
  coordinator.commitOffset enlisted.groupId enlisted.generation enlisted.topic enlisted.partition
    enlisted.offset

section Enlisted

variable {coordinator : GroupCoordinator} {enlisted : TransactionOffset}

/-- An offset that is not admitted is refused, and nothing changes. -/
theorem commitEnlisted_of_not_admits (h : coordinator.admits enlisted = false) :
    ∃ error, coordinator.commitEnlisted enlisted = (coordinator, .error error) := by
  unfold admits at h
  unfold commitEnlisted commitOffset
  rcases hgroup : coordinator.groups[enlisted.groupId]? with _ | group
  · exact ⟨.unknownGroup, rfl⟩
  · rw [hgroup] at h
    have hne : enlisted.generation ≠ group.generation := by
      intro heq
      simp [heq] at h
    exact ⟨.illegalGeneration, by simp only [if_pos hne]⟩

/-- An admitted offset is stored. -/
theorem commitEnlisted_of_admits (h : coordinator.admits enlisted = true)
    (hnonneg : 0 ≤ enlisted.partition ∧ 0 ≤ enlisted.offset) :
    ∃ group, coordinator.groups[enlisted.groupId]? = some group ∧
      coordinator.commitEnlisted enlisted =
        (⟨coordinator.groups.insert enlisted.groupId
          { group with
            offsets :=
              group.offsets.insert ⟨enlisted.topic, enlisted.partition⟩ enlisted.offset }⟩,
          .ok ()) := by
  unfold admits at h
  unfold commitEnlisted commitOffset
  rcases hgroup : coordinator.groups[enlisted.groupId]? with _ | group
  · simp [hgroup] at h
  · rw [hgroup] at h
    have heq : group.generation = enlisted.generation := beq_iff_eq.mp h
    have hrange : ¬ (enlisted.partition < 0 ∨ enlisted.offset < 0) := by omega
    refine ⟨group, rfl, ?_⟩
    simp [heq, hrange]

/-- Commits do not move generations. -/
theorem admits_commitEnlisted (h : coordinator.admits enlisted = true)
    (hnonneg : 0 ≤ enlisted.partition ∧ 0 ≤ enlisted.offset) :
    (coordinator.commitEnlisted enlisted).1.admits = coordinator.admits := by
  obtain ⟨group, hgroup, heq⟩ := commitEnlisted_of_admits h hnonneg
  rw [heq]
  funext other
  unfold admits
  rw [getElem?_insert_eq_ite]
  by_cases hsame : other.groupId = enlisted.groupId
  · rw [if_pos hsame, hsame, hgroup]
    rfl
  · rw [if_neg hsame]

/-- What the groups answer after an admitted commit. -/
theorem offset_commitEnlisted (h : coordinator.admits enlisted = true)
    (hnonneg : 0 ≤ enlisted.partition ∧ 0 ≤ enlisted.offset) (groupId topic : Bytes)
    (partition : Int) :
    (coordinator.commitEnlisted enlisted).1.offset groupId topic partition =
      if enlisted.groupId = groupId ∧ enlisted.topic = topic ∧ enlisted.partition = partition then
        .ok (some enlisted.offset)
      else coordinator.offset groupId topic partition := by
  obtain ⟨group, hgroup, heq⟩ := commitEnlisted_of_admits h hnonneg
  rw [heq]
  unfold offset
  rw [getElem?_insert_eq_ite]
  by_cases hsame : groupId = enlisted.groupId
  · subst hsame
    simp only [if_true, hgroup, getElem?_insert_eq_ite, TopicPartition.mk.injEq, true_and]
    by_cases hkey : topic = enlisted.topic ∧ partition = enlisted.partition
    · rw [if_pos hkey, if_pos ⟨hkey.1.symm, hkey.2.symm⟩]
    · rw [if_neg hkey, if_neg fun h => hkey ⟨h.1.symm, h.2.symm⟩]
  · simp only [if_neg hsame]
    rw [if_neg fun h => hsame h.1.symm]

end Enlisted

end GroupCoordinator

end CharlotteBroker.Core
