import CharlotteBroker.Core.Group
import Mathlib.Data.List.Induction

/-!
# Generations and committed offsets along a run

What a run of group operations leaves of a group is read off the operations it accepted.

* `GroupOp` are the coordinator's operations. A refused one changes nothing (`apply_of_refused`);
  an accepted one updates the group it names (`groupOf_apply`, with `GroupOp.update` for the new
  group). Everything below follows from these two.
* A group's generation counts its accepted joins and leaves, up to `i32::MAX`
  (`generation_run`), and its offsets are those of the last accepted commits (`offsets_run`).
* `generation_fencing`: while the counter has not run out, a generation passes only until the next
  membership change, and committed offsets outlive all of them.
* `joined_lives_iff`: a join renews the generation of the joining member alone, so that the members
  it finds in the group cannot heartbeat in the generation it returns.
-/

namespace CharlotteBroker.Core

open Std Lib

/-- The operations of the group coordinator that change it. -/
inductive GroupOp
  | join (groupId memberId : Bytes) (subscriptions : List Bytes) (partitions : List TopicPartition)
  | heartbeat (groupId memberId : Bytes) (generation : Int)
  | leave (groupId memberId : Bytes) (generation : Int)
  | leaveAny (groupId memberId : Bytes)
  | commitOffset (groupId : Bytes) (generation : Int) (topic : Bytes) (partition offset : Int)
  deriving DecidableEq, Repr

namespace GroupOp

/-- The operation's result, up to the assignment a join returns. -/
def perform (coordinator : GroupCoordinator) :
    GroupOp → GroupCoordinator × Except CoordinationError Unit
  | .join groupId memberId subscriptions partitions =>
      let joined := coordinator.join groupId memberId subscriptions partitions
      (joined.1, joined.2.map fun _ => ())
  | .heartbeat groupId memberId generation => coordinator.heartbeat groupId memberId generation
  | .leave groupId memberId generation => coordinator.leave groupId memberId generation
  | .leaveAny groupId memberId => coordinator.leaveAny groupId memberId
  | .commitOffset groupId generation topic partition offset =>
      coordinator.commitOffset groupId generation topic partition offset

/-- The coordinator the operation leaves behind. -/
def apply (coordinator : GroupCoordinator) (op : GroupOp) : GroupCoordinator :=
  (op.perform coordinator).1

/-- The operation returns `Ok`. -/
def accepted (coordinator : GroupCoordinator) (op : GroupOp) : Bool :=
  (op.perform coordinator).2.isOk

/-- The group the operation names. -/
def groupId : GroupOp → Bytes
  | .join groupId _ _ _ => groupId
  | .heartbeat groupId _ _ => groupId
  | .leave groupId _ _ => groupId
  | .leaveAny groupId _ => groupId
  | .commitOffset groupId _ _ _ _ => groupId

/-- The operation, if accepted, changes the membership of the group. -/
def changes (group : Bytes) : GroupOp → Bool
  | .join groupId _ _ _ => groupId == group
  | .leave groupId _ _ => groupId == group
  | .leaveAny groupId _ => groupId == group
  | .heartbeat _ _ _ => false
  | .commitOffset _ _ _ _ _ => false

/-- The offset the operation, if accepted, commits for a group's partition. -/
def commits (group topic : Bytes) (partition : Int) : GroupOp → Option Int
  | .commitOffset groupId _ topic' partition' offset =>
      if groupId = group ∧ topic' = topic ∧ partition' = partition then some offset else none
  | _ => none

/-- The generation the operation presents, if it carries one. -/
def presented : GroupOp → Option Int
  | .heartbeat _ _ generation => some generation
  | .leave _ _ generation => some generation
  | .commitOffset _ generation _ _ _ => some generation
  | .join _ _ _ _ => none
  | .leaveAny _ _ => none

/-- The group after an accepted operation on it. -/
def update (group : Group) : GroupOp → Group
  | .join _ memberId subscriptions partitions =>
      let generation := nextGeneration group.generation
      let members := group.members.insert memberId ⟨subscriptions, generation, true⟩
      ⟨generation, members,
        assignPartitions members.values partitions (members.keys.map fun memberId => ⟨memberId, []⟩),
        group.offsets⟩
  | .heartbeat _ memberId _ =>
      { group with
        members := match group.members[memberId]? with
          | some member => group.members.insert memberId { member with alive := true }
          | none => group.members }
  | .leave _ memberId _ | .leaveAny _ memberId =>
      { group with
        members := group.members.erase memberId
        generation := nextGeneration group.generation }
  | .commitOffset _ _ topic partition offset =>
      { group with offsets := group.offsets.insert ⟨topic, partition⟩ offset }

end GroupOp

namespace GroupCoordinator

/-- The group stored under an id, or the one a first join would create. -/
def groupOf (coordinator : GroupCoordinator) (groupId : Bytes) : Group :=
  (coordinator.groups[groupId]?).getD .new

/-! ## What one operation does -/

section Operations

variable {coordinator : GroupCoordinator} {groupId memberId : Bytes}

theorem join_ok {subscriptions : List Bytes} {partitions : List TopicPartition} {generation : Int}
    {assignments : List GroupAssignment}
    (h : (coordinator.join groupId memberId subscriptions partitions).2 =
      .ok (generation, assignments)) :
    (coordinator.join groupId memberId subscriptions partitions).1 =
        ⟨coordinator.groups.insert groupId
          (GroupOp.update (coordinator.groupOf groupId)
            (.join groupId memberId subscriptions partitions))⟩ ∧
      generation = nextGeneration (coordinator.groupOf groupId).generation ∧
      assignments = (GroupOp.update (coordinator.groupOf groupId)
        (.join groupId memberId subscriptions partitions)).assignments := by
  unfold join at h ⊢
  split at h
  · cases h
  · next hvalid =>
      rw [if_neg hvalid]
      cases h
      exact ⟨rfl, rfl, rfl⟩

theorem join_error {subscriptions : List Bytes} {partitions : List TopicPartition}
    {error : CoordinationError}
    (h : (coordinator.join groupId memberId subscriptions partitions).2 = .error error) :
    (coordinator.join groupId memberId subscriptions partitions).1 = coordinator := by
  unfold join at h ⊢
  split at h
  · next hvalid => rw [if_pos hvalid]
  · cases h

/-- A heartbeat, by its result. -/
theorem heartbeat_spec (coordinator : GroupCoordinator) (groupId memberId : Bytes)
    (generation : Int) :
    (∃ error, coordinator.heartbeat groupId memberId generation = (coordinator, .error error)) ∨
      ∃ group member, coordinator.groups[groupId]? = some group ∧
        group.generation = generation ∧ group.members[memberId]? = some member ∧
        member.generation = generation ∧
        coordinator.heartbeat groupId memberId generation =
          (⟨coordinator.groups.insert groupId
            (GroupOp.update group (.heartbeat groupId memberId generation))⟩, .ok ()) := by
  unfold heartbeat
  rcases hgroup : coordinator.groups[groupId]? with _ | group
  · exact Or.inl ⟨_, rfl⟩
  · by_cases hgen : generation = group.generation
    · rcases hmember : group.members[memberId]? with _ | member
      · exact Or.inl ⟨.unknownMember, by simp [hgen, hmember]⟩
      · by_cases hown : member.generation = generation
        · refine Or.inr ⟨group, member, rfl, hgen.symm, hmember, hown, ?_⟩
          simp [hgen.symm, hmember, hown, GroupOp.update]
        · exact Or.inl ⟨.illegalGeneration, by simp [← hgen, hmember, hown]⟩
    · exact Or.inl ⟨.illegalGeneration, by simp [hgen]⟩

/-- The removal of a member, by its result. -/
theorem removeMember_spec (coordinator : GroupCoordinator) (groupId : Bytes) (group : Group)
    (memberId : Bytes) :
    (∃ error, coordinator.removeMember groupId group memberId = (coordinator, .error error)) ∨
      coordinator.removeMember groupId group memberId =
        (⟨coordinator.groups.insert groupId
          (GroupOp.update group (.leaveAny groupId memberId))⟩, .ok ()) := by
  unfold removeMember
  rcases group.members[memberId]? with _ | member
  · exact Or.inl ⟨_, rfl⟩
  · exact Or.inr rfl

/-- A leave under a generation, by its result. -/
theorem leave_spec (coordinator : GroupCoordinator) (groupId memberId : Bytes) (generation : Int) :
    (∃ error, coordinator.leave groupId memberId generation = (coordinator, .error error)) ∨
      ∃ group, coordinator.groups[groupId]? = some group ∧ group.generation = generation ∧
        coordinator.leave groupId memberId generation =
          (⟨coordinator.groups.insert groupId
            (GroupOp.update group (.leave groupId memberId generation))⟩, .ok ()) := by
  unfold leave
  rcases coordinator.groups[groupId]? with _ | group
  · exact Or.inl ⟨_, rfl⟩
  · by_cases hgen : generation = group.generation
    · rcases removeMember_spec coordinator groupId group memberId with ⟨error, h⟩ | h
      · exact Or.inl ⟨error, by simp [hgen, h]⟩
      · exact Or.inr ⟨group, rfl, hgen.symm, by simp [hgen, h, GroupOp.update]⟩
    · exact Or.inl ⟨.illegalGeneration, by simp [hgen]⟩

theorem leaveAny_spec (coordinator : GroupCoordinator) (groupId memberId : Bytes) :
    (∃ error, coordinator.leaveAny groupId memberId = (coordinator, .error error)) ∨
      ∃ group, coordinator.groups[groupId]? = some group ∧
        coordinator.leaveAny groupId memberId =
          (⟨coordinator.groups.insert groupId
            (GroupOp.update group (.leaveAny groupId memberId))⟩, .ok ()) := by
  unfold leaveAny
  rcases coordinator.groups[groupId]? with _ | group
  · exact Or.inl ⟨_, rfl⟩
  · rcases removeMember_spec coordinator groupId group memberId with ⟨error, h⟩ | h
    · exact Or.inl ⟨error, h⟩
    · exact Or.inr ⟨group, rfl, h⟩

/-- A commit, by its result. -/
theorem commitOffset_spec (coordinator : GroupCoordinator) (groupId : Bytes) (generation : Int)
    (topic : Bytes) (partition offset : Int) :
    (∃ error, coordinator.commitOffset groupId generation topic partition offset =
        (coordinator, .error error)) ∨
      ∃ group, coordinator.groups[groupId]? = some group ∧ group.generation = generation ∧
        coordinator.commitOffset groupId generation topic partition offset =
          (⟨coordinator.groups.insert groupId
            (GroupOp.update group (.commitOffset groupId generation topic partition offset))⟩,
            .ok ()) := by
  unfold commitOffset
  rcases coordinator.groups[groupId]? with _ | group
  · exact Or.inl ⟨_, rfl⟩
  · by_cases hgen : generation = group.generation
    · by_cases hrange : partition < 0 ∨ offset < 0
      · exact Or.inl ⟨.invalidId, by simp [hgen, hrange]⟩
      · exact Or.inr ⟨group, rfl, hgen.symm, by simp [hgen, hrange, GroupOp.update]⟩
    · exact Or.inl ⟨.illegalGeneration, by simp [hgen]⟩

/-- A commit is accepted for the group's generation, a partition and an offset that are not
negative, whoever makes it. -/
theorem commitOffset_eq_ok {generation : Int} {topic : Bytes} {partition offset : Int} :
    (coordinator.commitOffset groupId generation topic partition offset).2 = .ok () ↔
      ∃ group, coordinator.groups[groupId]? = some group ∧ group.generation = generation ∧
        0 ≤ partition ∧ 0 ≤ offset := by
  unfold commitOffset
  rcases coordinator.groups[groupId]? with _ | group
  · simp
  · by_cases hgen : generation = group.generation
    · by_cases hrange : partition < 0 ∨ offset < 0
      · simp only [hgen, hrange, ne_eq, not_true_eq_false, if_false, Bool.or_eq_true,
          decide_eq_true_eq, if_true, reduceCtorEq, false_iff]
        rintro ⟨_, -, -, hpartition, hoffset⟩
        omega
      · simp only [hgen, hrange, ne_eq, not_true_eq_false, if_false, Bool.or_eq_true,
          decide_eq_true_eq, true_iff]
        exact ⟨group, rfl, rfl, by omega, by omega⟩
    · simp only [hgen, ne_eq, not_false_eq_true, if_true, reduceCtorEq, false_iff]
      rintro ⟨_, ⟨⟩, heq, -⟩
      exact hgen heq.symm

end Operations

end GroupCoordinator

open GroupCoordinator

/-- **One operation, by its result.** It is refused and nothing changes; or it is accepted and
updates its group, which a join may create and any other operation finds, at the generation the
operation presents. -/
theorem GroupOp.perform_cases (coordinator : GroupCoordinator) (op : GroupOp) :
    (∃ error, op.perform coordinator = (coordinator, .error error)) ∨
      op.perform coordinator =
          (⟨coordinator.groups.insert op.groupId (op.update (coordinator.groupOf op.groupId))⟩,
            .ok ()) ∧
        ∀ generation, op.presented = some generation →
          (coordinator.groupOf op.groupId).generation = generation := by
  have hfound : ∀ {groupId : Bytes} {group : Group}, coordinator.groups[groupId]? = some group →
      coordinator.groupOf groupId = group := by
    intro groupId group hgroup
    rw [groupOf, hgroup]
    rfl
  cases op with
  | join groupId memberId subscriptions partitions =>
      rcases hjoin : (coordinator.join groupId memberId subscriptions partitions).2 with
        error | ⟨generation, assignments⟩
      · exact Or.inl ⟨error, by simp [perform, join_error hjoin, hjoin, Except.map]⟩
      · refine Or.inr ⟨?_, fun _ h => by cases h⟩
        simp [perform, (join_ok hjoin).1, hjoin, Except.map, GroupOp.groupId]
  | heartbeat groupId memberId generation =>
      rcases heartbeat_spec coordinator groupId memberId generation with
        ⟨error, h⟩ | ⟨group, member, hgroup, hgen, -, -, h⟩
      · exact Or.inl ⟨error, h⟩
      · refine Or.inr ⟨?_, ?_⟩
        · rw [GroupOp.groupId, hfound hgroup]
          exact h
        · rintro _ ⟨⟩
          rw [GroupOp.groupId, hfound hgroup]
          exact hgen
  | leave groupId memberId generation =>
      rcases leave_spec coordinator groupId memberId generation with
        ⟨error, h⟩ | ⟨group, hgroup, hgen, h⟩
      · exact Or.inl ⟨error, h⟩
      · refine Or.inr ⟨?_, ?_⟩
        · rw [GroupOp.groupId, hfound hgroup]
          exact h
        · rintro _ ⟨⟩
          rw [GroupOp.groupId, hfound hgroup]
          exact hgen
  | leaveAny groupId memberId =>
      rcases leaveAny_spec coordinator groupId memberId with ⟨error, h⟩ | ⟨group, hgroup, h⟩
      · exact Or.inl ⟨error, h⟩
      · refine Or.inr ⟨?_, fun _ h => by cases h⟩
        rw [GroupOp.groupId, hfound hgroup]
        exact h
  | commitOffset groupId generation topic partition offset =>
      rcases commitOffset_spec coordinator groupId generation topic partition offset with
        ⟨error, h⟩ | ⟨group, hgroup, hgen, h⟩
      · exact Or.inl ⟨error, h⟩
      · refine Or.inr ⟨?_, ?_⟩
        · rw [GroupOp.groupId, hfound hgroup]
          exact h
        · rintro _ ⟨⟩
          rw [GroupOp.groupId, hfound hgroup]
          exact hgen

section Apply

variable {coordinator : GroupCoordinator} {op : GroupOp}

/-- A refused operation changes nothing. -/
theorem GroupOp.apply_of_refused (h : op.accepted coordinator = false) :
    op.apply coordinator = coordinator := by
  rcases op.perform_cases coordinator with ⟨error, hop⟩ | ⟨hop, -⟩
  · rw [GroupOp.apply, hop]
  · rw [GroupOp.accepted, hop] at h
    cases h

/-- An accepted operation updates the group it names. -/
theorem GroupOp.groupOf_apply (h : op.accepted coordinator = true) (group : Bytes) :
    (op.apply coordinator).groupOf group =
      if group = op.groupId then op.update (coordinator.groupOf group)
      else coordinator.groupOf group := by
  rcases op.perform_cases coordinator with ⟨error, hop⟩ | ⟨hop, -⟩
  · rw [GroupOp.accepted, hop] at h
    cases h
  · rw [GroupOp.apply, hop]
    unfold GroupCoordinator.groupOf
    rw [getElem?_insert_eq_ite]
    by_cases hsame : group = op.groupId
    · rw [if_pos hsame, if_pos hsame, hsame]
      rfl
    · rw [if_neg hsame, if_neg hsame]

/-- An accepted operation presented the generation of its group. -/
theorem GroupOp.generation_of_accepted (h : op.accepted coordinator = true) {generation : Int}
    (hpresented : op.presented = some generation) :
    (coordinator.groupOf op.groupId).generation = generation := by
  rcases op.perform_cases coordinator with ⟨error, hop⟩ | ⟨-, hgen⟩
  · rw [GroupOp.accepted, hop] at h
    cases h
  · exact hgen generation hpresented

end Apply

/-! ## Runs -/

namespace GroupCoordinator

/-- The coordinator after a sequence of operations. -/
def run (coordinator : GroupCoordinator) (ops : List GroupOp) : GroupCoordinator :=
  ops.foldl GroupOp.apply coordinator

/-- The operations that a run accepts, in order. -/
def acceptedOps : GroupCoordinator → List GroupOp → List GroupOp
  | _, [] => []
  | coordinator, op :: ops =>
      if op.accepted coordinator then op :: acceptedOps (op.apply coordinator) ops
      else acceptedOps (op.apply coordinator) ops

@[simp] theorem run_nil (coordinator : GroupCoordinator) : coordinator.run [] = coordinator := rfl

@[simp] theorem run_cons (coordinator : GroupCoordinator) (op : GroupOp) (ops : List GroupOp) :
    coordinator.run (op :: ops) = (op.apply coordinator).run ops := rfl

theorem run_append (coordinator : GroupCoordinator) (ops ops' : List GroupOp) :
    coordinator.run (ops ++ ops') = (coordinator.run ops).run ops' := by
  simp [run, List.foldl_append]

theorem acceptedOps_append (coordinator : GroupCoordinator) (ops ops' : List GroupOp) :
    coordinator.acceptedOps (ops ++ ops') =
      coordinator.acceptedOps ops ++ (coordinator.run ops).acceptedOps ops' := by
  induction ops generalizing coordinator with
  | nil => rfl
  | cons op ops ih =>
      rw [List.cons_append, acceptedOps, acceptedOps, run_cons, ih]
      split <;> rfl

/-- **A run is its accepted operations**: a group's state is the fold of those that name it. -/
theorem groupOf_run (coordinator : GroupCoordinator) (ops : List GroupOp) (group : Bytes) :
    (coordinator.run ops).groupOf group =
      ((coordinator.acceptedOps ops).filter fun op => op.groupId = group).foldl GroupOp.update
        (coordinator.groupOf group) := by
  induction ops generalizing coordinator with
  | nil => rfl
  | cons op ops ih =>
      rw [run_cons, ih, acceptedOps]
      rcases haccepted : op.accepted coordinator with _ | _
      · rw [op.apply_of_refused haccepted]
        rfl
      · rw [op.groupOf_apply haccepted, if_pos rfl, List.filter_cons]
        by_cases hsame : op.groupId = group
        · rw [if_pos hsame.symm, if_pos (by simpa using hsame), List.foldl_cons]
        · rw [if_neg fun h => hsame h.symm, if_neg (by simpa using hsame)]

/-- A group stays known. -/
theorem known_apply {coordinator : GroupCoordinator} {group : Bytes}
    (h : group ∈ coordinator.groups) (op : GroupOp) : group ∈ (op.apply coordinator).groups := by
  rcases op.perform_cases coordinator with ⟨error, hop⟩ | ⟨hop, -⟩
  · rw [GroupOp.apply, hop]
    exact h
  · rw [GroupOp.apply, hop]
    exact ExtTreeMap.mem_insert.mpr (Or.inr h)

theorem known_run {coordinator : GroupCoordinator} {group : Bytes}
    (h : group ∈ coordinator.groups) (ops : List GroupOp) :
    group ∈ (coordinator.run ops).groups := by
  induction ops generalizing coordinator with
  | nil => exact h
  | cons op ops ih => exact ih (known_apply h op)

theorem offset_of_known {coordinator : GroupCoordinator} {group : Bytes}
    (h : group ∈ coordinator.groups) (topic : Bytes) (partition : Int) :
    coordinator.offset group topic partition =
      .ok (coordinator.groupOf group).offsets[(⟨topic, partition⟩ : TopicPartition)]? := by
  have hsome := ExtTreeMap.mem_iff_isSome_getElem?.mp h
  obtain ⟨found, hfound⟩ := Option.isSome_iff_exists.mp hsome
  unfold offset groupOf
  rw [hfound]
  rfl

/-! ## Generations -/

theorem generation_update (group : Group) (op : GroupOp) :
    (op.update group).generation =
      if op.changes op.groupId then nextGeneration group.generation else group.generation := by
  cases op <;> simp [GroupOp.update, GroupOp.changes, GroupOp.groupId]

/-- The generation counts the membership changes, up to the limit. -/
theorem generation_foldl (group : Bytes) (ops : List GroupOp) {start : Group}
    (h0 : 0 ≤ start.generation) (hmax : start.generation ≤ i32Max) :
    ((ops.filter fun op => op.groupId = group).foldl GroupOp.update start).generation =
      min (start.generation + ops.countP (GroupOp.changes group)) i32Max := by
  induction ops generalizing start with
  | nil =>
      simp only [List.filter_nil, List.foldl_nil, List.countP_nil]
      omega
  | cons op ops ih =>
      rw [List.filter_cons, List.countP_cons]
      by_cases hsame : op.groupId = group
      · rw [if_pos (by simpa using hsame), List.foldl_cons]
        have hnext := generation_update start op
        rw [hsame] at hnext
        unfold nextGeneration saturatingSucc at hnext
        have hlimit : (1 : Int) ≤ i32Max := by decide
        split at hnext
        · next hchange =>
            rw [ih (by omega) (by omega), if_pos hchange]
            push_cast
            omega
        · next hkeep =>
            rw [ih (by omega) (by omega), if_neg hkeep, hnext]
            push_cast
            omega
      · have hother : op.changes group = false := by
          cases op <;> simp_all [GroupOp.changes, GroupOp.groupId]
        rw [if_neg (by simpa using hsame), ih h0 hmax, hother]
        simp

theorem groupOf_new (group : Bytes) : GroupCoordinator.new.groupOf group = .new := by
  simp [groupOf, GroupCoordinator.new]

/-- **Every run**: a group's generation is the number of its accepted joins and leaves. -/
theorem generation_run (ops : List GroupOp) (group : Bytes) :
    ((GroupCoordinator.new.run ops).groupOf group).generation =
      min (((GroupCoordinator.new.acceptedOps ops).countP (GroupOp.changes group) : ℕ) : Int)
        i32Max := by
  rw [groupOf_run, groupOf_new, generation_foldl group _ (by decide) (by decide)]
  simp [Group.new]

/-! ## Committed offsets -/

/-- The offset committed last for a group's partition, among accepted operations. -/
def lastCommit (group topic : Bytes) (partition : Int) (accepted : List GroupOp) : Option Int :=
  (accepted.filterMap (GroupOp.commits group topic partition)).getLast?

theorem offsets_update (group : Group) (op : GroupOp) (topic : Bytes) (partition : Int) :
    (op.update group).offsets[(⟨topic, partition⟩ : TopicPartition)]? =
      (op.commits op.groupId topic partition).or
        group.offsets[(⟨topic, partition⟩ : TopicPartition)]? := by
  cases op with
  | commitOffset groupId generation topic' partition' offset =>
      simp only [GroupOp.update, GroupOp.commits, GroupOp.groupId, getElem?_insert_eq_ite,
        TopicPartition.mk.injEq, true_and]
      by_cases hkey : topic' = topic ∧ partition' = partition
      · rw [if_pos hkey, if_pos ⟨hkey.1.symm, hkey.2.symm⟩]
        rfl
      · rw [if_neg hkey, if_neg fun h => hkey ⟨h.1.symm, h.2.symm⟩]
        rfl
  | _ => rfl

/-- The stored offset is the one committed last. -/
theorem offsets_foldl (group topic : Bytes) (partition : Int) (ops : List GroupOp)
    (start : Group) :
    ((ops.filter fun op => op.groupId = group).foldl GroupOp.update start).offsets[
        (⟨topic, partition⟩ : TopicPartition)]? =
      (lastCommit group topic partition ops).or
        start.offsets[(⟨topic, partition⟩ : TopicPartition)]? := by
  induction ops generalizing start with
  | nil => rfl
  | cons op ops ih =>
      unfold lastCommit at ih ⊢
      rw [List.filter_cons, List.filterMap_cons]
      by_cases hsame : op.groupId = group
      · rw [if_pos (by simpa using hsame), List.foldl_cons, ih, offsets_update, hsame]
        rcases op.commits group topic partition with _ | offset
        · rfl
        · rw [List.getLast?_cons]
          rcases (ops.filterMap (GroupOp.commits group topic partition)).getLast? with _ | later <;>
            rfl
      · have hother : op.commits group topic partition = none := by
          cases op <;> simp_all [GroupOp.commits, GroupOp.groupId]
        rw [if_neg (by simpa using hsame), ih, hother]

/-- **Every run**: the stored offset of a known group is the one committed last. -/
theorem offsets_run (ops : List GroupOp) (group topic : Bytes) (partition : Int) :
    ((GroupCoordinator.new.run ops).groupOf group).offsets[
        (⟨topic, partition⟩ : TopicPartition)]? =
      lastCommit group topic partition (GroupCoordinator.new.acceptedOps ops) := by
  rw [groupOf_run, groupOf_new, offsets_foldl]
  simp [Group.new]

end GroupCoordinator

/-- The run changed the membership of the group no more. -/
def Settled (group : Bytes) (accepted : List GroupOp) : Prop :=
  ∀ op ∈ accepted, op.changes group = false

instance (group : Bytes) (accepted : List GroupOp) : Decidable (Settled group accepted) :=
  inferInstanceAs (Decidable (∀ op ∈ accepted, op.changes group = false))

/-- While the counter has not run out, a generation that stands still means that the membership has
not changed. -/
theorem settled_of_generation_eq {ops between : List GroupOp} {group : Bytes}
    (hcount : (GroupCoordinator.new.acceptedOps (ops ++ between)).countP (GroupOp.changes group) <
      2 ^ 31 - 1)
    (hsame : ((GroupCoordinator.new.run (ops ++ between)).groupOf group).generation =
      ((GroupCoordinator.new.run ops).groupOf group).generation) :
    Settled group ((GroupCoordinator.new.run ops).acceptedOps between) := by
  have hlimit : i32Max = 2 ^ 31 - 1 := rfl
  rw [generation_run, generation_run] at hsame
  rw [acceptedOps_append, List.countP_append] at hsame hcount
  have hzero : ((GroupCoordinator.new.run ops).acceptedOps between).countP
      (GroupOp.changes group) = 0 := by omega
  intro op hop
  simpa using List.countP_eq_zero.mp hzero op hop

section Join

variable {coordinator : GroupCoordinator} {groupId memberId : Bytes} {subscriptions : List Bytes}
  {partitions : List TopicPartition} {generation : Int} {assignments : List GroupAssignment}

theorem accepted_of_join_ok
    (h : (coordinator.join groupId memberId subscriptions partitions).2 =
      .ok (generation, assignments)) :
    (GroupOp.join groupId memberId subscriptions partitions).accepted coordinator = true := by
  simp [GroupOp.accepted, GroupOp.perform, h, Except.map, Except.isOk, Except.toBool]

theorem groupOf_join
    (h : (coordinator.join groupId memberId subscriptions partitions).2 =
      .ok (generation, assignments)) :
    (coordinator.join groupId memberId subscriptions partitions).1.groupOf groupId =
      GroupOp.update (coordinator.groupOf groupId)
        (.join groupId memberId subscriptions partitions) := by
  rw [(join_ok h).1, groupOf, getElem?_insert_eq_ite, if_pos rfl]
  rfl

end Join

/-- **Generations fence, and offsets last.** Take any run in which a group goes through fewer than
`2^31 - 1` accepted joins and leaves, and any accepted join of it there. The generation that join
returned passes a heartbeat, a leave or a commit only if no membership change of the group was
accepted since; and the group's committed offsets are those of the last accepted commits. -/
theorem generation_fencing (before between : List GroupOp) (groupId memberId : Bytes)
    (subscriptions : List Bytes) (partitions : List TopicPartition) (generation : Int)
    (assignments : List GroupAssignment)
    (hjoin : ((GroupCoordinator.new.run before).join groupId memberId subscriptions partitions).2 =
      .ok (generation, assignments)) :
    let joined := ((GroupCoordinator.new.run before).join groupId memberId subscriptions
      partitions).1
    let ops := before ++ .join groupId memberId subscriptions partitions :: between
    let coordinator := GroupCoordinator.new.run ops
    ((GroupCoordinator.new.acceptedOps ops).countP (GroupOp.changes groupId) < 2 ^ 31 - 1 →
      (∀ member, (coordinator.heartbeat groupId member generation).2 = .ok () →
          Settled groupId (joined.acceptedOps between)) ∧
        (∀ member, (coordinator.leave groupId member generation).2 = .ok () →
          Settled groupId (joined.acceptedOps between)) ∧
        ∀ topic partition offset,
          (coordinator.commitOffset groupId generation topic partition offset).2 = .ok () →
          Settled groupId (joined.acceptedOps between)) ∧
      ∀ topic partition, coordinator.offset groupId topic partition =
        .ok (lastCommit groupId topic partition (GroupCoordinator.new.acceptedOps ops)) := by
  intro joined ops coordinator
  have hops : ops = (before ++ [.join groupId memberId subscriptions partitions]) ++ between :=
    List.append_cons before _ between
  have hjoined : GroupCoordinator.new.run
      (before ++ [.join groupId memberId subscriptions partitions]) = joined := run_append _ _ _
  constructor
  · intro hcount
    have hat : (joined.groupOf groupId).generation = generation := by
      rw [(join_ok hjoin).2.1]
      exact congrArg Group.generation (groupOf_join hjoin)
    -- an operation that presents the join's generation is accepted if it is the group's still
    have hsettled : ∀ op : GroupOp, op.groupId = groupId → op.presented = some generation →
        op.accepted coordinator = true → Settled groupId (joined.acceptedOps between) := by
      intro op hgroup hpresented haccepted
      have hgen := op.generation_of_accepted haccepted hpresented
      rw [hgroup] at hgen
      rw [← hjoined]
      refine settled_of_generation_eq (by rw [← hops]; exact hcount) ?_
      rw [← hops, hjoined, hat]
      exact hgen
    refine ⟨fun member h => ?_, fun member h => ?_, fun topic partition offset h => ?_⟩
    · exact hsettled (.heartbeat groupId member generation) rfl rfl
        (by rw [GroupOp.accepted, GroupOp.perform, h]; rfl)
    · exact hsettled (.leave groupId member generation) rfl rfl
        (by rw [GroupOp.accepted, GroupOp.perform, h]; rfl)
    · exact hsettled (.commitOffset groupId generation topic partition offset) rfl rfl
        (by rw [GroupOp.accepted, GroupOp.perform, h]; rfl)
  · intro topic partition
    have hrun : coordinator = joined.run between := by
      rw [← hjoined, ← run_append, ← hops]
    have hknown : groupId ∈ joined.groups := by
      show groupId ∈ ((GroupCoordinator.new.run before).join groupId memberId subscriptions
        partitions).1.groups
      rw [(join_ok hjoin).1]
      exact ExtTreeMap.mem_insert_self
    rw [hrun, offset_of_known (known_run hknown between), ← hrun]
    exact congrArg Except.ok (offsets_run ops groupId topic partition)

/-- A member that joins, commits and lets a stranger's join of another group pass. -/
def oneMember : List GroupOp :=
  [.commitOffset [103] 1 [116] 0 7, .join [104] [110] [] [], .commitOffset [103] 3 [116] 0 9]

theorem generation_fencing_oneMember :
    let joined := ((GroupCoordinator.new.run []).join [103] [109] [] []).1
    let coordinator := GroupCoordinator.new.run (.join [103] [109] [] [] :: oneMember)
    (coordinator.heartbeat [103] [109] 1).2 = .ok () ∧
      Settled [103] (joined.acceptedOps oneMember) ∧
      coordinator.offset [103] [116] 0 = .ok (some 7) := by
  have hjoin : ((GroupCoordinator.new.run []).join [103] [109] [] []).2 =
      .ok (1, [⟨[109], []⟩]) := by decide +kernel
  have hcount : (GroupCoordinator.new.acceptedOps
      (.join [103] [109] [] [] :: oneMember)).countP (GroupOp.changes [103]) < 2 ^ 31 - 1 := by
    decide +kernel
  have hbeat : ((GroupCoordinator.new.run (.join [103] [109] [] [] :: oneMember)).heartbeat
      [103] [109] 1).2 = .ok () := by decide +kernel
  have hlast : lastCommit [103] [116] 0 (GroupCoordinator.new.acceptedOps
      (.join [103] [109] [] [] :: oneMember)) = some 7 := by decide +kernel
  have h := generation_fencing [] oneMember [103] [109] [] [] 1 [⟨[109], []⟩] hjoin
  exact ⟨hbeat, (h.1 hcount).1 [109] hbeat, (h.2 [116] 0).trans (congrArg Except.ok hlast)⟩

/-! ## Members and the generation they live in -/

/-- No member is ahead of its group, and the group's generation is in range. -/
structure Group.Aged (group : Group) : Prop where
  nonneg : 0 ≤ group.generation
  le_max : group.generation ≤ i32Max
  members : ∀ (memberId : Bytes) (member : GroupMember),
    group.members[memberId]? = some member → member.generation ≤ group.generation

theorem Group.Aged.nextGeneration {group : Group} (h : group.Aged) :
    Core.nextGeneration group.generation = min (group.generation + 1) i32Max := by
  have h0 := h.nonneg
  have hlimit : (1 : Int) ≤ i32Max := by decide
  unfold Core.nextGeneration saturatingSucc
  omega

/-- The next generation, with members that were there before or are new in it. -/
theorem Group.Aged.next {group group' : Group} (h : group.Aged)
    (hgeneration : group'.generation = Core.nextGeneration group.generation)
    (hmembers : ∀ (memberId : Bytes) (member : GroupMember),
      group'.members[memberId]? = some member →
        group.members[memberId]? = some member ∨ member.generation = group'.generation) :
    group'.Aged := by
  have hnext := h.nextGeneration
  have h0 := h.nonneg
  have hmax := h.le_max
  refine ⟨by omega, by omega, fun memberId member hmember => ?_⟩
  rcases hmembers memberId member hmember with hold | hnew
  · have hle := h.members memberId member hold
    omega
  · exact Int.le_of_eq hnew

/-- **One accepted operation** keeps every member at or behind its group. -/
theorem Group.Aged.update {group : Group} (h : group.Aged) (op : GroupOp) :
    (op.update group).Aged := by
  have hleave : ∀ memberId, Group.Aged
      { group with
        members := group.members.erase memberId
        generation := Core.nextGeneration group.generation } := by
    refine fun memberId => h.next rfl fun memberId' member hmember => Or.inl ?_
    have hmember' : (group.members.erase memberId)[memberId']? = some member := hmember
    rw [ExtTreeMap.getElem?_erase] at hmember'
    split at hmember'
    · cases hmember'
    · exact hmember'
  cases op with
  | join groupId memberId subscriptions partitions =>
      refine h.next rfl fun memberId' member hmember => ?_
      have hmember' : (group.members.insert memberId
          ⟨subscriptions, Core.nextGeneration group.generation, true⟩)[memberId']? =
            some member := hmember
      rw [getElem?_insert_eq_ite] at hmember'
      split at hmember'
      · cases hmember'
        exact Or.inr rfl
      · exact Or.inl hmember'
  | heartbeat groupId memberId generation =>
      refine ⟨h.nonneg, h.le_max, ?_⟩
      intro memberId' member hmember
      show member.generation ≤ group.generation
      rcases hfound : group.members[memberId]? with _ | found
      · simp only [GroupOp.update, hfound] at hmember
        exact h.members memberId' member hmember
      · simp only [GroupOp.update, hfound, getElem?_insert_eq_ite] at hmember
        split at hmember
        · cases hmember
          exact h.members memberId found hfound
        · exact h.members memberId' member hmember
  | leave groupId memberId generation => exact hleave memberId
  | leaveAny groupId memberId => exact hleave memberId
  | commitOffset groupId generation topic partition offset => exact ⟨h.nonneg, h.le_max, h.members⟩

/-- **Every run** keeps them so. -/
theorem aged_run (ops : List GroupOp) (group : Bytes) :
    ((GroupCoordinator.new.run ops).groupOf group).Aged := by
  rw [groupOf_run, groupOf_new]
  have hnew : Group.new.Aged := ⟨Int.le_refl _, by decide, by simp [Group.new]⟩
  generalize (GroupCoordinator.new.acceptedOps ops).filter (fun op => op.groupId = group) = ops'
  generalize Group.new = start at hnew
  induction ops' generalizing start with
  | nil => exact hnew
  | cons op ops' ih => exact ih _ (hnew.update op)

/-- The assignment loop only fills in partitions. -/
theorem map_memberId_assignPartitions (members : List GroupMember)
    (partitions : List TopicPartition) (assignments : List GroupAssignment) :
    (assignPartitions members partitions assignments).map GroupAssignment.memberId =
      assignments.map GroupAssignment.memberId := by
  have hpush : ∀ (assignments : List GroupAssignment) (index : ℕ) (partition : TopicPartition),
      (pushPartition assignments index partition).map GroupAssignment.memberId =
        assignments.map GroupAssignment.memberId := by
    intro assignments index partition
    unfold pushPartition
    apply List.ext_getElem?
    intro i
    rw [List.getElem?_map, List.getElem?_map, List.getElem?_modify]
    rcases assignments[i]? with _ | assignment
    · rfl
    · by_cases h : index = i <;> simp [h]
  unfold assignPartitions
  generalize partitions.zipIdx = entries
  induction entries generalizing assignments with
  | nil => rfl
  | cons entry entries ih =>
      rw [List.foldl_cons, ih]
      dsimp only
      split
      · exact hpush _ _ _
      · rfl

section Join

variable {coordinator : GroupCoordinator} {groupId memberId : Bytes} {subscriptions : List Bytes}
  {partitions : List TopicPartition} {generation : Int} {assignments : List GroupAssignment}

/-- A join lists the members that the group then has. -/
theorem map_memberId_of_join_ok
    (h : (coordinator.join groupId memberId subscriptions partitions).2 =
      .ok (generation, assignments)) :
    assignments.map GroupAssignment.memberId = ((coordinator.groupOf groupId).members.insert memberId
      ⟨subscriptions, nextGeneration (coordinator.groupOf groupId).generation, true⟩).keys := by
  rw [(join_ok h).2.2]
  show (assignPartitions _ _ _).map GroupAssignment.memberId = _
  rw [map_memberId_assignPartitions, List.map_map]
  exact List.map_id _

/-- A join lists the joining member and every member it finds. -/
theorem mem_assignments_iff
    (h : (coordinator.join groupId memberId subscriptions partitions).2 =
      .ok (generation, assignments)) (listed : Bytes) :
    listed ∈ assignments.map GroupAssignment.memberId ↔
      listed = memberId ∨ listed ∈ (coordinator.groupOf groupId).members := by
  rw [map_memberId_of_join_ok h, ExtTreeMap.mem_keys, ExtTreeMap.mem_insert,
    Std.compare_eq_iff_eq, eq_comm]

/-- After a join a listed member can heartbeat exactly when its own generation is the new one. -/
theorem heartbeat_join_iff
    (h : (coordinator.join groupId memberId subscriptions partitions).2 =
      .ok (generation, assignments)) (listed : Bytes) :
    ((coordinator.join groupId memberId subscriptions partitions).1.heartbeat groupId listed
        generation).2 = .ok () ↔
      listed = memberId ∨ ∃ member, (coordinator.groupOf groupId).members[listed]? = some member ∧
        member.generation = generation := by
  obtain ⟨hstate, hgeneration, -⟩ := join_ok h
  rw [hstate]
  unfold heartbeat
  rw [getElem?_insert_eq_ite, if_pos rfl]
  simp only [GroupOp.update, ← hgeneration, ne_eq, not_true_eq_false, if_false,
    getElem?_insert_eq_ite]
  by_cases hself : listed = memberId
  · simp [hself]
  · simp only [hself, false_or]
    rcases (coordinator.groupOf groupId).members[listed]? with _ | member
    · simp
    · by_cases hown : member.generation = generation <;> simp [hown]

end Join

/-- **Who can live in a new generation.** After a join, every member it lists can heartbeat in the
generation it returned exactly when every other member was already at the limit of the counter;
in particular, when there was no other member. -/
theorem joined_lives_iff (ops : List GroupOp) (groupId memberId : Bytes)
    (subscriptions : List Bytes) (partitions : List TopicPartition) (generation : Int)
    (assignments : List GroupAssignment)
    (hjoin : ((GroupCoordinator.new.run ops).join groupId memberId subscriptions partitions).2 =
      .ok (generation, assignments)) :
    (∀ assignment ∈ assignments,
        (((GroupCoordinator.new.run ops).join groupId memberId subscriptions partitions).1.heartbeat
          groupId assignment.memberId generation).2 = .ok ()) ↔
      ∀ other member,
        ((GroupCoordinator.new.run ops).groupOf groupId).members[other]? = some member →
        other ≠ memberId → member.generation = i32Max := by
  have haged := aged_run ops groupId
  have hgeneration := (join_ok hjoin).2.1
  rw [haged.nextGeneration] at hgeneration
  constructor
  · intro hlive other member hmember hne
    have hlisted : other ∈ assignments.map GroupAssignment.memberId := by
      rw [mem_assignments_iff hjoin]
      right
      rw [ExtTreeMap.mem_iff_isSome_getElem?, hmember]
      rfl
    obtain ⟨assignment, hassignment, rfl⟩ := List.mem_map.mp hlisted
    rcases (heartbeat_join_iff hjoin _).mp (hlive assignment hassignment) with
      hself | ⟨member', hmember', hown⟩
    · exact absurd hself hne
    · rw [hmember] at hmember'
      cases hmember'
      have hle := haged.members _ member hmember
      omega
  · intro hmax assignment hassignment
    rw [heartbeat_join_iff hjoin]
    by_cases hself : assignment.memberId = memberId
    · exact Or.inl hself
    · have hlisted := (mem_assignments_iff hjoin assignment.memberId).mp
        (List.mem_map_of_mem hassignment)
      have hmem := hlisted.resolve_left hself
      rw [ExtTreeMap.mem_iff_isSome_getElem?, Option.isSome_iff_exists] at hmem
      obtain ⟨member, hmember⟩ := hmem
      have hown := hmax _ member hmember hself
      have hle := haged.members _ member hmember
      have hbound := haged.le_max
      exact Or.inr ⟨member, hmember, by omega⟩

/-- The only member of a group can. -/
theorem joined_lives_iff_alone :
    ((GroupCoordinator.new.run []).join [103] [109] [] []).2 = .ok (1, [⟨[109], []⟩]) ∧
      ∀ assignment ∈ [(⟨[109], []⟩ : GroupAssignment)],
        (((GroupCoordinator.new.run []).join [103] [109] [] []).1.heartbeat [103]
          assignment.memberId 1).2 = .ok () := by
  have hjoin : ((GroupCoordinator.new.run []).join [103] [109] [] []).2 =
      .ok (1, [⟨[109], []⟩]) := by decide
  refine ⟨hjoin, ?_⟩
  refine (joined_lives_iff [] [103] [109] [] [] 1 [⟨[109], []⟩] hjoin).mpr ?_
  intro other member hmember
  simp [groupOf_new, Group.new] at hmember

/-- **The first of two members cannot.** The second join lists both, in generation 2, which the
first member's heartbeat is refused in. -/
theorem not_joined_lives_second :
    let coordinator := GroupCoordinator.new.run [.join [103] [109] [] []]
    (coordinator.join [103] [110] [] []).2 = .ok (2, [⟨[109], []⟩, ⟨[110], []⟩]) ∧
      ((coordinator.join [103] [110] [] []).1.heartbeat [103] [109] 2).2 =
        .error .illegalGeneration := by
  decide

end CharlotteBroker.Core
