import CharlotteBroker.Engine.Handlers
import CharlotteBroker.Runtime.Locality

/-!
# Joins through the engine

What the engine answers to a join the coordinator accepted, and what it can rely on then.

* `encodeSubscription` writes `subscriptionBytes`, of size `subscriptionSize`, so an accepted join
  is answered by one encoder call (`joinResult_ok`).
* An accepted join lists every member of the group once (`length_assignments`).
* Member ids that entered by frames fit a string field, the generated ones included
  (`viewAfter_memberIdsFit`).
-/

namespace CharlotteBroker

open Std CharlotteBroker.Core Lib Lib.Printer CharlotteBroker.Runtime Wire

/-! ## Subscriptions and member ids -/

/-- Subscription metadata on the wire. -/
def subscriptionBytes (topics : List Bytes) : Bytes :=
  i16Bytes 0 ++ (i32Bytes (Int32.ofNat topics.length) ++
    (topics.flatMap stringField ++ i32Bytes (-1)))

theorem length_subscriptionBytes (topics : List Bytes) :
    (subscriptionBytes topics).length = subscriptionSize topics := by
  simp only [subscriptionBytes, subscriptionSize, List.length_append, length_i16Bytes,
    length_i32Bytes, length_flatMap_stringField]
  omega

theorem encodeSubscription_of_le {topics : List Bytes}
    (h : ∀ topic ∈ topics, topic.length ≤ maxStringLen) :
    encodeSubscription topics = .ok (subscriptionBytes topics) := by
  have htopic : ∀ topic : Bytes, Prints (do
      Printer.refuse (2 ^ 15 - 1 < topic.length) .tooLarge
      Encoder.i16 (Int16.ofNat topic.length)
      Printer.put topic) (¬ 2 ^ 15 - 1 < topic.length) (stringField topic) := fun topic =>
    (Prints.refuse _).thenFixed ((prints_i16 _).andThen (Prints.put topic))
  have hprints : Prints (subscriptionFields topics)
      (∀ topic ∈ topics, ¬ 2 ^ 15 - 1 < topic.length) (subscriptionBytes topics) :=
    (prints_i16 0).andThen ((prints_i32 _).andThen
      ((Prints.each htopic topics).thenFixed (prints_i32 _)))
  have hrun := (hprints [] ((), subscriptionBytes topics)).mpr ⟨fun topic htopic => ?_, rfl⟩
  · unfold encodeSubscription
    rw [hrun]
    rfl
  · exact Nat.not_lt.mpr (Nat.le_trans (h topic htopic) (by decide))

theorem length_pushDigits_le (places value : ℕ) (digits : Bytes) :
    (pushDigits places value digits).length ≤ places + digits.length := by
  induction places generalizing value digits with
  | zero => simp [pushDigits]
  | succ places ih =>
      unfold pushDigits
      split
      · refine Nat.le_trans (ih _ _) ?_
        rw [List.length_cons]
        omega
      · omega

theorem length_joiningMemberId_le (correlationId : Int32) {memberId : Bytes}
    (h : memberId.length ≤ maxStringLen) :
    (joiningMemberId correlationId memberId).length ≤ maxStringLen := by
  unfold joiningMemberId
  split
  · unfold generatedMemberId
    have hdigits := length_pushDigits_le 12 correlationId.toInt.natAbs []
    rw [List.length_nil] at hdigits
    simp only [List.length_append, maxStringLen]
    split
    · simp
    · simp only [List.length_cons, List.length_nil]
      omega
  · exact h

theorem joiningMemberId_ne_nil (correlationId : Int32) (memberId : Bytes) :
    joiningMemberId correlationId memberId ≠ [] := by
  unfold joiningMemberId
  split
  · exact List.cons_ne_nil _ _
  · next hne => exact fun h => hne (List.isEmpty_iff.mpr h)

/-! ## Accepted joins -/

/-- The members of an accepted join's answer. -/
def answeredMembers (subscriptions : List Bytes) (assignments : List GroupAssignment) :
    List (Bytes × Bytes) :=
  assignments.map fun assignment => (assignment.memberId, subscriptionBytes subscriptions)

/-- An accepted join is answered by one encoder call. -/
theorem Engine.joinResult_ok (correlationId : Int32) (memberId : Bytes) {subscriptions : List Bytes}
    (h : ∀ topic ∈ subscriptions, topic.length ≤ maxStringLen) (generation : Int)
    (assignments : List GroupAssignment) :
    Engine.joinResult correlationId memberId subscriptions (.ok (generation, assignments)) =
      encodeJoinGroup correlationId ⟨noError, Int32.ofInt generation, fixedProtocol, memberId,
        memberId, answeredMembers subscriptions assignments⟩ := by
  have hmembers : (assignments.mapM fun assignment => do
      return (assignment.memberId, ← encodeSubscription subscriptions)) =
      (.ok (answeredMembers subscriptions assignments) : Except Error _) := by
    unfold answeredMembers
    rw [encodeSubscription_of_le h]
    induction assignments with
    | nil => rfl
    | cons assignment rest ih =>
        rw [List.mapM_cons, ih]
        rfl
  simp only [Engine.joinResult, hmembers]
  rfl

section Join

variable {groups : GroupCoordinator} {groupId memberId : Bytes} {subscriptions : List Bytes}
  {partitions : List TopicPartition}

/-- Joins are refused for an empty id only. -/
theorem join_eq_ok (hgroup : groupId ≠ []) (hmember : memberId ≠ []) :
    ∃ generation assignments, (groups.join groupId memberId subscriptions partitions).2 =
      .ok (generation, assignments) := by
  unfold GroupCoordinator.join
  rw [if_neg (by simp [hgroup, hmember])]
  exact ⟨_, _, rfl⟩

theorem join_of_empty (hgroup : groupId = []) :
    groups.join groupId memberId subscriptions partitions = (groups, .error .invalidId) := by
  unfold GroupCoordinator.join
  rw [if_pos (by simp [hgroup])]

variable {generation : Int} {assignments : List GroupAssignment}

/-- An accepted join answers with one entry for each member of the group. -/
theorem length_assignments
    (h : (groups.join groupId memberId subscriptions partitions).2 =
      .ok (generation, assignments)) :
    assignments.length =
      if (groups.groupOf groupId).members.contains memberId then
        (groups.groupOf groupId).members.size
      else (groups.groupOf groupId).members.size + 1 := by
  have hids := congrArg List.length (map_memberId_of_join_ok h)
  rwa [List.length_map, ExtTreeMap.length_keys, ExtTreeMap.size_insert] at hids

end Join

/-! ## Member ids that came by frames -/

/-- Every member id fits a string field. -/
def MemberIdsFit (groups : GroupCoordinator) : Prop :=
  ∀ groupId memberId, memberId ∈ (groups.groupOf groupId).members →
    memberId.length ≤ maxStringLen

/-- Only a join brings in a member. -/
theorem mem_members_update {group : Group} {op : GroupOp} {memberId : Bytes}
    (h : memberId ∈ (op.update group).members) :
    memberId ∈ group.members ∨
      ∃ groupId subscriptions partitions, op = .join groupId memberId subscriptions partitions := by
  cases op with
  | join groupId joining subscriptions partitions =>
      rcases ExtTreeMap.mem_insert.mp h with heq | hmem
      · rw [Std.compare_eq_iff_eq] at heq
        exact Or.inr ⟨groupId, subscriptions, partitions, by rw [heq]⟩
      · exact Or.inl hmem
  | heartbeat groupId beating generation =>
      exact Or.inl ((mem_members_heartbeat group groupId beating generation memberId).mp h)
  | leave groupId leaving generation => exact Or.inl (ExtTreeMap.mem_erase.mp h).2
  | leaveAny groupId leaving => exact Or.inl (ExtTreeMap.mem_erase.mp h).2
  | commitOffset => exact Or.inl h

theorem MemberIdsFit.apply {groups : GroupCoordinator} (h : MemberIdsFit groups) {op : GroupOp}
    (hjoin : ∀ groupId memberId subscriptions partitions,
      op = .join groupId memberId subscriptions partitions → memberId.length ≤ maxStringLen) :
    MemberIdsFit (op.apply groups) := by
  rcases haccepted : op.accepted groups with _ | _
  · rwa [GroupOp.apply_of_refused haccepted]
  · intro groupId memberId hmem
    rw [GroupOp.groupOf_apply haccepted] at hmem
    split at hmem
    · rcases mem_members_update hmem with hold | ⟨_, _, _, hop⟩
      · exact h _ _ hold
      · exact hjoin _ _ _ _ hop
    · exact h _ _ hmem

/-- A join is requested by the call of that join only. -/
theorem Runtime.Call.Sends.eq_joinGroup {n : ℕ} [NeZero n] {catalog : TopicCatalog} {call : Call}
    {shard : Fin n} {groupId memberId : Bytes} {subscriptions : List Bytes}
    {partitions : List TopicPartition}
    (h : call.Sends catalog shard
      (.coordinate (.joinGroup groupId memberId subscriptions partitions))) :
    call = .joinGroup groupId memberId subscriptions := by
  cases call with
  | produce | fetchWithIsolation | listOffset => cases h.2
  | produceTransactional => rcases h with ⟨-, h⟩ | ⟨-, h⟩ <;> cases h
  | endTransaction => rcases h with ⟨-, h⟩ | h | ⟨-, -, _, _, _, _, _, h⟩ <;> cases h
  | joinGroup =>
      obtain ⟨-, request, hrequest, hcommand⟩ := h
      cases hrequest
      cases hcommand
      rfl
  | _ =>
      obtain ⟨-, request, hrequest, hcommand⟩ := h
      cases hrequest
      cases hcommand

/-- A decoded request joins members with ids that fit. -/
theorem Engine.Sends.joinGroup_le {n : ℕ} [NeZero n] {engine : Engine} {frame : Bytes}
    {request : Request} (hdecode : decodeRequest frame = .ok request) {shard : Fin n}
    {groupId memberId : Bytes} {subscriptions : List Bytes} {partitions : List TopicPartition}
    (h : engine.Sends request shard
      (.coordinate (.joinGroup groupId memberId subscriptions partitions))) :
    memberId.length ≤ maxStringLen := by
  obtain ⟨call, hmakes, hsends⟩ := h
  have hbounded := decodeRequest_bounded hdecode
  obtain ⟨header, body⟩ := request
  rw [hsends.eq_joinGroup] at hmakes
  cases body with
  | joinGroup groupId' memberId' subscriptions' =>
      cases hmakes
      exact length_joiningMemberId_le _ hbounded.1
  | initProducerId => obtain ⟨_, -, h⟩ := hmakes; cases h
  | addPartitionsToTxn => obtain ⟨_, -, _, -, h⟩ := hmakes; cases h
  | produce => obtain ⟨_, -, _, -, ⟨-, h⟩ | ⟨_, _, -, h⟩⟩ := hmakes <;> cases h
  | fetch => obtain ⟨_, -, _, -, h⟩ := hmakes; cases h
  | listOffsets => obtain ⟨_, -, _, -, _, h⟩ := hmakes; cases h
  | _ => cases hmakes

/-- **Member ids fit** after any frames. -/
theorem viewAfter_memberIdsFit {n : ℕ} [NeZero n] (engine : Engine) (frames : List Bytes) :
    MemberIdsFit (engine.viewAfter n frames).groups := by
  refine Engine.viewAfter_preserves (n := n) (fun view => MemberIdsFit view.groups) ?_ ?_ frames
  · intro groupId memberId hmem
    simp [View.start, GroupCoordinator.new, GroupCoordinator.groupOf, Group.new] at hmem
  · rintro view shard command hfit ⟨frame, request, hdecode, hsends⟩
    rcases hlog : command.onLog with _ | ⟨key, operate⟩
    · unfold View.serve
      rw [hlog]
      cases command with
      | coordinate coordination =>
          show MemberIdsFit (coordinate view.transactions view.groups coordination).1.2
          rw [coordinate_groups]
          rcases hop : coordination.groupOp? with _ | op
          · exact hfit
          · refine hfit.apply fun groupId memberId subscriptions partitions heq => ?_
            subst heq
            cases coordination <;> cases hop
            exact Engine.Sends.joinGroup_le hdecode hsends
      | _ => exact hfit
    · rw [View.serve_onLog engine.broker view shard hlog]
      unfold View.withLog
      rcases engine.broker.catalog.checkPartition key.topic key.partition with error | value
      · exact hfit
      · exact hfit

end CharlotteBroker
