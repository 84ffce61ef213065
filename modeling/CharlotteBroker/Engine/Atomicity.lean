import CharlotteBroker.Engine.Fetching
import CharlotteBroker.Engine.Joining

/-!
# Failed frames

The engine applies a request before it encodes the answer, so a frame that fails may have changed
the broker. For fourteen of the fifteen request kinds it cannot: the request's own bounds make the
answer fit, or the request only reads (`answered_or_same`). A join is answered with all members of
the group, and a group may outgrow the bound on arrays.

* `failedFrame_unchanged_iff`: in a state reached by frames, a failed frame changes nothing exactly
  if the frame is not a join of that sort (`Answerable`).
* `lostJoin`: after as many joins as an array may have entries, the next member joins unanswered.
-/

namespace CharlotteBroker

open Std CharlotteBroker.Core Lib CharlotteBroker.Runtime Wire

/-- Nothing that requests can change differs: the logs, the transactions with the producer
identities, and the members, the generation and the committed offsets of every group. -/
structure Unchanged (before after : View) : Prop where
  logs : after.logs = before.logs
  transactions : after.transactions = before.transactions
  members : ∀ groupId memberId, memberId ∈ (after.groups.groupOf groupId).members ↔
    memberId ∈ (before.groups.groupOf groupId).members
  generations : ∀ groupId,
    (after.groups.groupOf groupId).generation = (before.groups.groupOf groupId).generation
  offsets : ∀ groupId topic partition,
    after.groups.offset groupId topic partition = before.groups.offset groupId topic partition

theorem Unchanged.refl (view : View) : Unchanged view view :=
  ⟨rfl, rfl, fun _ _ => Iff.rfl, fun _ => rfl, fun _ _ _ => rfl⟩

/-- How many members the group has once this one has joined. -/
def membersAfterJoin (groups : GroupCoordinator) (groupId memberId : Bytes) : ℕ :=
  if (groups.groupOf groupId).members.contains memberId then (groups.groupOf groupId).members.size
  else (groups.groupOf groupId).members.size + 1

/-- The request is not a join whose answer does not fit: the join is refused, or the group's members
fit an array, or it is a join of a member at the last generation, which changes nothing. -/
def Answerable (groups : GroupCoordinator) (request : Request) : Prop :=
  ∀ groupId memberId subscriptions, request.body = .joinGroup groupId memberId subscriptions →
    let joining := joiningMemberId request.header.correlationId memberId
    groupId = [] ∨ membersAfterJoin groups groupId joining ≤ maxArrayLen ∨
      (joining ∈ (groups.groupOf groupId).members ∧
        (groups.groupOf groupId).generation = i32Max)

/-! ## Requests that are not joins -/

theorem fits_of_shape {α : Type} {topics : List (Topic α)} (h : ShapeFits (shape topics)) :
    topics.length ≤ maxArrayLen ∧ ∀ topic ∈ topics, TopicFits (fun _ => True) topic := by
  obtain ⟨hlen, hall⟩ := h
  refine ⟨by rwa [shape, List.length_map] at hlen, fun topic htopic => ?_⟩
  obtain ⟨hname, hcount⟩ := hall _ (List.mem_map_of_mem htopic)
  exact ⟨hname, hcount, fun _ _ => trivial⟩

theorem shapeFits_of_validTopics {α : Type} {rule : Topic α → Prop} {item : α → Prop}
    {topics : List (Topic α)} (h : Wire.ValidTopics rule item topics) :
      ShapeFits (shape topics) := by
  obtain ⟨hlen, hall⟩ := h
  refine ⟨by rwa [shape, List.length_map], fun entry hentry => ?_⟩
  obtain ⟨topic, htopic, rfl⟩ := List.mem_map.mp hentry
  exact ⟨(hall topic htopic).2.1, (hall topic htopic).2.2.1⟩

variable {n : ℕ} [NeZero n] {engine : Engine}

/-- A handler whose encoder takes every result answers. -/
theorem answered_attempt {α : Type} (view : View) (method : BrokerM n α)
    {next : Except BrokerError α → Except Error Bytes}
    (h : ∀ result, ∃ response, next result = .ok response) :
    ∃ response, (engine.exec view (do return next (← method.run))).2 = .ok response := by
  rw [Engine.exec_attempt]
  exact h _

/-- A handler with a loop whose encoder takes every list of the request's shape answers. -/
theorem answered_eachPartition {α β : Type} (view : View) {topics : List (Topic α)}
    (f : Bytes → α → EngineM n β) {next : List (Topic β) → Except Error Bytes}
    (h : ∀ answered, shape answered = shape topics → ∃ response, next answered = .ok response) :
    ∃ response, (engine.exec view (do return next (← eachPartition topics f))).2 =
      .ok response := by
  rw [Engine.exec_bind]
  exact h _ (Engine.shape_eachPartition view topics f)

/-- **Every other request** is answered or changes nothing. -/
theorem answered_or_same (view : View) {request : Request} (hbounded : request.body.Bounded)
    (hjoin : ∀ groupId memberId subscriptions,
      request.body ≠ .joinGroup groupId memberId subscriptions) :
    (∃ response, (engine.exec view (engine.handleRequest (n := n) request)).2 = .ok response) ∨
      (engine.exec view (engine.handleRequest (n := n) request)).1 = view := by
  obtain ⟨header, body⟩ := request
  cases body with
  | joinGroup groupId memberId subscriptions => exact absurd rfl (hjoin _ _ _)
  | apiVersions | findCoordinator | syncGroup | metadata => exact Or.inr rfl
  | initProducerId transactionalId timeoutMs =>
      rcases transactionalId with _ | id
      · exact Or.inr rfl
      · refine Or.inl (answered_attempt view _ fun result => ?_)
        exact ⟨_, encodeInitProducerId_eq_ok.mpr rfl⟩
  | endTxn =>
      refine Or.inl (answered_attempt view _ fun result => ?_)
      exact ⟨_, encodeEndTxn_eq_ok.mpr rfl⟩
  | heartbeat =>
      refine Or.inl (answered_attempt view _ fun result => ?_)
      exact ⟨_, encodeGroupError_eq_ok.mpr rfl⟩
  | leaveGroup =>
      refine Or.inl (answered_attempt view _ fun result => ?_)
      exact ⟨_, encodeGroupError_eq_ok.mpr rfl⟩
  | offsetCommit =>
      refine Or.inl (answered_attempt view _ fun result => ?_)
      exact ⟨_, encodeOffsetCommit_eq_ok.mpr ⟨hbounded, rfl⟩⟩
  | offsetFetch => exact Or.inr (congrArg Prod.fst (Engine.exec_offsetFetch _ _ _ _ _))
  | fetch => exact Or.inr (congrArg Prod.fst (Engine.exec_fetch _ _ _ _ _))
  | listOffsets => exact Or.inr (congrArg Prod.fst (Engine.exec_listOffsets _ _ _))
  | addPartitionsToTxn transactionalId producerId producerEpoch topics =>
      refine Or.inl (answered_eachPartition view _ fun answered hshape => ?_)
      have hfits := shapeFits_of_validTopics hbounded.2
      rw [← hshape] at hfits
      exact ⟨_, encodeAddPartitionsToTxn_eq_ok.mpr ⟨fits_of_shape hfits, rfl⟩⟩
  | produce transactionalId acks timeoutMs topics =>
      refine Or.inl (answered_eachPartition view _ fun answered hshape => ?_)
      have hfits := hbounded.1
      rw [← hshape] at hfits
      exact ⟨_, encodeProduce_eq_ok.mpr ⟨fits_of_shape hfits, rfl⟩⟩

/-! ## Joins -/

theorem nextGeneration_eq_self {generation : Int} :
    nextGeneration generation = generation ↔ generation = i32Max := by
  unfold nextGeneration saturatingSucc i32Max
  omega

section Join

variable {groups : GroupCoordinator} {groupId memberId : Bytes} {subscriptions : List Bytes}
  {partitions : List TopicPartition}

/-- The groups after an accepted join. -/
theorem groupOf_joined (hgroup : groupId ≠ []) (hmember : memberId ≠ []) (other : Bytes) :
    (groups.join groupId memberId subscriptions partitions).1.groupOf other =
      if other = groupId then
        (GroupOp.join groupId memberId subscriptions partitions).update (groups.groupOf other)
      else groups.groupOf other := by
  obtain ⟨generation, assignments, hjoin⟩ := @join_eq_ok groups _ _ subscriptions partitions hgroup
    hmember
  exact GroupOp.groupOf_apply (accepted_of_join_ok hjoin) other

/-- A join commits no offset: only to a group that is not known it may answer anything else. -/
theorem offset_join (hknown : groupId ∈ groups.groups) (hgroup : groupId ≠ [])
    (hmember : memberId ≠ []) (other topic : Bytes) (partition : Int) :
    (groups.join groupId memberId subscriptions partitions).1.offset other topic partition =
      groups.offset other topic partition := by
  obtain ⟨generation, assignments, hjoin⟩ := @join_eq_ok groups _ _ subscriptions partitions hgroup
    hmember
  by_cases hother : other = groupId
  · subst hother
    have hafter : other ∈ (groups.join other memberId subscriptions partitions).1.groups :=
      GroupCoordinator.known_apply hknown (.join other memberId subscriptions partitions)
    rw [GroupCoordinator.offset_of_known hknown, GroupCoordinator.offset_of_known hafter,
      groupOf_joined hgroup hmember, if_pos rfl]
    rfl
  · rw [(GroupCoordinator.join_ok hjoin).1]
    unfold GroupCoordinator.offset
    rw [getElem?_insert_eq_ite, if_neg hother]

theorem known_of_mem_members (h : memberId ∈ (groups.groupOf groupId).members) :
    groupId ∈ groups.groups := by
  by_contra hnot
  rw [GroupCoordinator.groupOf, ExtTreeMap.getElem?_eq_none hnot] at h
  exact ExtTreeMap.not_mem_empty h

/-- An accepted join changes something unless the member is there at the last generation. -/
theorem unchanged_join_iff (view : View) (hgroup : groupId ≠ []) (hmember : memberId ≠ []) :
    Unchanged view
        { view with groups := (view.groups.join groupId memberId subscriptions partitions).1 } ↔
      memberId ∈ (view.groups.groupOf groupId).members ∧
        (view.groups.groupOf groupId).generation = i32Max := by
  constructor
  · intro h
    have hmem := h.members groupId memberId
    have hgen := h.generations groupId
    simp only [groupOf_joined hgroup hmember, if_true] at hmem hgen
    exact ⟨hmem.mp ExtTreeMap.mem_insert_self, nextGeneration_eq_self.mp hgen⟩
  · rintro ⟨hmem, hgen⟩
    refine ⟨rfl, rfl, fun other id => ?_, fun other => ?_, fun other topic partition => ?_⟩
    · simp only [groupOf_joined hgroup hmember]
      split
      · next heq =>
          subst heq
          refine ExtTreeMap.mem_insert.trans ⟨?_, Or.inr⟩
          rintro (heq | hold)
          · rwa [← Std.compare_eq_iff_eq.mp heq]
          · exact hold
      · rfl
    · simp only [groupOf_joined hgroup hmember]
      split
      · next heq =>
          subst heq
          exact nextGeneration_eq_self.mpr hgen
      · rfl
    · exact offset_join (known_of_mem_members hmem) hgroup hmember other topic partition

/-- An accepted join is answered exactly if the members fit an array. -/
theorem join_answered_iff (correlationId : Int32) (hfit : MemberIdsFit groups)
    (hgroup : groupId ≠ []) (hmember : memberId ≠ []) (hid : memberId.length ≤ maxStringLen)
    (htopics : ∀ topic ∈ subscriptions, topic.length ≤ maxStringLen)
    (hsize : subscriptionSize subscriptions ≤ maxFrameLen) :
    (∃ response, Engine.joinResult correlationId memberId subscriptions
        ((groups.join groupId memberId subscriptions partitions).2.mapError .coordination) =
          .ok response) ↔
      membersAfterJoin groups groupId memberId ≤ maxArrayLen := by
  obtain ⟨generation, assignments, hjoin⟩ := @join_eq_ok groups _ _ subscriptions partitions hgroup
    hmember
  have hcount : (answeredMembers subscriptions assignments).length =
      membersAfterJoin groups groupId memberId := by
    rw [answeredMembers, List.length_map]
    exact length_assignments hjoin
  have hentry : ∀ member ∈ answeredMembers subscriptions assignments,
      member.1.length ≤ maxStringLen ∧ member.2.length ≤ maxFrameLen := by
    intro member hmem
    obtain ⟨assignment, hassignment, rfl⟩ := List.mem_map.mp hmem
    refine ⟨?_, by rwa [length_subscriptionBytes]⟩
    rcases (mem_assignments_iff hjoin _).mp
      (List.mem_map_of_mem hassignment) with heq | hold
    · rwa [heq]
    · exact hfit _ _ hold
  rw [hjoin, Except.mapError, Engine.joinResult_ok correlationId memberId htopics, ← hcount]
  constructor
  · rintro ⟨response, hresponse⟩
    exact (encodeJoinGroup_eq_ok.mp hresponse).1.2.2.2.1
  · intro hle
    have hprotocol : fixedProtocol.length ≤ maxStringLen := by decide
    exact ⟨_, encodeJoinGroup_eq_ok.mpr ⟨⟨hprotocol, hid, hid, hle, hentry⟩, rfl⟩⟩

end Join

/-! ## Failed frames -/

theorem answerable_join {groups : GroupCoordinator} {header : Header}
    {groupId memberId joining : Bytes} {subscriptions : List Bytes}
    (hjoining : joiningMemberId header.correlationId memberId = joining) :
    Answerable groups ⟨header, .joinGroup groupId memberId subscriptions⟩ ↔
      groupId = [] ∨ membersAfterJoin groups groupId joining ≤ maxArrayLen ∨
        (joining ∈ (groups.groupOf groupId).members ∧
          (groups.groupOf groupId).generation = i32Max) := by
  subst hjoining
  refine ⟨fun h => h _ _ _ rfl, ?_⟩
  rintro h _ _ _ ⟨⟩
  exact h

/-- A join that fails changes nothing exactly if it is answerable. -/
theorem join_unchanged_iff {view : View} (hfit : MemberIdsFit view.groups) (header : Header)
    {groupId memberId : Bytes} {subscriptions : List Bytes}
    (hbounded : (RequestBody.joinGroup groupId memberId subscriptions).Bounded) :
    (∀ error, (engine.exec view (engine.handleRequest (n := n)
          ⟨header, .joinGroup groupId memberId subscriptions⟩)).2 = .error error →
        Unchanged view (engine.exec view (engine.handleRequest (n := n)
          ⟨header, .joinGroup groupId memberId subscriptions⟩)).1) ↔
      Answerable view.groups ⟨header, .joinGroup groupId memberId subscriptions⟩ := by
  obtain ⟨hid, htopics, hsize⟩ := hbounded
  have hjoining := length_joiningMemberId_le header.correlationId hid
  have hne := joiningMemberId_ne_nil header.correlationId memberId
  rw [show engine.exec view (engine.handleRequest (n := n) _) = _ from
    Engine.exec_joinGroup _ _ _ _ _, answerable_join rfl]
  by_cases hgroup : groupId = []
  · refine iff_of_true (fun error _ => ?_) (Or.inl hgroup)
    rw [join_of_empty hgroup]
    exact Unchanged.refl view
  · have hanswer := @join_answered_iff _ _ _ _ (catalogPartitions engine.broker.catalog)
      header.correlationId hfit hgroup hne hjoining htopics hsize
    simp only [hgroup, false_or]
    rw [← hanswer, ← unchanged_join_iff view hgroup hne]
    constructor
    · intro h
      rcases hresult : Engine.joinResult header.correlationId
        (joiningMemberId header.correlationId memberId) subscriptions _ with error | response
      · exact Or.inr (h error hresult)
      · exact Or.inl ⟨response, rfl⟩
    · rintro (⟨response, hresult⟩ | hsame) error herror
      · rw [hresult] at herror
        cases herror
      · exact hsame

/-- **Failed frames.** After any frames, a frame that fails leaves the logs, the transactions, the
producer identities and the groups as they were, exactly if it is not an accepted join that makes
the group larger than an array may be, or raises the generation of a group that is. -/
theorem failedFrame_unchanged_iff (engine : Engine) (frames : List Bytes) (frame : Bytes) :
    (∀ error, (engine.handle (engine.after n frames) frame).2 = .error error →
        Unchanged (viewOf engine.broker (engine.after n frames))
          (viewOf engine.broker (engine.handle (engine.after n frames) frame).1)) ↔
      ∀ request, decodeRequest frame = .ok request →
        Answerable (engine.after n frames 0).groups request := by
  obtain ⟨hview, hresult⟩ := Engine.viewOf_handle engine (engine.after n frames) frame
  have hfit := viewAfter_memberIdsFit (n := n) engine frames
  rw [hview, hresult, Engine.viewOf_after, Engine.groups_after]
  rcases hdecode : decodeRequest frame with failure | request
  · have hsame : (engine.onView n (engine.viewAfter n frames) frame).1 =
        engine.viewAfter n frames := by
      unfold Engine.onView Engine.handleFrame
      rw [hdecode]
      cases failure <;> rfl
    apply iff_of_true
    · intro error _
      rw [hsame]
      exact Unchanged.refl _
    · intro request hrequest
      cases hrequest
  · rw [Engine.onView_of_decode hdecode]
    have hbounded := decodeRequest_bounded hdecode
    by_cases hjoin : ∃ groupId memberId subscriptions,
        request.body = .joinGroup groupId memberId subscriptions
    · obtain ⟨groupId, memberId, subscriptions, hbody⟩ := hjoin
      obtain ⟨header, body⟩ := request
      subst hbody
      rw [join_unchanged_iff hfit header hbounded]
      refine ⟨?_, fun h => h _ rfl⟩
      rintro h _ ⟨⟩
      exact h
    · have hnot : ∀ groupId memberId subscriptions,
          request.body ≠ .joinGroup groupId memberId subscriptions :=
        fun groupId memberId subscriptions h => hjoin ⟨groupId, memberId, subscriptions, h⟩
      refine iff_of_true (fun error herror => ?_) ?_
      · rcases @answered_or_same n _ engine (engine.viewAfter n frames) _ hbounded hnot
          with ⟨response, hresponse⟩ | hsame
        · rw [hresponse] at herror
          cases herror
        · rw [hsame]
          exact Unchanged.refl _
      · rintro _ ⟨⟩ groupId memberId subscriptions hbody
        exact absurd hbody (hnot _ _ _)

/-- A fetch whose answer does not fit fails, and leaves the log and everything else as it is. -/
theorem failedFrame_unchanged_fetch :
    let frame := produceFrame [116] 0 (keyless 0 (List.replicate 524256 0))
    let shards := oneTopicEngine.after 1 [frame, frame]
    (oneTopicEngine.handle shards fetchFrame).2 = .error .tooLarge ∧
      Unchanged (viewOf oneTopicEngine.broker shards)
        (viewOf oneTopicEngine.broker (oneTopicEngine.handle shards fetchFrame).1) := by
  -- only the length of the value matters
  have hlength : (List.replicate 524256 0 : Bytes).length = 524256 := List.length_replicate
  generalize (List.replicate 524256 0 : Bytes) = value at hlength ⊢
  intro frame shards
  have hfails : (oneTopicEngine.handle shards fetchFrame).2 = .error .tooLarge :=
    (fetch_keyless_fails hlength).2.2
  have hdecode : decodeRequest fetchFrame = .ok ⟨⟨1, 4, 0, none⟩,
      .fetch (-1) 0 0 1048576 false [⟨[116], [⟨0, 0, 1048576⟩]⟩]⟩ := by decide
  refine ⟨hfails,
    (failedFrame_unchanged_iff oneTopicEngine [frame, frame] fetchFrame).mpr ?_ _ hfails⟩
  rw [hdecode]
  rintro request ⟨⟩ groupId memberId subscriptions hbody
  cases hbody

/-! ## A join that is lost -/

/-- The member that joins `i`-th. -/
def crowdMember (i : ℕ) : Bytes := beBytes 2 i

/-- Joins of that many members, one after the other. -/
def crowdFrames (count : ℕ) : List Bytes :=
  (List.range count).map fun i => joinFrame [103] (crowdMember i)

theorem crowdFrames_succ (count : ℕ) :
    crowdFrames (count + 1) = crowdFrames count ++ [joinFrame [103] (crowdMember count)] := by
  rw [crowdFrames, List.range_succ, List.map_append]
  rfl

/-- What a member's join does on the view. -/
theorem onView_crowdMember (view : View) (i : ℕ) :
    oneTopicEngine.onView 1 view (joinFrame [103] (crowdMember i)) =
      ({ view with
          groups := (view.groups.join [103] (crowdMember i) []
            (catalogPartitions oneTopicEngine.broker.catalog)).1 },
        Engine.joinResult 0 (crowdMember i) []
          ((view.groups.join [103] (crowdMember i) []
            (catalogPartitions oneTopicEngine.broker.catalog)).2.mapError .coordination)) := by
  have hmember : (crowdMember i).length ≤ maxStringLen := by
    rw [crowdMember, length_beBytes]
    decide
  have hid : joiningMemberId 0 (crowdMember i) = crowdMember i := rfl
  rw [Engine.onView_joinGroup (decodeRequest_joinFrame (by decide) hmember), hid]

theorem crowdMember_ne_nil (i : ℕ) : crowdMember i ≠ [] := List.cons_ne_nil _ _

/-- The members of the group after that many joins. -/
noncomputable def crowd (count : ℕ) : ExtTreeMap Bytes GroupMember :=
  ((oneTopicEngine.viewAfter 1 (crowdFrames count)).groups.groupOf [103]).members

theorem crowd_succ (count : ℕ) :
    ∃ member, crowd (count + 1) = (crowd count).insert (crowdMember count) member := by
  rw [crowd, crowdFrames_succ, Engine.viewAfter_append, onView_crowdMember,
    groupOf_joined (by decide) (crowdMember_ne_nil count), if_pos rfl]
  exact ⟨_, rfl⟩

/-- As many members are there as have joined. -/
theorem crowd_spec {count : ℕ} (hcount : count ≤ maxArrayLen) :
    (crowd count).size = count ∧ ∀ i ≤ maxArrayLen, crowdMember i ∈ crowd count ↔ i < count := by
  unfold maxArrayLen at hcount ⊢
  induction count with
  | zero => exact ⟨rfl, fun i _ => iff_of_false ExtTreeMap.not_mem_empty (Nat.not_lt_zero i)⟩
  | succ count ih =>
      obtain ⟨hsize, hmem⟩ := ih (by omega)
      obtain ⟨member, hsucc⟩ := crowd_succ count
      have hnew : crowdMember count ∉ crowd count :=
        fun h => Nat.lt_irrefl _ ((hmem count (by omega)).mp h)
      rw [hsucc]
      refine ⟨?_, fun i hi => ?_⟩
      · rw [ExtTreeMap.size_insert, if_neg (mt ExtTreeMap.contains_iff_mem.mp hnew), hsize]
      · have hsame : crowdMember count = crowdMember i ↔ count = i :=
          ⟨beBytes_inj (by omega) (by omega), congrArg crowdMember⟩
        rw [ExtTreeMap.mem_insert, Std.compare_eq_iff_eq, hsame, hmem i hi]
        omega

/-- The join after as many joins as an array may have entries. -/
theorem join_of_full {count : ℕ} (hcount : count = maxArrayLen) :
    let shards := oneTopicEngine.after 1 (crowdFrames count)
    let newcomer := crowdMember count
    let handled := oneTopicEngine.handle shards (joinFrame [103] newcomer)
    (∃ error, handled.2 = .error error) ∧
      newcomer ∉ ((shards 0).groups.groupOf [103]).members ∧
      newcomer ∈ ((handled.1 0).groups.groupOf [103]).members := by
  obtain ⟨hsize, hmem⟩ := crowd_spec (Nat.le_of_eq hcount)
  have hnew : crowdMember count ∉ crowd count :=
    fun h => Nat.lt_irrefl _ ((hmem count (Nat.le_of_eq hcount)).mp h)
  have hlarge : membersAfterJoin (oneTopicEngine.viewAfter 1 (crowdFrames count)).groups [103]
      (crowdMember count) = count + 1 :=
    (if_neg (mt ExtTreeMap.contains_iff_mem.mp hnew)).trans (congrArg (· + 1) hsize)
  dsimp only
  rw [(Engine.viewOf_handle oneTopicEngine _ _).2, Engine.groups_handle, Engine.groups_after,
    Engine.viewOf_after, onView_crowdMember]
  refine ⟨?_, hnew, ?_⟩
  · have hid : (crowdMember count).length ≤ maxStringLen := by
      rw [crowdMember, length_beBytes]
      decide
    have hanswer := @join_answered_iff _ _ _ [] (catalogPartitions oneTopicEngine.broker.catalog) 0
      (viewAfter_memberIdsFit (n := 1) oneTopicEngine (crowdFrames count)) (List.cons_ne_nil 103 [])
      (crowdMember_ne_nil count) hid (fun _ h => nomatch h) (by decide)
    rcases hresult : Engine.joinResult 0 (crowdMember count) [] _ with error | response
    · exact ⟨error, rfl⟩
    · have := hanswer.mp ⟨response, hresult⟩
      omega
  · rw [groupOf_joined (List.cons_ne_nil 103 []) (crowdMember_ne_nil count), if_pos rfl]
    exact ExtTreeMap.mem_insert_self

/-- **A lost join.** When a group has as many members as an array may have entries, the frame of the
next join fails, and its member is in the group. -/
theorem lostJoin :
    let shards := oneTopicEngine.after 1 (crowdFrames maxArrayLen)
    let newcomer := crowdMember maxArrayLen
    let handled := oneTopicEngine.handle shards (joinFrame [103] newcomer)
    (∃ error, handled.2 = .error error) ∧
      newcomer ∉ ((shards 0).groups.groupOf [103]).members ∧
      newcomer ∈ ((handled.1 0).groups.groupOf [103]).members :=
  join_of_full rfl

end CharlotteBroker
