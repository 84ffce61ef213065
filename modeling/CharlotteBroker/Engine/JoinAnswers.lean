import Mathlib.Data.Nat.Digits.Defs
import CharlotteBroker.Engine.Atomicity
import CharlotteBroker.Wire.ReadBack

/-!
# What a member learns by joining

A join is answered with the id the member has from now on and with the members of the group. The
engine makes up an id for those who send none, from the correlation id alone, and encodes the topics
of the joining member as the subscription of every member.

* `joined_spec`: what an answer with code zero says, and what the join did to the group.
* `joinGroup_reports_iff`: the members listed are those of the group, and their subscriptions are
  right exactly if each has last joined with the topics of the one who joins now.
* `generatedId_fresh_iff`: after joins to the group, a made-up id is new exactly if no earlier join
  sent none with the same number up to sign, and none chose that id for itself.
-/

namespace CharlotteBroker

open Std CharlotteBroker.Core Lib Lib.Parser CharlotteBroker.Runtime Wire

variable {n : ℕ} [NeZero n] {engine : Engine}

/-! ## Subscriptions read back -/

theorem decodeSubscription_subscriptionBytes {topics : List Bytes}
    (hlen : topics.length ≤ maxArrayLen) (htopics : ∀ topic ∈ topics, topic.length ≤ maxStringLen) :
    decodeSubscription (subscriptionBytes topics) = .ok topics := by
  have hlist : Reads (Decoder.array Decoder.stringBytes) (arrayField stringField topics) topics :=
    reads_list hlen fun topic htopic => reads_string (htopics topic htopic)
  have hnone : Reads Decoder.bytes (nullableBytesField none) none :=
    exact_bytes.reads fun _ h => nomatch h
  have hread : Reads (do
      let _version ← Decoder.i16
      let subscriptions ← Decoder.array Decoder.stringBytes
      let _userData ← Decoder.bytes
      return subscriptions : Decoder (List Bytes))
      (i16Bytes 0 ++ (arrayField stringField topics ++ nullableBytesField none)) topics :=
    (reads_i16 0).bind (hlist.bind (hnone.bind_end (Reads.pure topics)))
  have hbytes : subscriptionBytes topics =
      i16Bytes 0 ++ (arrayField stringField topics ++ nullableBytesField none) := by
    simp only [subscriptionBytes, arrayField, arrayLenField, nullableBytesField, List.append_assoc]
  unfold decodeSubscription
  rw [hbytes, hread.all]
  rfl

/-! ## Answered joins -/

/-- Reads the frame of a join answer. -/
def readJoinAnswer : Decoder JoinGroupResponse := readResponseFrame fun _ => readJoinGroup

theorem answer_of_encodeJoinGroup {correlationId : Int32} {sent answer : JoinGroupResponse}
    {response rest : Bytes} (h : encodeJoinGroup correlationId sent = .ok response)
    (hread : readJoinAnswer.run response = .ok (answer, rest)) : answer = sent := by
  obtain ⟨hfits, rfl⟩ := encodeJoinGroup_eq_ok.mp h
  have hall : Reads readJoinAnswer (responseFrame correlationId (joinGroupBody sent)) sent :=
    reads_responseFrame (reads_joinGroup hfits)
  rw [hall.all] at hread
  cases hread
  rfl

/-- A join as the one who made it sees it: what was sent, and the answer. -/
structure Joined where
  correlationId : Int32
  requestedId : Bytes
  topics : List Bytes
  answer : JoinGroupResponse
  deriving DecidableEq, Repr

/-- The frame is a join to the group, and it was answered with code zero. -/
def joined? (groupId frame : Bytes) (result : Except Error Bytes) : Option Joined :=
  match decodeRequest frame, result with
  | .ok ⟨header, .joinGroup group memberId topics⟩, .ok response =>
      match readJoinAnswer.run response with
      | .ok (answer, _) =>
          if group = groupId ∧ answer.error = noError then
            some ⟨header.correlationId, memberId, topics, answer⟩
          else none
      | .error _ => none
  | _, _ => none

theorem joined?_eq_some {groupId frame : Bytes} {result : Except Error Bytes} {joined : Joined}
    (h : joined? groupId frame result = some joined) :
    ∃ header response rest,
      decodeRequest frame =
        .ok ⟨header, .joinGroup groupId joined.requestedId joined.topics⟩ ∧
      header.correlationId = joined.correlationId ∧ result = .ok response ∧
      readJoinAnswer.run response = .ok (joined.answer, rest) ∧ joined.answer.error = noError := by
  unfold joined? at h
  split at h
  · next header group memberId topics response hdecode =>
      split at h
      · next answer rest hread =>
          split_ifs at h with hcond
          obtain ⟨rfl, hcode⟩ := hcond
          cases h
          exact ⟨header, response, rest, hdecode, rfl, rfl, hread, hcode⟩
      · cases h
  · cases h

/-- What the frame of a join does to the groups. -/
theorem groups_handle_join {shards : Fin n → Shard} {frame : Bytes} {header : Header}
    {groupId memberId : Bytes} {topics : List Bytes}
    (hdecode : decodeRequest frame = .ok ⟨header, .joinGroup groupId memberId topics⟩) :
    ((engine.handle shards frame).1 0).groups =
      ((shards 0).groups.join groupId (joiningMemberId header.correlationId memberId) topics
        (catalogPartitions engine.broker.catalog)).1 := by
  rw [Engine.groups_handle, Engine.onView_joinGroup hdecode]
  rfl

/-- **An answered join.** The group and the id are not empty; the answer has the id the join was
made under, and the members of the group after it, all with the joiner's topics. -/
theorem joined_spec {shards : Fin n → Shard} {groupId frame : Bytes} {joined : Joined}
    (h : joined? groupId frame (engine.handle shards frame).2 = some joined) :
    groupId ≠ [] ∧
      joined.answer.memberId = joiningMemberId joined.correlationId joined.requestedId ∧
      joined.topics.length ≤ maxArrayLen ∧
      (∀ topic ∈ joined.topics, topic.length ≤ maxStringLen) ∧
      (∃ member, (((engine.handle shards frame).1 0).groups.groupOf groupId).members =
        ((shards 0).groups.groupOf groupId).members.insert joined.answer.memberId member) ∧
      joined.answer.members =
        (((engine.handle shards frame).1 0).groups.groupOf groupId).members.keys.map
          fun memberId => (memberId, subscriptionBytes joined.topics) := by
  obtain ⟨header, response, rest, hdecode, hcorrelation, hresult, hread, hcode⟩ :=
    joined?_eq_some h
  obtain ⟨-, htopics, -⟩ := decodeRequest_bounded hdecode
  have hmember := joiningMemberId_ne_nil header.correlationId joined.requestedId
  rw [(Engine.viewOf_handle engine shards frame).2, Engine.onView_joinGroup hdecode] at hresult
  rw [groups_handle_join hdecode, ← hcorrelation]
  by_cases hgroup : groupId = []
  · -- refused, with another code
    rw [show (viewOf engine.broker shards).groups.join groupId _ _ _ = _ from
      join_of_empty hgroup] at hresult
    rw [answer_of_encodeJoinGroup hresult hread] at hcode
    have hother : coordinationErrorCode (.coordination .invalidId) ≠ noError := by decide
    exact absurd hcode hother
  · obtain ⟨generation, assignments, hjoin⟩ := @join_eq_ok (shards 0).groups _ _ joined.topics
      (catalogPartitions engine.broker.catalog) hgroup hmember
    rw [show ((viewOf engine.broker shards).groups.join groupId _ _ _).2 = _ from hjoin,
      Except.mapError, Engine.joinResult_ok _ _ htopics] at hresult
    have hanswer := answer_of_encodeJoinGroup hresult hread
    rw [groupOf_joined hgroup hmember, if_pos rfl, hanswer]
    refine ⟨hgroup, rfl, length_topics_le hdecode, htopics, ⟨_, rfl⟩, ?_⟩
    have hkeys := congrArg (List.map fun memberId => (memberId, subscriptionBytes joined.topics))
      (map_memberId_of_join_ok hjoin)
    rw [List.map_map] at hkeys
    exact hkeys

/-! ## Subscriptions of the others -/

/-- The joins to the group that a run of frames answers with code zero, in order. -/
def Engine.joins (engine : Engine) (n : ℕ) [NeZero n] (groupId : Bytes) (frames : List Bytes) :
    List Joined :=
  (frames.foldl (fun run frame =>
    let handled := engine.handle run.1 frame
    (handled.1, run.2 ++ (joined? groupId frame handled.2).toList))
    (startShards n, [])).2

/-- The topics of the last join under that id. -/
def lastTopics (joins : List Joined) (memberId : Bytes) : Option (List Bytes) :=
  (joins.filter fun joined => joined.answer.memberId == memberId).getLast?.map Joined.topics

/-- **Whose subscription a join answer reports.** After any frames, a join answered with code zero
lists the members the group then has, in order. What it says of their subscriptions is what each
member sent in its last answered join exactly if they all last sent what the joining member did. -/
theorem joinGroup_reports_iff (frames : List Bytes) {groupId frame : Bytes} {joined : Joined}
    (h : joined? groupId frame (engine.handle (engine.after n frames) frame).2 = some joined) :
    let members := ((engine.after n (frames ++ [frame]) 0).groups.groupOf groupId).members
    let joins := engine.joins n groupId (frames ++ [frame])
    joined.answer.members.map Prod.fst = members.keys ∧
      ((∀ entry ∈ joined.answer.members, ∃ topics,
          lastTopics joins entry.1 = some topics ∧ decodeSubscription entry.2 = .ok topics) ↔
        ∀ memberId ∈ members, lastTopics joins memberId = some joined.topics) := by
  intro members joins
  obtain ⟨-, -, hlen, htopics, -, hmembers⟩ := joined_spec h
  have hdecoded := decodeSubscription_subscriptionBytes hlen htopics
  rw [← Engine.after_append] at hmembers
  rw [hmembers]
  refine ⟨by rw [List.map_map]; exact List.map_id _, ?_⟩
  rw [List.forall_mem_map]
  simp only [ExtTreeMap.mem_keys, hdecoded]
  refine forall₂_congr fun memberId _ => ⟨?_, fun hlast => ⟨_, hlast, rfl⟩⟩
  rintro ⟨topics, hlast, heq⟩
  cases heq
  exact hlast

/-- The frame of a join with these topics. -/
def subscribeFrame (correlationId : Int32) (groupId memberId : Bytes)
    (topics : List Bytes) : Bytes :=
  bytesField (headerField ⟨11, 1, correlationId, none⟩ ++ (stringField groupId ++ (i32Bytes 0 ++
    (i32Bytes 0 ++ (stringField memberId ++ (stringField [] ++ (arrayLenField 1 ++
      (stringField [] ++ bytesField (subscriptionBytes topics)))))))))

/-- Two members with the same topics. -/
theorem joinGroup_reports_iff_same :
    let frames := [subscribeFrame 0 [103] [97] [[116]]]
    let frame := subscribeFrame 0 [103] [98] [[116]]
    let members := ((oneTopicEngine.after 1 (frames ++ [frame]) 0).groups.groupOf [103]).members
    let joins := oneTopicEngine.joins 1 [103] (frames ++ [frame])
    let answer : JoinGroupResponse := ⟨noError, 2, fixedProtocol, [98], [98],
      [([97], subscriptionBytes [[116]]), ([98], subscriptionBytes [[116]])]⟩
    joined? [103] frame (oneTopicEngine.handle (oneTopicEngine.after 1 frames) frame).2 =
        some ⟨0, [98], [[116]], answer⟩ ∧
      answer.members.map Prod.fst = members.keys ∧
      ∀ entry ∈ answer.members, ∃ topics,
        lastTopics joins entry.1 = some topics ∧ decodeSubscription entry.2 = .ok topics := by
  intro frames frame members joins answer
  have hjoined : joined? [103] frame
      (oneTopicEngine.handle (oneTopicEngine.after 1 frames) frame).2 =
        some ⟨0, [98], [[116]], answer⟩ := by decide +kernel
  obtain ⟨hlisted, hiff⟩ := joinGroup_reports_iff frames hjoined
  refine ⟨hjoined, hlisted, hiff.mpr fun memberId hmem => ?_⟩
  have hlast : ∀ memberId ∈ answer.members.map Prod.fst,
      lastTopics joins memberId = some [[116]] := by decide +kernel
  refine hlast memberId ?_
  rw [hlisted, ExtTreeMap.mem_keys]
  exact hmem

/-- **The joining member's topics for everybody.** The second of two members is told that the first
has subscribed to the topic it subscribes to itself. -/
theorem subscription_of_joiner :
    let frames := [subscribeFrame 0 [103] [97] [[116]]]
    let frame := subscribeFrame 0 [103] [98] [[117]]
    let answer : JoinGroupResponse := ⟨noError, 2, fixedProtocol, [98], [98],
      [([97], subscriptionBytes [[117]]), ([98], subscriptionBytes [[117]])]⟩
    joined? [103] frame (oneTopicEngine.handle (oneTopicEngine.after 1 frames) frame).2 =
        some ⟨0, [98], [[117]], answer⟩ ∧
      decodeSubscription (subscriptionBytes [[117]]) = .ok [[117]] ∧
      lastTopics (oneTopicEngine.joins 1 [103] (frames ++ [frame])) [97] = some [[116]] := by
  refine ⟨?_, ?_, ?_⟩
  all_goals decide +kernel

/-! ## Made-up ids -/

/-- The number in a made-up member id. -/
def idValue (memberId : Bytes) : ℕ :=
  Nat.ofDigits 10 ((memberId.drop 7).reverse.map fun digit => digit.toNat - 48)

theorem toNat_digit (value : ℕ) : (UInt8.ofNat (48 + value % 10)).toNat - 48 = value % 10 := by
  rw [UInt8.toNat_ofNat', Nat.mod_eq_of_lt (by omega)]
  omega

/-- Digits are written in front of those that are there. -/
theorem ofDigits_pushDigits {places value : ℕ} (h : value < 10 ^ places) (digits : Bytes) :
    Nat.ofDigits 10 ((pushDigits places value digits).reverse.map fun digit => digit.toNat - 48) =
      Nat.ofDigits 10 (digits.reverse.map fun digit => digit.toNat - 48) +
        10 ^ digits.length * value := by
  induction places generalizing value digits with
  | zero =>
      obtain rfl : value = 0 := by omega
      rfl
  | succ places ih =>
      unfold pushDigits
      split
      · have hdiv : value / 10 < 10 ^ places := by
          rw [Nat.pow_succ] at h
          omega
        have hsplit : 10 ^ (digits.length + 1) * (value / 10) + 10 ^ digits.length * (value % 10) =
            10 ^ digits.length * value := by
          rw [Nat.pow_succ, Nat.mul_assoc, ← Nat.mul_add, Nat.div_add_mod]
        rw [ih hdiv, List.reverse_cons, List.map_append, Nat.ofDigits_append, List.map_singleton,
          Nat.ofDigits_singleton, toNat_digit, List.length_map, List.length_reverse,
          List.length_cons]
        omega
      · obtain rfl : value = 0 := by omega
        rfl

theorem idValue_generatedMemberId (correlationId : Int32) :
    idValue (generatedMemberId correlationId) = correlationId.toInt.natAbs := by
  have hbound : correlationId.toInt.natAbs < 10 ^ 12 := by
    have hlt := correlationId.toInt_lt
    have hge := correlationId.le_toInt
    omega
  have hdrop : (generatedMemberId correlationId).drop 7 =
      if correlationId.toInt.natAbs = 0 then [48] else pushDigits 12 correlationId.toInt.natAbs [] :=
    rfl
  rw [idValue, hdrop]
  split
  · next hzero => exact hzero.symm
  · rw [ofDigits_pushDigits hbound]
    simp

theorem generatedMemberId_inj {a b : Int32} :
    generatedMemberId a = generatedMemberId b ↔ a.toInt.natAbs = b.toInt.natAbs := by
  constructor
  · intro h
    rw [← idValue_generatedMemberId, ← idValue_generatedMemberId, h]
  · intro h
    unfold generatedMemberId
    rw [h]

/-- Joins that end up with the same id as one that sends none. -/
theorem joiningMemberId_eq_generated {a b : Int32} {memberId : Bytes} :
    joiningMemberId a memberId = generatedMemberId b ↔
      (memberId = [] ∧ a.toInt.natAbs = b.toInt.natAbs) ∨ memberId = generatedMemberId b := by
  unfold joiningMemberId
  rcases memberId with _ | ⟨byte, rest⟩
  · have hne : [] ≠ generatedMemberId b := (List.cons_ne_nil _ _).symm
    simp [generatedMemberId_inj, hne]
  · simp

/-- The frame is a join to the group. -/
def IsJoinTo (groupId frame : Bytes) : Prop :=
  ∃ header memberId topics,
    decodeRequest frame = .ok ⟨header, .joinGroup groupId memberId topics⟩

/-- The frame is a join to the group under this id, sent or made up. -/
def JoinsAs (groupId joining frame : Bytes) : Prop :=
  ∃ header memberId topics,
    decodeRequest frame = .ok ⟨header, .joinGroup groupId memberId topics⟩ ∧
      joiningMemberId header.correlationId memberId = joining

/-- After joins to the group, its members are those who made them. -/
theorem mem_members_after_joins {groupId : Bytes} (hgroup : groupId ≠ []) {frames : List Bytes}
    (hframes : ∀ frame ∈ frames, IsJoinTo groupId frame) (joining : Bytes) :
    joining ∈ ((engine.after n frames 0).groups.groupOf groupId).members ↔
      ∃ frame ∈ frames, JoinsAs groupId joining frame := by
  induction frames using List.reverseRecOn with
  | nil =>
      refine iff_of_false ?_ fun ⟨_, hmem, _⟩ => absurd hmem List.not_mem_nil
      exact ExtTreeMap.not_mem_empty
  | append_singleton frames frame ih =>
      obtain ⟨header, memberId, topics, hdecode⟩ := hframes frame (by simp)
      have hmember := joiningMemberId_ne_nil header.correlationId memberId
      have hlast : JoinsAs groupId joining frame ↔
          joiningMemberId header.correlationId memberId = joining := by
        constructor
        · rintro ⟨_, _, _, hdecode', heq⟩
          rw [hdecode] at hdecode'
          cases hdecode'
          exact heq
        · exact fun heq => ⟨header, memberId, topics, hdecode, heq⟩
      have hearlier := ih fun earlier hmem => hframes earlier (List.mem_append_left _ hmem)
      rw [Engine.after_append, groups_handle_join hdecode, groupOf_joined hgroup hmember,
        if_pos rfl]
      simp only [List.mem_append, List.mem_singleton, or_and_right, exists_or, exists_eq_left]
      rw [hlast, ← hearlier]
      refine ExtTreeMap.mem_insert.trans ?_
      rw [Std.compare_eq_iff_eq, or_comm]

/-- A join that takes the id made up for this correlation id: one that sends no id and has the same
correlation id up to the sign, or one that has chosen this id. -/
def TakesId (correlationId : Int32) (frame : Bytes) : Prop :=
  ∃ header groupId memberId topics,
    decodeRequest frame = .ok ⟨header, .joinGroup groupId memberId topics⟩ ∧
      ((memberId = [] ∧ header.correlationId.toInt.natAbs = correlationId.toInt.natAbs) ∨
        memberId = generatedMemberId correlationId)

theorem joinsAs_generated_iff {groupId frame : Bytes} (h : IsJoinTo groupId frame)
    (correlationId : Int32) :
    JoinsAs groupId (generatedMemberId correlationId) frame ↔ TakesId correlationId frame := by
  constructor
  · rintro ⟨header, memberId, topics, hdecode, heq⟩
    exact ⟨header, groupId, memberId, topics, hdecode, joiningMemberId_eq_generated.mp heq⟩
  · rintro ⟨header, _, memberId, topics, hdecode, htakes⟩
    obtain ⟨_, _, _, hdecode'⟩ := h
    rw [hdecode] at hdecode'
    cases hdecode'
    exact ⟨header, memberId, topics, hdecode, joiningMemberId_eq_generated.mpr htakes⟩

/-- **When a made-up id is new.** After any joins to the group, one that sends no id and is answered
with code zero gets an id no member had, and adds a member, exactly if no earlier join took it. -/
theorem generatedId_fresh_iff {groupId : Bytes} {frames : List Bytes}
    (hframes : ∀ earlier ∈ frames, IsJoinTo groupId earlier) {frame : Bytes} {joined : Joined}
    (h : joined? groupId frame (engine.handle (engine.after n frames) frame).2 = some joined)
    (hnone : joined.requestedId = []) :
    let members := ((engine.after n frames 0).groups.groupOf groupId).members
    let members' := ((engine.after n (frames ++ [frame]) 0).groups.groupOf groupId).members
    (joined.answer.memberId ∉ members ∧ members'.size = members.size + 1) ↔
      ∀ earlier ∈ frames, ¬ TakesId joined.correlationId earlier := by
  intro members members'
  obtain ⟨hgroup, hid, -, -, ⟨member, hinsert⟩, -⟩ := joined_spec h
  have hgenerated : joined.answer.memberId = generatedMemberId joined.correlationId := by
    rw [hid, hnone]
    rfl
  have htaken : joined.answer.memberId ∈ members ↔
      ∃ earlier ∈ frames, TakesId joined.correlationId earlier := by
    rw [mem_members_after_joins hgroup hframes, hgenerated]
    exact exists_congr fun earlier => and_congr_right fun hmem =>
      joinsAs_generated_iff (hframes earlier hmem) _
  have hsize : joined.answer.memberId ∉ members → members'.size = members.size + 1 := by
    intro hnew
    show (((engine.after n (frames ++ [frame]) 0).groups.groupOf groupId).members).size = _
    rw [Engine.after_append, hinsert, ExtTreeMap.size_insert,
      if_neg (mt ExtTreeMap.contains_iff_mem.mp hnew)]
  constructor
  · rintro ⟨hnew, -⟩ earlier hmem htakes
    exact hnew (htaken.mpr ⟨earlier, hmem, htakes⟩)
  · intro hfree
    have hnew : joined.answer.memberId ∉ members := by
      rw [htaken]
      rintro ⟨earlier, hmem, htakes⟩
      exact hfree earlier hmem htakes
    exact ⟨hnew, hsize hnew⟩

/-- Two members that send no id, with different correlation ids. -/
theorem generatedId_fresh_iff_second :
    let earlier := subscribeFrame 1 [103] [] []
    let frame := subscribeFrame 2 [103] [] []
    let members := ((oneTopicEngine.after 1 [earlier] 0).groups.groupOf [103]).members
    let members' := ((oneTopicEngine.after 1 ([earlier] ++ [frame]) 0).groups.groupOf [103]).members
    let answer : JoinGroupResponse := ⟨noError, 2, fixedProtocol, generatedMemberId 2,
      generatedMemberId 2, [(generatedMemberId 1, subscriptionBytes []),
        (generatedMemberId 2, subscriptionBytes [])]⟩
    joined? [103] frame (oneTopicEngine.handle (oneTopicEngine.after 1 [earlier]) frame).2 =
        some ⟨2, [], [], answer⟩ ∧
      answer.memberId ∉ members ∧ members'.size = members.size + 1 := by
  intro earlier frame members members' answer
  have hdecode : decodeRequest earlier = .ok ⟨⟨11, 1, 1, none⟩, .joinGroup [103] [] []⟩ := by
    decide +kernel
  have hjoined : joined? [103] frame
      (oneTopicEngine.handle (oneTopicEngine.after 1 [earlier]) frame).2 =
        some ⟨2, [], [], answer⟩ := by decide +kernel
  have hframes : ∀ frame ∈ [earlier], IsJoinTo [103] frame := by
    intro frame hmem
    rw [List.mem_singleton.mp hmem]
    exact ⟨_, _, _, hdecode⟩
  refine ⟨hjoined, (generatedId_fresh_iff hframes hjoined rfl).mpr fun frame hmem => ?_⟩
  rw [List.mem_singleton.mp hmem]
  rintro ⟨header, groupId, memberId, topics, hdecode', htakes⟩
  rw [hdecode] at hdecode'
  cases hdecode'
  revert htakes
  decide

/-- After the earlier frame, a join that sends no id with correlation id 5 is answered, and replaces
the one member there is. -/
def ReplacedByFive (earlier : Bytes) : Prop :=
  let frame := subscribeFrame 5 [103] [] []
  let members := ((oneTopicEngine.after 1 [earlier] 0).groups.groupOf [103]).members
  let members' := ((oneTopicEngine.after 1 [earlier, frame] 0).groups.groupOf [103]).members
  joined? [103] frame (oneTopicEngine.handle (oneTopicEngine.after 1 [earlier]) frame).2 =
      some ⟨5, [], [], ⟨noError, 2, fixedProtocol, generatedMemberId 5, generatedMemberId 5,
        [(generatedMemberId 5, subscriptionBytes [])]⟩⟩ ∧
    generatedMemberId 5 ∈ members ∧ members'.size = members.size

instance : DecidablePred ReplacedByFive := fun _ => by
  unfold ReplacedByFive
  infer_instance

/-- **Three ways to collide.** A member that sends no id gets that of one which has sent none
either, with the same correlation id or its negative, and that of one which has chosen it. -/
theorem generatedId_taken :
    ReplacedByFive (subscribeFrame 5 [103] [] []) ∧
      ReplacedByFive (subscribeFrame (-5) [103] [] []) ∧
      ReplacedByFive (subscribeFrame 0 [103] (generatedMemberId 5) []) := by
  refine ⟨?_, ?_, ?_⟩
  all_goals decide

end CharlotteBroker
