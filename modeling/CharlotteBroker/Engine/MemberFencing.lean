import CharlotteBroker.Core.Generations
import CharlotteBroker.Engine.Handlers
import CharlotteBroker.Wire.ReadBack

/-!
# Member-scoped group requests

Sync, heartbeat and commit requests name a group, a member and a generation
(`RequestBody.speaker`). Only a heartbeat has all three checked.

* `memberRequest_fenced_iff`: from any broker state, such a request is answered, and the answer is
  fenced exactly if the request is `Guarded`. A sync is answered without a look at the coordinator,
  and a commit is checked against the generation of the group but not against its members.
* `stranger_commits`: so somebody who never joined overwrites the offsets of a group.
-/

namespace CharlotteBroker

open Std CharlotteBroker.Core Lib Lib.Parser CharlotteBroker.Runtime Wire

/-- The member is in the group, and the generation is the group's. -/
def Core.GroupCoordinator.isCurrent (coordinator : GroupCoordinator) (groupId memberId : Bytes)
    (generation : Int) : Bool :=
  (coordinator.groups[groupId]?).any fun group =>
    group.members.contains memberId && group.generation == generation

/-- Whom a request speaks for: the group, the member and the generation it names. -/
def Wire.RequestBody.speaker : RequestBody → Option (Bytes × Bytes × Int)
  | .syncGroup groupId generation memberId _ => some (groupId, memberId, generation.toInt)
  | .heartbeat groupId generation memberId => some (groupId, memberId, generation.toInt)
  | .offsetCommit groupId generation memberId _ _ _ => some (groupId, memberId, generation.toInt)
  | _ => none

/-! ## The code of an answer -/

/-- Reads the error code of an answer: in a commit it stands with the partition, else in front. -/
def readCode : RequestBody → Decoder Int16
  | .offsetCommit .. => do
      match ← readOffsetCommit with
      | [⟨_, [(_, code)]⟩] => return code
      | _ => throw .invalid
  | _ => Decoder.i16

/-- Reads the error code of an answer frame. -/
def readAnswer (body : RequestBody) : Decoder Int16 := readResponseFrame fun _ => readCode body

/-- The error code in an answer to the request. -/
def answeredCode (body : RequestBody) (response : Bytes) : Except Error Int16 :=
  Prod.fst <$> (readAnswer body).run response

theorem answeredCode_responseFrame {body : RequestBody} {w rest : Bytes} {code : Int16}
    (h : Reads (readCode body) w code) (correlationId : Int32) :
    answeredCode body (responseFrame correlationId (w ++ rest)) = .ok code := by
  have hread : Reads (readAnswer body)
      (i32Bytes (Int32.ofNat (4 + (w ++ rest).length)) ++ (i32Bytes correlationId ++ w)) code :=
    (reads_i32 _).bind ((reads_i32 _).bind h)
  have hframe : responseFrame correlationId (w ++ rest) =
      i32Bytes (Int32.ofNat (4 + (w ++ rest).length)) ++ (i32Bytes correlationId ++ w) ++ rest := by
    simp only [responseFrame, List.append_assoc]
  rw [answeredCode, hframe, hread rest]
  rfl

/-- A code at the very end. -/
theorem answeredCode_responseFrame_nil {body : RequestBody} {w : Bytes} {code : Int16}
    (h : Reads (readCode body) w code) (correlationId : Int32) :
    answeredCode body (responseFrame correlationId w) = .ok code := by
  have hread := @answeredCode_responseFrame body w [] code h correlationId
  rwa [List.append_nil] at hread

theorem reads_readCode_heartbeat (groupId : Bytes) (generation : Int32) (memberId : Bytes)
    (code : Int16) :
    Reads (readCode (.heartbeat groupId generation memberId)) (i16Bytes code) code :=
  reads_i16 code

theorem reads_readCode_offsetCommit (groupId : Bytes) (generation : Int32) (memberId : Bytes)
    {topic : Bytes} (htopic : topic.length ≤ maxStringLen) (partition : Int32) (offset : Int64)
    (code : Int16) :
    Reads (readCode (.offsetCommit groupId generation memberId topic partition offset))
      (offsetCommitBody topic partition code) code := by
  have hread : Reads readOffsetCommit (offsetCommitBody topic partition code)
      [⟨topic, [(partition, code)]⟩] :=
    reads_one ((reads_string htopic).bind
      ((reads_one (reads_txnPartition (partition, code))).bind_end (Reads.pure _)))
  exact hread.bind_end (Reads.pure code)

/-- Only success is answered with code zero. -/
theorem resultCode_eq_noError {α : Type} (result : Except CoordinationError α) :
    resultCode (result.mapError BrokerError.coordination) = noError ↔ ∃ a, result = .ok a := by
  rcases result with error | a
  · have hcode : coordinationErrorCode (.coordination error) ≠ noError := by
      cases error <;> decide
    exact ⟨fun h => absurd h hcode, fun h => nomatch h⟩
  · exact ⟨fun _ => ⟨a, rfl⟩, fun _ => rfl⟩

/-! ## Fencing -/

/-- What fencing asks of an answer: code zero goes to current members only, and nobody else's
request changes a committed offset. -/
structure Fenced (before after : GroupCoordinator) (groupId memberId : Bytes) (generation : Int)
    (code : Int16) : Prop where
  current : code = noError → before.isCurrent groupId memberId generation = true
  refused : before.isCurrent groupId memberId generation = false →
    code ≠ noError ∧
      ∀ group topic partition,
        after.offset group topic partition = before.offset group topic partition

/-- The requests that are fenced: heartbeats; syncs and commits of current members; and commits that
are refused anyway, for the group, the generation, the partition or the offset they name. -/
def Guarded (groups : GroupCoordinator) : RequestBody → Prop
  | .syncGroup groupId generation memberId _ =>
      groups.isCurrent groupId memberId generation.toInt = true
  | .offsetCommit groupId generation memberId _ partition offset =>
      groups.isCurrent groupId memberId generation.toInt = true ∨
        ∀ group, groups.groups[groupId]? = some group → group.generation = generation.toInt →
          partition < 0 ∨ offset < 0
  | _ => True

/-- An answer to a request that changed nothing is fenced if its code is. -/
theorem fenced_iff_of_eq {groups : GroupCoordinator} {groupId memberId : Bytes} {generation : Int}
    {code : Int16} :
    Fenced groups groups groupId memberId generation code ↔
      (code = noError → groups.isCurrent groupId memberId generation = true) := by
  constructor
  · exact fun h => h.current
  · intro h
    refine ⟨h, fun hnot => ⟨fun hcode => ?_, fun _ _ _ => rfl⟩⟩
    rw [h hcode] at hnot
    cases hnot

/-- A heartbeat is answered with code zero to current members only. -/
theorem fenced_heartbeat (groups : GroupCoordinator) (groupId memberId : Bytes)
    (generation : Int) :
    Fenced groups (groups.heartbeat groupId memberId generation).1 groupId memberId generation
      (resultCode ((groups.heartbeat groupId memberId generation).2.mapError .coordination)) := by
  rcases GroupCoordinator.heartbeat_spec groups groupId memberId generation with
    ⟨error, h⟩ | ⟨group, member, hgroup, hgen, hmember, -, h⟩
  · rw [h, fenced_iff_of_eq, resultCode_eq_noError]
    rintro ⟨_, ⟨⟩⟩
  · have hcurrent : groups.isCurrent groupId memberId generation = true := by
      have hcontains : group.members.contains memberId = true := by
        rw [ExtTreeMap.contains_eq_isSome_getElem?, hmember]
        rfl
      rw [GroupCoordinator.isCurrent, hgroup, Option.any_some, hcontains, hgen, beq_self_eq_true]
      rfl
    refine ⟨fun _ => hcurrent, fun hnot => ?_⟩
    rw [hcurrent] at hnot
    cases hnot

/-- A commit is fenced if it is refused or made by a current member. -/
theorem fenced_commitOffset_iff (groups : GroupCoordinator) (groupId memberId topic : Bytes)
    (generation : Int32) (partition : Int32) (offset : Int64) :
    Fenced groups
        (groups.commitOffset groupId generation.toInt topic partition.toInt offset.toInt).1
        groupId memberId generation.toInt
        (resultCode ((groups.commitOffset groupId generation.toInt topic partition.toInt
          offset.toInt).2.mapError .coordination)) ↔
      Guarded groups (.offsetCommit groupId generation memberId topic partition offset) := by
  have hnegative : partition < 0 ∨ offset < 0 ↔ ¬ (0 ≤ partition.toInt ∧ 0 ≤ offset.toInt) := by
    rw [Int32.lt_iff_toInt_lt, Int64.lt_iff_toInt_lt, Int32.toInt_zero, Int64.toInt_zero]
    omega
  rcases hresult : (groups.commitOffset groupId generation.toInt topic partition.toInt
    offset.toInt).2 with error | ⟨⟩
  · -- refused: nothing changes, and no group of that generation takes the offset
    have hsame : (groups.commitOffset groupId generation.toInt topic partition.toInt
        offset.toInt).1 = groups := by
      rcases GroupCoordinator.commitOffset_spec groups groupId generation.toInt topic
        partition.toInt offset.toInt with ⟨_, h⟩ | ⟨_, -, -, h⟩
      · rw [h]
      · rw [h] at hresult
        cases hresult
    rw [hsame, fenced_iff_of_eq, resultCode_eq_noError]
    refine iff_of_true (fun h => nomatch h) (Or.inr fun group hgroup hgen => ?_)
    rw [hnegative]
    intro hrange
    have hok : (groups.commitOffset groupId generation.toInt topic partition.toInt
        offset.toInt).2 = .ok () :=
      GroupCoordinator.commitOffset_eq_ok.mpr ⟨group, hgroup, hgen, hrange⟩
    rw [hresult] at hok
    cases hok
  · obtain ⟨group, hgroup, hgen, hrange⟩ := GroupCoordinator.commitOffset_eq_ok.mp hresult
    constructor
    · exact fun h => Or.inl (h.current rfl)
    · rintro (hcurrent | hrefused)
      · refine ⟨fun _ => hcurrent, fun hnot => ?_⟩
        rw [hcurrent] at hnot
        cases hnot
      · exact absurd hrange (hnegative.mp (hrefused group hgroup hgen))

/-- **Member-scoped requests.** From any broker state a sync, heartbeat or commit is answered, and
its answer is fenced exactly if the request is guarded. -/
theorem memberRequest_fenced_iff {n : ℕ} [NeZero n] (engine : Engine) (shards : Fin n → Shard)
    {frame : Bytes} {request : Request} (hdecode : decodeRequest frame = .ok request)
    {groupId memberId : Bytes} {generation : Int}
    (hspeaker : request.body.speaker = some (groupId, memberId, generation)) :
    ∃ response code, (engine.handle shards frame).2 = .ok response ∧
      answeredCode request.body response = .ok code ∧
      (Fenced (shards 0).groups ((engine.handle shards frame).1 0).groups groupId memberId
        generation code ↔ Guarded (shards 0).groups request.body) := by
  obtain ⟨hview, hresult⟩ := Engine.viewOf_handle engine shards frame
  have hgroups : ((engine.handle shards frame).1 0).groups =
      (engine.onView n (viewOf engine.broker shards) frame).1.groups := by
    rw [← hview]
    rfl
  have hbounded := decodeRequest_bounded hdecode
  rw [hresult, hgroups, Engine.onView_of_decode hdecode]
  obtain ⟨header, body⟩ := request
  cases body with
  | syncGroup group generation' member assignment =>
      cases hspeaker
      have hfits : assignment.length ≤ maxFrameLen := Nat.le_trans (Nat.le_add_left _ 10) hbounded
      refine ⟨_, noError, encodeSyncGroup_eq_ok.mpr ⟨hfits, rfl⟩,
        answeredCode_responseFrame ?_ _, ?_⟩
      · exact reads_i16 noError
      · exact fenced_iff_of_eq.trans ⟨fun h => h rfl, fun h _ => h⟩
  | heartbeat group generation' member =>
      cases hspeaker
      rw [show engine.exec (viewOf engine.broker shards) (engine.handleRequest (n := n) _) = _ from
        Engine.exec_heartbeat _ _ _ _ _]
      refine ⟨_, _, encodeGroupError_eq_ok.mpr rfl,
        answeredCode_responseFrame_nil (reads_readCode_heartbeat _ _ _ _) _, ?_⟩
      exact iff_of_true (fenced_heartbeat _ _ _ _) trivial
  | offsetCommit group generation' member topic partition offset =>
      cases hspeaker
      rw [show engine.exec (viewOf engine.broker shards) (engine.handleRequest (n := n) _) = _ from
        Engine.exec_offsetCommit _ _ _ _ _ _ _]
      refine ⟨_, _, encodeOffsetCommit_eq_ok.mpr ⟨hbounded, rfl⟩,
        answeredCode_responseFrame_nil (reads_readCode_offsetCommit _ _ _ hbounded _ _ _) _,
        fenced_commitOffset_iff _ _ _ _ _ _ _⟩
  | _ => cases hspeaker

/-- The frame of a commit. -/
def commitFrame (groupId : Bytes) (generation : Int32) (memberId topic : Bytes) (partition : Int32)
    (offset : Int64) : Bytes :=
  bytesField (headerField ⟨8, 2, 0, none⟩ ++ (stringField groupId ++ (i32Bytes generation ++
    (stringField memberId ++ (i64Bytes (-1) ++ (arrayLenField 1 ++ (stringField topic ++
      (arrayLenField 1 ++ (i32Bytes partition ++ (i64Bytes offset ++
        nullableStringField none))))))))))

/-- A group of two members, at its second generation. -/
def twoJoined : Fin 1 → Shard :=
  oneTopicEngine.after 1 [joinFrame [103] [97], joinFrame [103] [98]]

/-- The first member commits under the current generation. -/
theorem memberRequest_fenced_iff_commit :
    ∃ response code,
      (oneTopicEngine.handle twoJoined (commitFrame [103] 2 [97] [116] 0 7)).2 = .ok response ∧
      answeredCode (.offsetCommit [103] 2 [97] [116] 0 7) response = .ok code ∧
      Fenced (twoJoined 0).groups
        ((oneTopicEngine.handle twoJoined (commitFrame [103] 2 [97] [116] 0 7)).1 0).groups [103]
        [97] 2 code := by
  have hdecode : decodeRequest (commitFrame [103] 2 [97] [116] 0 7) =
      .ok ⟨⟨8, 2, 0, none⟩, .offsetCommit [103] 2 [97] [116] 0 7⟩ := by decide
  have hcurrent : (twoJoined 0).groups.isCurrent [103] [97] 2 = true := by decide +kernel
  obtain ⟨response, code, hresponse, hcode, hfenced⟩ :=
    memberRequest_fenced_iff oneTopicEngine twoJoined hdecode rfl
  exact ⟨response, code, hresponse, hcode, hfenced.mpr (Or.inl hcurrent)⟩

/-- The frame of a sync without assignments. -/
def syncFrame (groupId : Bytes) (generation : Int32) (memberId : Bytes) : Bytes :=
  bytesField (headerField ⟨14, 0, 0, none⟩ ++ (stringField groupId ++ (i32Bytes generation ++
    (stringField memberId ++ arrayLenField 0))))

/-- **Two ways around the fence.** After one join, somebody who never joined commits an offset for
the group, and somebody else has a sync confirmed for a group that does not exist. -/
theorem stranger_commits :
    (∃ response,
      decodeRequest (commitFrame [103] 1 [122] [116] 0 7) =
        .ok ⟨⟨8, 2, 0, none⟩, .offsetCommit [103] 1 [122] [116] 0 7⟩ ∧
      (oneTopicEngine.handle (oneTopicEngine.after 1 [joinFrame [103] [97]])
        (commitFrame [103] 1 [122] [116] 0 7)).2 = .ok response ∧
      answeredCode (.offsetCommit [103] 1 [122] [116] 0 7) response = .ok noError ∧
      (oneTopicEngine.after 1 [joinFrame [103] [97]] 0).groups.isCurrent [103] [122] 1 = false ∧
      (oneTopicEngine.after 1 [joinFrame [103] [97]] 0).groups.offset [103] [116] 0 = .ok none ∧
      ((oneTopicEngine.handle (oneTopicEngine.after 1 [joinFrame [103] [97]])
        (commitFrame [103] 1 [122] [116] 0 7)).1 0).groups.offset [103] [116] 0 = .ok (some 7)) ∧
    ∃ response,
      decodeRequest (syncFrame [120] 5 [122]) = .ok ⟨⟨14, 0, 0, none⟩, .syncGroup [120] 5 [122] []⟩ ∧
      (oneTopicEngine.handle (oneTopicEngine.after 1 []) (syncFrame [120] 5 [122])).2 =
        .ok response ∧
      answeredCode (.syncGroup [120] 5 [122] []) response = .ok noError ∧
      (oneTopicEngine.after 1 [] 0).groups.isCurrent [120] [122] 5 = false := by
  refine ⟨⟨responseFrame 0 (offsetCommitBody [116] 0 0), ?_, ?_, ?_, ?_, ?_, ?_⟩,
    responseFrame 0 (syncGroupBody 0 []), ?_, ?_, ?_, ?_⟩
  all_goals decide

end CharlotteBroker
