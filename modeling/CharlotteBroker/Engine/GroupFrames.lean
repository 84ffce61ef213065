import CharlotteBroker.Engine.Concurrent
import CharlotteBroker.Engine.JoinAnswers
import CharlotteBroker.Engine.MemberFencing
import CharlotteBroker.Runtime.Membership

/-!
# Groups on the wire

What the members of a group can tell from the responses to their frames, on any number of
connections.

* `HandledByCalls.confirmed`, `HandledByCalls.joined`: a response with code zero stands for a call
  that was granted while the frame was handled.
* `wire_heartbeats_one_member`: however many members a group has, all the heartbeats confirmed in
  one generation are of one member, and between two of them no join to the group was answered.
-/

namespace CharlotteBroker

open CharlotteBroker.Core Lib Lib.Rpc CharlotteBroker.Runtime Wire

variable {T : Type} {n : ℕ} [NeZero n]

/-! ## Responses with code zero -/

/-- The frame is a heartbeat, and the response has code zero. -/
inductive Confirmed (frame response : Bytes) : Bytes → Bytes → Int → Prop
  | heartbeat {header : Header} {group member : Bytes} {generation : Int32}
      (asked : decodeRequest frame = .ok ⟨header, .heartbeat group generation member⟩)
      (answered : answeredCode (.heartbeat group generation member) response = .ok noError) :
      Confirmed frame response group member generation.toInt

theorem coordinationErrorCode_ne_noError (error : BrokerError) :
    coordinationErrorCode error ≠ noError := by
  unfold coordinationErrorCode
  split
  · decide
  · decide
  · decide
  · exact errorCode_ne_noError error

omit [NeZero n] in
/-- A request about a group is one event of the shards. -/
theorem length_groupOps_le (history : List (BrokerEvent T n)) :
    (groupOps history).length ≤ (history.filterMap Event.inner).length := by
  induction history with
  | nil => exact Nat.le_refl 0
  | cons event history ih =>
      rcases hasked : askedGroup event with _ | op
      · rw [groupOps, List.filterMap_cons_none hasked]
        exact ih.trans ((List.sublist_cons_self event history).filterMap _).length_le
      · obtain ⟨shard, chan, request, result, rfl, -⟩ := askedGroup_eq_some hasked
        rw [groupOps, List.filterMap_cons_some hasked]
        exact Nat.succ_le_succ ih

section Calls

variable {broker : BrokerConfig} {engine : Engine} [DecidableEq T] {beats : List (FrameBeat T n)}
  {net : FrameNet T n} {net' : BrokerNet T n} {t : T} {frame response group : Bytes} {i j : ℕ}

/-- The call of a confirmed heartbeat. -/
theorem HandledByCalls.confirmed (h : HandledByCalls broker engine beats net net')
    (hhandled : Handled (above beats) t frame (.ok response) i j) {member : Bytes}
    {generation : Int}
    (hconfirmed : Confirmed frame response group member generation) :
    ∃ p q, start beats i ≤ p ∧ q < start beats j ∧
      Ran (below beats) t (.heartbeatGroup group member generation) (.ok .done) p q := by
  obtain @⟨header, group, member, generation, hdecode, hcode⟩ := hconfirmed
  obtain ⟨made, hplays, hmade⟩ := h.plays hhandled hdecode
  obtain ⟨called, rfl, hresponse⟩ := Engine.plays_attempt hplays
  obtain rfl := encodeGroupError_eq_ok.mp hresponse.symm
  rw [answeredCode_responseFrame_nil (reads_readCode_heartbeat _ _ _ _)] at hcode
  have hzero : resultCode (returnedAs Answer.done? called) = noError := Except.ok.inj hcode
  obtain ⟨p, q, hp, hq, hran⟩ := hmade.completed
  refine ⟨p, q, hp, hq, ?_⟩
  rcases called with error | _ | _ | _ | _ | _ | _
  case ok.done => exact hran
  case error => exact absurd hzero (coordinationErrorCode_ne_noError error)
  all_goals exact absurd hzero (coordinationErrorCode_ne_noError .unexpectedReply)

/-- The call of an answered join. -/
theorem HandledByCalls.joined (h : HandledByCalls broker engine beats net net')
    {result : Except Error Bytes} (hhandled : Handled (above beats) t frame result i j)
    {joined : Joined} (hjoined : joined? group frame result = some joined) :
    ∃ member generation assignments p q, start beats i ≤ p ∧ q < start beats j ∧
      Ran (below beats) t (.joinGroup group member joined.topics)
        (.ok (.group generation assignments)) p q := by
  obtain ⟨header, response, rest, hdecode, -, rfl, hread, hcode⟩ := joined?_eq_some hjoined
  obtain ⟨made, hplays, hmade⟩ := h.plays hhandled hdecode
  obtain ⟨called, rfl, hresponse⟩ := Engine.plays_attempt hplays
  obtain ⟨p, q, hp, hq, hran⟩ := hmade.completed
  have hrefused (error : BrokerError) (hreturned : returnedAs Answer.group? called = .error error) :
      False := by
    rw [hreturned] at hresponse
    rw [answer_of_encodeJoinGroup hresponse.symm hread] at hcode
    exact coordinationErrorCode_ne_noError error hcode
  rcases called with error | _ | _ | _ | _ | ⟨generation, assignments⟩ | _
  case ok.group => exact ⟨_, _, _, p, q, hp, hq, hran⟩
  case error => exact (hrefused error rfl).elim
  all_goals exact (hrefused .unexpectedReply rfl).elim

theorem HandledByCalls.countP_changes_le (h : HandledByCalls broker engine beats net net')
    (group : Bytes) :
    (groupOps (below beats)).countP (GroupOp.changes group) ≤ (above beats).length :=
  calc (groupOps (below beats)).countP (GroupOp.changes group)
      ≤ (groupOps (below beats)).length := List.countP_le_length
    _ ≤ ((below beats).filterMap Event.inner).length := length_groupOps_le _
    _ = ((above beats).filterMap Event.inner).length := by rw [h.inner]
    _ ≤ (above beats).length := List.length_filterMap_le _ _

end Calls

/-! ## Heartbeats -/

/-- **One member at a time, on the wire.** Two heartbeats that name one generation of a group and
are both confirmed, on whatever connections, are of the same member. No join to the group was handed
over after the response to the first and answered before the second was handed over. -/
theorem wire_heartbeats_one_member {broker : BrokerConfig} {engine : Engine} [DecidableEq T]
    {history : List (FrameEvent T n)} {net : FrameNet T n}
    (h : Runs (engineSystem broker engine) (startShards n) history net)
    (hroom : history.length < 2 ^ 31 - 1) {t t' : T}
    {frame frame' response response' group member member' : Bytes} {generation : Int}
    {i j i' j' : ℕ} (hbeat : Handled history t frame (.ok response) i j)
    (hconfirmed : Confirmed frame response group member generation)
    (hbeat' : Handled history t' frame' (.ok response') i' j')
    (hconfirmed' : Confirmed frame' response' group member' generation) :
    member = member' ∧
      ∀ s join result joined a b, Handled history s join result a b →
        joined? group join result = some joined → j ≤ a → ¬ b ≤ i' := by
  obtain ⟨beats, net', rfl, hcalls⟩ := handledByCalls h
  have hfew := Nat.lt_of_le_of_lt (hcalls.countP_changes_le group) hroom
  obtain ⟨p, q, -, hq, hran⟩ := hcalls.confirmed hbeat hconfirmed
  obtain ⟨p', q', hp', -, hran'⟩ := hcalls.confirmed hbeat' hconfirmed'
  obtain ⟨k, m, -, -, hmq, hjoined, hquiet⟩ := hran.beats hcalls.runs hfew
  obtain ⟨k', m', -, hpm', -, hjoined', hquiet'⟩ := hran'.beats hcalls.runs hfew
  obtain rfl := hjoined.unique hcalls.runs hfew hjoined'
  refine ⟨hjoined.member_eq hjoined', ?_⟩
  intro s join result joined a b hhandled hanswered hafter hbefore
  -- a join between the two would have been granted between them, and counted
  obtain ⟨_, _, _, p'', q'', hp'', hq'', hran''⟩ := hcalls.joined hhandled hanswered
  obtain ⟨g, hpg, hgq, -, hasked⟩ := hran''.joined hcalls.runs
  have hchanges := JoinedAt.changes hcalls.runs ⟨_, _, _, hasked⟩
  have hja := start_mono beats hafter
  have hbi := start_mono beats hbefore
  have hmg := changesBy_mono (below beats) group (show m ≤ g by omega)
  have hgm := changesBy_mono (below beats) group (show g + 1 ≤ m' by omega)
  omega

/-- A heartbeat of the second member. -/
def beatFrame : Bytes := (⟨⟨12, 0, 5, none⟩, .heartbeat [103] 2 [98]⟩ : Request).ser

/-- Two members join, and the second sends a heartbeat on either connection. -/
def joinsThenBeats : List (Label (Fin 2) (Fin 2) Bytes) := List.flatten
  [visit 0 (joinFrame [103] [97]) [0], visit 1 (joinFrame [103] [98]) [0], visit 1 beatFrame [0],
    visit 0 beatFrame [0]]

def JoinedThenBeat (history : List (FrameEvent (Fin 2) 2)) : Prop :=
  history.length = 32 ∧
    Handled history 1 beatFrame (.ok (responseFrame 5 (i16Bytes noError))) 16 23 ∧
    Handled history 0 beatFrame (.ok (responseFrame 5 (i16Bytes noError))) 24 31

instance (history : List (FrameEvent (Fin 2) 2)) : Decidable (JoinedThenBeat history) :=
  inferInstanceAs (Decidable (_ ∧ _))

theorem wire_heartbeats_one_member_joinsThenBeats :
    ∃ (history : List (FrameEvent (Fin 2) 2)) (net : FrameNet (Fin 2) 2),
      Runs (engineSystem oneTopicBroker oneTopicEngine) (startShards 2) history net ∧
        JoinedThenBeat history ∧
        ∀ s join result joined a b, Handled history s join result a b →
          joined? [103] join result = some joined → 23 ≤ a → ¬ b ≤ 24 := by
  obtain ⟨history, net, hrun, hlength, hbeat, hbeat'⟩ := exists_run
    (engineSystem (n := 2) oneTopicBroker oneTopicEngine) (startShards 2) joinsThenBeats
    (fun history _ => JoinedThenBeat history) (by decide +kernel)
  have hconfirmed : Confirmed beatFrame (responseFrame 5 (i16Bytes noError)) [103] [98] 2 :=
    .heartbeat (show decodeRequest beatFrame = .ok ⟨⟨12, 0, 5, none⟩, .heartbeat [103] 2 [98]⟩ by
      decide) (by decide)
  have hroom : history.length < 2 ^ 31 - 1 := by omega
  exact ⟨history, net, hrun, ⟨hlength, hbeat, hbeat'⟩,
    (wire_heartbeats_one_member hrun hroom hbeat hconfirmed hbeat' hconfirmed).2⟩

end CharlotteBroker
