import CharlotteBroker.Engine.MemberFencing

/-!
# The assignment in a sync answer

A SyncGroup frame carries a list of members and what each is assigned. The decoder drops the members
and keeps the first assignment that is not empty; the engine sends it back.

* `keptAssignment_decoded`: what is kept, in terms of the list as it stands in the frame.
* `syncGroup_own_iff`: the sender gets its own assignment exactly if no other one comes first.
* `sync_not_own`: with two members in the list, the second is told the assignment of the first.
-/

namespace CharlotteBroker

open Std CharlotteBroker.Core Lib Lib.Parser CharlotteBroker.Runtime Wire

/-! ## The list in the frame -/

/-- A member and its assignment. -/
def syncEntry : Decoder (Bytes × Bytes) := do
  let member ← Decoder.stringBytes
  let assignment ← requiredBytes
  return (member, assignment)

/-- A SyncGroup body, its assignments with their members. -/
def readSync : Decoder (List (Bytes × Bytes)) := do
  let _groupId ← Decoder.stringBytes
  let _generation ← Decoder.i32
  let _memberId ← Decoder.stringBytes
  Decoder.array syncEntry

/-- The assignment list of a SyncGroup frame. -/
def syncEntries (frame : Bytes) : List (Bytes × Bytes) :=
  match (readRequestFrame readSync).run frame with
  | .ok (entries, _) => entries
  | .error _ => []

theorem tracks_memberAssignment :
    Tracks memberAssignment syncEntry fun assignment entry => entry.2 = assignment := by
  unfold memberAssignment syncEntry
  refine Tracks.field _ fun member => ?_
  rw [← bind_pure requiredBytes, bind_assoc]
  exact Tracks.field _ fun assignment => Tracks.pure rfl

/-- The decoded assignment is the one kept of those in the frame. -/
theorem keptAssignment_decoded {frame : Bytes} {header : Header} {groupId memberId kept : Bytes}
    {generation : Int32}
    (h : decodeRequest frame = .ok ⟨header, .syncGroup groupId generation memberId kept⟩) :
    kept = keptAssignment ((syncEntries frame).map Prod.snd) := by
  obtain ⟨middle, hbody, hframe⟩ := run_readRequestFrame h
  obtain ⟨_, rest, hgroup, hbody⟩ := run_bind_ok.mp hbody
  obtain ⟨_, rest', hgeneration, hbody⟩ := run_bind_ok.mp hbody
  obtain ⟨_, rest'', hmember, hbody⟩ := run_bind_ok.mp hbody
  obtain ⟨assignments, _, hassignments, hbody⟩ := run_bind_ok.mp hbody
  obtain ⟨hbody, rfl⟩ := run_pure_ok.mp hbody
  cases hbody
  have htracks : Tracks (Decoder.array memberAssignment) (Decoder.array syncEntry)
      (List.Forall₂ fun assignment entry => entry.2 = assignment) :=
    Tracks.field _ fun len => tracks_memberAssignment.many len
  obtain ⟨entries, hentries, hall⟩ := htracks _ _ _ hassignments
  have hrun : (readRequestFrame readSync).run frame = .ok (entries, []) := by
    refine (hframe _).trans ?_
    refine run_bind_ok.mpr ⟨_, _, hgroup, ?_⟩
    refine run_bind_ok.mpr ⟨_, _, hgeneration, ?_⟩
    exact run_bind_ok.mpr ⟨_, _, hmember, hentries⟩
  have hmap : entries.map Prod.snd = assignments :=
    List.forall₂_eq_eq_eq ▸ List.forall₂_map_left_iff.mpr hall.flip
  unfold syncEntries
  rw [hrun, hmap]

/-! ## Which one is kept -/

theorem foldl_keep_of_ne_nil {kept : Bytes} (h : kept ≠ []) (assignments : List Bytes) :
    assignments.foldl (fun kept bytes => if kept.isEmpty then bytes else kept) kept = kept := by
  induction assignments with
  | nil => rfl
  | cons bytes rest ih => rw [List.foldl_cons, if_neg (by simpa using h), ih]

/-- The first assignment that is not empty is kept. -/
theorem keptAssignment_eq_find? (assignments : List Bytes) :
    keptAssignment assignments = (assignments.find? fun bytes => !bytes.isEmpty).getD [] := by
  induction assignments with
  | nil => rfl
  | cons bytes rest ih =>
      rcases bytes with _ | ⟨byte, bytes⟩
      · exact ih
      · exact foldl_keep_of_ne_nil (List.cons_ne_nil _ _) rest

/-- No assignment but this one can be told: the first that is not empty, whoever's it is, has these
bytes. -/
def ToldFirst (entries : List (Bytes × Bytes)) (own : Bytes) : Prop :=
  ∀ first, entries.find? (fun entry => !entry.2.isEmpty) = some first → first.2 = own

theorem keptAssignment_eq_iff {entries : List (Bytes × Bytes)} {memberId own : Bytes}
    (hown : (memberId, own) ∈ entries) :
    keptAssignment (entries.map Prod.snd) = own ↔ ToldFirst entries own := by
  rw [keptAssignment_eq_find?, List.find?_map]
  unfold ToldFirst
  rcases hfirst : entries.find? (fun entry => !entry.2.isEmpty) with _ | first
  · -- every assignment is empty, the own one too
    have hempty := List.find?_eq_none.mp hfirst _ hown
    have hnil : own = [] := by simpa using hempty
    simp only [Function.comp_def, hfirst, hnil]
    simp
  · simp only [Function.comp_def, hfirst]
    simp

/-! ## The answer -/

/-- Reads the code and the assignment of a sync answer. -/
def readSyncAnswer : Decoder (Int16 × Bytes) := readResponseFrame fun _ => do
  let error ← Decoder.i16
  let assignment ← requiredBytes
  return (error, assignment)

theorem reads_syncAnswer {assignment : Bytes} (h : assignment.length ≤ maxFrameLen)
    (correlationId : Int32) (error : Int16) :
    Reads readSyncAnswer (responseFrame correlationId (syncGroupBody error assignment))
      (error, assignment) :=
  reads_responseFrame ((reads_i16 _).bind ((reads_requiredBytes h).bind_end (Reads.pure _)))

/-- **A member is told its own assignment exactly if no other comes first.** From any broker state a
sync is answered with code zero; if its list has one entry for the sender, then the assignment in
the answer is that entry's exactly if it has the bytes of the first assignment that is not empty. -/
theorem syncGroup_own_iff {n : ℕ} [NeZero n] (engine : Engine) (shards : Fin n → Shard)
    {frame : Bytes} {header : Header} {groupId memberId kept : Bytes} {generation : Int32}
    (hdecode : decodeRequest frame = .ok ⟨header, .syncGroup groupId generation memberId kept⟩)
    {own : Bytes}
    (hown : (syncEntries frame).filter (fun entry => entry.1 == memberId) = [(memberId, own)]) :
    ∃ response assignment, (engine.handle shards frame).2 = .ok response ∧
      readSyncAnswer.run response = .ok ((noError, assignment), []) ∧
      (assignment = own ↔ ToldFirst (syncEntries frame) own) := by
  have hfits : kept.length ≤ maxFrameLen :=
    Nat.le_trans (Nat.le_add_left _ 10) (decodeRequest_bounded hdecode)
  have hmem : (memberId, own) ∈ syncEntries frame := by
    refine List.mem_of_mem_filter (p := fun entry => entry.1 == memberId) ?_
    rw [hown]
    exact List.mem_singleton_self _
  refine ⟨_, kept, ?_, (reads_syncAnswer hfits header.correlationId noError).all, ?_⟩
  · rw [(Engine.viewOf_handle engine shards frame).2, Engine.onView_of_decode hdecode]
    exact encodeSyncGroup_eq_ok.mpr ⟨hfits, rfl⟩
  · rw [keptAssignment_decoded hdecode]
    exact keptAssignment_eq_iff hmem

/-- The frame of a sync with two assignments. -/
def syncTwoFrame (groupId : Bytes) (generation : Int32) (memberId : Bytes)
    (first second : Bytes × Bytes) : Bytes :=
  bytesField (headerField ⟨14, 0, 0, none⟩ ++ (stringField groupId ++ (i32Bytes generation ++
    (stringField memberId ++ (arrayLenField 2 ++ (stringField first.1 ++ (bytesField first.2 ++
      (stringField second.1 ++ bytesField second.2))))))))

/-- Behind an empty assignment the own one is told. -/
theorem syncGroup_own_iff_second :
    ∃ response,
      (oneTopicEngine.handle (oneTopicEngine.after 1 [])
        (syncTwoFrame [103] 1 [97] ([98], []) ([97], [2]))).2 = .ok response ∧
      readSyncAnswer.run response = .ok ((noError, [2]), []) := by
  have hdecode : decodeRequest (syncTwoFrame [103] 1 [97] ([98], []) ([97], [2])) =
      .ok ⟨⟨14, 0, 0, none⟩, .syncGroup [103] 1 [97] [2]⟩ := by decide
  have hentries : syncEntries (syncTwoFrame [103] 1 [97] ([98], []) ([97], [2])) =
      [([98], []), ([97], [2])] := by decide
  have hown : (syncEntries (syncTwoFrame [103] 1 [97] ([98], []) ([97], [2]))).filter
      (fun entry => entry.1 == [97]) = [([97], [2])] := by
    rw [hentries]
    rfl
  have htold : ToldFirst (syncEntries (syncTwoFrame [103] 1 [97] ([98], []) ([97], [2]))) [2] := by
    rw [hentries]
    rintro first ⟨⟩
    rfl
  obtain ⟨response, assignment, hresponse, hread, hiff⟩ :=
    syncGroup_own_iff oneTopicEngine (oneTopicEngine.after 1 []) hdecode hown
  rw [hiff.mpr htold] at hread
  exact ⟨response, hresponse, hread⟩

/-- **The second of two members is told the assignment of the first.** -/
theorem sync_not_own :
    ∃ response,
      decodeRequest (syncTwoFrame [103] 1 [97] ([98], [1]) ([97], [2])) =
        .ok ⟨⟨14, 0, 0, none⟩, .syncGroup [103] 1 [97] [1]⟩ ∧
      syncEntries (syncTwoFrame [103] 1 [97] ([98], [1]) ([97], [2])) =
        [([98], [1]), ([97], [2])] ∧
      (oneTopicEngine.handle (oneTopicEngine.after 1 [])
        (syncTwoFrame [103] 1 [97] ([98], [1]) ([97], [2]))).2 = .ok response ∧
      readSyncAnswer.run response = .ok ((noError, [1]), []) := by
  refine ⟨responseFrame 0 (syncGroupBody 0 [1]), ?_, ?_, ?_, ?_⟩
  all_goals decide

end CharlotteBroker
