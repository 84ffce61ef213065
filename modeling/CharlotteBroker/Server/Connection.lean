import CharlotteBroker.Engine.Dispatch
import CharlotteBroker.Lib.Drain
import CharlotteBroker.Wire.Grammar

/-!
# Connections

The two front ends cut a byte stream into frames and hand them to the engine. The EL0 one gets the
stream in chunks, appends each to a buffer and drains complete frames off it; the host one reads the
length and then the payload, each exactly.

* Both loops are written over any engine: a state and an answer to each frame.
* `hostRound_eq`: a round of the host loop does to the unread stream what a round of the EL0 loop
  does to its buffer.
* `serveConnection_agree`: so the chunks do not matter (`el0Loop_eq_drain`), the two front ends
  hand over the same frames and close at the same point, and between chunks the buffer holds the
  beginning of one frame.
-/

namespace CharlotteBroker.Server

open CharlotteBroker.Core Lib CharlotteBroker.Runtime Wire

variable {buffer frame rest : Bytes} {length : Int32}

/-- Why a connection is closed before the stream ends. -/
inductive Ended
  | badLength
  | engineError
  | sendError
  deriving DecidableEq, Repr

/-- What has happened on a connection: the state of the engine, the frames it was handed and the
responses that were sent. -/
structure Conversation (S : Type) where
  engine : S
  frames : List Bytes
  sent : List Bytes
  deriving DecidableEq

/-- `i32::from_be_bytes`. -/
def i32FromBe (bytes : Bytes) : Int32 := Int32.ofBitVec (BitVec.ofNat 32 (beValue bytes))

section Loops

variable {S : Type} (handle : S → Bytes → S × Except Error Bytes) (delivered : ℕ → Bool)

/-- Hands a frame to the engine and sends the response; `delivered` says which responses of the
connection can be sent.
Source: `main.rs` (el0) and `server.rs`, `serve_connection` (after the frame is read). Kind: D -/
def handOver (conversation : Conversation S) (frame : Bytes) : Conversation S × Option Ended :=
  match handle conversation.engine frame with
  | (engine, .ok response) =>
      if delivered conversation.sent.length then
        (⟨engine, conversation.frames ++ [frame], conversation.sent ++ [response]⟩, none)
      else (⟨engine, conversation.frames ++ [frame], conversation.sent⟩, some .sendError)
  | (engine, .error _) =>
      (⟨engine, conversation.frames ++ [frame], conversation.sent⟩, some .engineError)

/-- What becomes of a frame with the bytes after it. -/
def handled (conversation : Conversation S) (frame rest : Bytes) :
    Attempt (Conversation S) Ended UInt8 :=
  match handOver handle delivered conversation frame with
  | (conversation, none) => .take conversation rest
  | (conversation, some ended) => .close conversation ended

/-! ## The EL0 front end -/

/-- Source: `main.rs` (el0), `MAX_FRAME_LEN`. Kind: D -/
def el0MaxFrameLen : ℕ := 1024 * 1024

/-- The front of the buffer: too short, a length that is not accepted, or a frame and the rest. -/
inductive Look
  | wait
  | bad
  | frame (frame rest : Bytes)

/-- Source: `main.rs` (el0), `serve_connection` (the `while`, up to the frame). Kind: D -/
def el0Look (buffer : Bytes) : Look :=
  if buffer.length < 4 then .wait
  else
    let length := i32FromBe (buffer.take 4)
    if length ≤ 0 ∨ el0MaxFrameLen < length.toInt.toNat then .bad
    else
      let total := 4 + length.toInt.toNat
      if buffer.length < total then .wait
      else .frame (buffer.take total) (buffer.drop total)

/-- One round of the loop over the buffer.
Source: `main.rs` (el0), `serve_connection` (the `while`). Kind: D -/
def el0Round (conversation : Conversation S) (buffer : Bytes) :
    Attempt (Conversation S) Ended UInt8 :=
  match el0Look buffer with
  | .wait => .wait
  | .bad => .close conversation .badLength
  | .frame frame rest => handled handle delivered conversation frame rest

/-- What the socket gives: a chunk that can be mapped or not, or nothing for now. -/
inductive Receipt
  | chunk (bytes : Bytes) (mapped : Bool)
  | retryExhausted
  deriving DecidableEq

/-- The loop over what is received, until the peer closes or nothing can be received.
Source: `main.rs` (el0), `serve_connection` (the `loop`). Kind: D -/
def el0Loop (conversation : Conversation S) (buffer : Bytes) :
    List Receipt → Drained (Conversation S) Ended UInt8
  | [] => .waiting conversation buffer
  | .retryExhausted :: receipts => el0Loop conversation buffer receipts
  | .chunk bytes mapped :: receipts =>
      let buffer := if mapped then buffer ++ bytes else buffer
      match drain (el0Round handle delivered) conversation buffer with
      | .waiting conversation buffer => el0Loop conversation buffer receipts
      | .closed conversation ended => .closed conversation ended

/-- Source: `main.rs` (el0), `serve_connection`. Kind: D -/
def el0ServeConnection (engine : S) (receipts : List Receipt) :
    Drained (Conversation S) Ended UInt8 :=
  el0Loop handle delivered ⟨engine, [], []⟩ [] receipts

/-! ## The host front end -/

/-- `Read::read_exact`: the bytes and the stream after them, or an error at its end. -/
def readExact (len : ℕ) (stream : Bytes) : Option (Bytes × Bytes) :=
  if len ≤ stream.length then some (stream.take len, stream.drop len) else none

/-- One round of the loop. It waits where the stream ends.
Source: `server.rs`, `serve_connection` (the `loop`). Kind: D -/
def hostRound (conversation : Conversation S) (stream : Bytes) :
    Attempt (Conversation S) Ended UInt8 :=
  match readExact 4 stream with
  | none => .wait
  | some (lengthBytes, stream) =>
      let length := i32FromBe lengthBytes
      if length ≤ 0 ∨ maxFrameLen < length.toInt.toNat then .close conversation .badLength
      else
        match readExact length.toInt.toNat stream with
        | none => .wait
        | some (payload, stream) =>
            handled handle delivered conversation (lengthBytes ++ payload) stream

/-- Source: `server.rs`, `serve_connection`. Kind: D -/
def hostServeConnection (engine : S) (stream : Bytes) : Drained (Conversation S) Ended UInt8 :=
  drain (hostRound handle delivered) ⟨engine, [], []⟩ stream

end Loops

/-! ## One round -/

theorem i32FromBe_i32Bytes (length : Int32) : i32FromBe (i32Bytes length) = length := by
  unfold i32FromBe i32Bytes
  rw [beValue_beBytes_of_lt (by simpa using length.toBitVec.isLt), BitVec.ofNat_toNat,
    BitVec.setWidth_eq, Int32.ofBitVec_toBitVec]

theorem i32Bytes_i32FromBe {bytes : Bytes} (h : bytes.length = 4) :
    i32Bytes (i32FromBe bytes) = bytes := by
  have hlt : beValue bytes < 2 ^ 32 := by
    have hlt := beValue_lt bytes
    rwa [h] at hlt
  unfold i32FromBe i32Bytes
  show beBytes 4 (BitVec.ofNat 32 (beValue bytes)).toNat = bytes
  rw [BitVec.toNat_ofNat, Nat.mod_eq_of_lt hlt]
  conv_lhs => rw [← h]
  exact beBytes_beValue bytes

/-- Four bytes are a length. -/
theorem exists_length (h : 4 ≤ buffer.length) :
    ∃ length rest, buffer = i32Bytes length ++ rest := by
  refine ⟨i32FromBe (buffer.take 4), buffer.drop 4, ?_⟩
  rw [i32Bytes_i32FromBe (List.length_take_of_le h), List.take_append_drop]

/-- A length both front ends accept. -/
def Acceptable (length : Int32) : Prop := 0 < length ∧ length.toInt.toNat ≤ maxFrameLen

instance (length : Int32) : Decidable (Acceptable length) :=
  inferInstanceAs (Decidable (_ ∧ _))

section Rounds

variable {S : Type} {handle : S → Bytes → S × Except Error Bytes} {delivered : ℕ → Bool}
  {conversation next : Conversation S}

theorem frames_handOver (handle : S → Bytes → S × Except Error Bytes) (delivered : ℕ → Bool)
    (conversation : Conversation S) (frame : Bytes) :
    (handOver handle delivered conversation frame).1.frames = conversation.frames ++ [frame] := by
  unfold handOver
  rcases handle conversation.engine frame with ⟨engine, error | response⟩
  · rfl
  · by_cases hsent : delivered conversation.sent.length
    · simp only [if_pos hsent]
    · simp only [if_neg hsent]

theorem handOver_ne_badLength :
    handOver handle delivered conversation frame ≠ (next, some .badLength) := by
  unfold handOver
  rcases handle conversation.engine frame with ⟨engine, error | response⟩
  · simp
  · by_cases hsent : delivered conversation.sent.length
    · simp [hsent]
    · simp [hsent]

theorem handled_eq_take {rest' : Bytes} :
    handled handle delivered conversation frame rest = .take next rest' ↔
      handOver handle delivered conversation frame = (next, none) ∧ rest = rest' := by
  unfold handled
  rcases handOver handle delivered conversation frame with ⟨other, _ | ended⟩
  · simp
  · simp

theorem handled_eq_close {ended : Ended} :
    handled handle delivered conversation frame rest = .close next ended ↔
      handOver handle delivered conversation frame = (next, some ended) := by
  unfold handled
  rcases handOver handle delivered conversation frame with ⟨other, _ | ended'⟩
  · simp
  · simp

theorem handled_ne_wait : handled handle delivered conversation frame rest ≠ .wait := by
  unfold handled
  rcases handOver handle delivered conversation frame with ⟨other, _ | ended⟩
  · simp
  · simp

/-- What a round does once the length is there. -/
def afterLength (handle : S → Bytes → S × Except Error Bytes) (delivered : ℕ → Bool)
    (conversation : Conversation S) (length : Int32) (rest : Bytes) :
    Attempt (Conversation S) Ended UInt8 :=
  if ¬ Acceptable length then .close conversation .badLength
  else if rest.length < length.toInt.toNat then .wait
  else handled handle delivered conversation (i32Bytes length ++ rest.take length.toInt.toNat)
    (rest.drop length.toInt.toNat)

theorem not_acceptable_iff :
    ¬ Acceptable length ↔ length ≤ 0 ∨ maxFrameLen < length.toInt.toNat := by
  unfold Acceptable
  rw [not_and_or, Int32.not_lt, Nat.not_le]

theorem el0Round_short (h : ¬ 4 ≤ buffer.length) :
    el0Round handle delivered conversation buffer = .wait := by
  rw [el0Round, el0Look, if_pos (Nat.not_le.mp h)]

theorem el0Look_length (length : Int32) (rest : Bytes) :
    el0Look (i32Bytes length ++ rest) =
      if ¬ Acceptable length then .bad
      else if rest.length < length.toInt.toNat then .wait
      else .frame (i32Bytes length ++ rest.take length.toInt.toNat)
        (rest.drop length.toInt.toNat) := by
  have htake : (i32Bytes length ++ rest).take 4 = i32Bytes length :=
    List.take_left' (length_i32Bytes length)
  have hframe : ∀ k, (i32Bytes length ++ rest).take (4 + k) = i32Bytes length ++ rest.take k := by
    intro k
    rw [← length_i32Bytes length, List.take_length_add_append]
  have hrest : ∀ k, (i32Bytes length ++ rest).drop (4 + k) = rest.drop k := by
    intro k
    rw [← length_i32Bytes length, List.drop_length_add_append]
  unfold el0Look
  simp only [htake, i32FromBe_i32Bytes, List.length_append, length_i32Bytes, hframe, hrest,
    not_acceptable_iff, Nat.add_lt_add_iff_left]
  rw [if_neg (by omega)]
  rfl

theorem el0Round_length (length : Int32) (rest : Bytes) :
    el0Round handle delivered conversation (i32Bytes length ++ rest) =
      afterLength handle delivered conversation length rest := by
  rw [el0Round, el0Look_length, afterLength]
  by_cases hbad : ¬ Acceptable length
  · rw [if_pos hbad, if_pos hbad]
  · rw [if_neg hbad, if_neg hbad]
    by_cases hshort : rest.length < length.toInt.toNat
    · rw [if_pos hshort, if_pos hshort]
    · rw [if_neg hshort, if_neg hshort]

theorem hostRound_length (length : Int32) (rest : Bytes) :
    hostRound handle delivered conversation (i32Bytes length ++ rest) =
      afterLength handle delivered conversation length rest := by
  have hread : readExact 4 (i32Bytes length ++ rest) = some (i32Bytes length, rest) := by
    unfold readExact
    rw [if_pos (by simp), List.take_left' (length_i32Bytes length),
      List.drop_left' (length_i32Bytes length)]
  unfold hostRound afterLength
  simp only [hread, i32FromBe_i32Bytes, not_acceptable_iff]
  split
  · rfl
  · unfold readExact
    rcases Nat.lt_or_ge rest.length length.toInt.toNat with hshort | hlong
    · rw [if_neg (Nat.not_le.mpr hshort), if_pos hshort]
    · rw [if_pos hlong, if_neg (Nat.not_lt.mpr hlong)]

/-- **A round of the host loop is a round of the EL0 loop.** -/
theorem hostRound_eq (conversation : Conversation S) (stream : Bytes) :
    hostRound handle delivered conversation stream =
      el0Round handle delivered conversation stream := by
  by_cases hlong : 4 ≤ stream.length
  · obtain ⟨length, rest, rfl⟩ := exists_length hlong
    rw [hostRound_length, el0Round_length]
  · rw [el0Round_short hlong, hostRound, readExact, if_neg hlong]

/-! ## What a round finds -/

theorem el0Round_bad (hbad : ¬ Acceptable length) (rest : Bytes) :
    el0Round handle delivered conversation (i32Bytes length ++ rest) =
      .close conversation .badLength := by
  rw [el0Round_length, afterLength, if_pos hbad]

theorem el0Round_complete (hgood : Acceptable length) {payload : Bytes}
    (hpayload : payload.length = length.toInt.toNat) (rest : Bytes) :
    el0Round handle delivered conversation (i32Bytes length ++ (payload ++ rest)) =
      handled handle delivered conversation (i32Bytes length ++ payload) rest := by
  rw [el0Round_length, afterLength, if_neg (not_not_intro hgood), if_neg (by simp [hpayload]),
    ← hpayload, List.take_left, List.drop_left]

/-- **What is at the front of the buffer**: the beginning of a length or of a payload, a length that
is not accepted, or a frame. -/
inductive Front (handle : S → Bytes → S × Except Error Bytes) (delivered : ℕ → Bool)
    (conversation : Conversation S) : Bytes → Prop
  | short {buffer : Bytes} (short : buffer.length < 4)
      (round : el0Round handle delivered conversation buffer = .wait) :
      Front handle delivered conversation buffer
  | bad {length : Int32} {rest : Bytes} (bad : ¬ Acceptable length) :
      Front handle delivered conversation (i32Bytes length ++ rest)
  | unfinished {length : Int32} {rest : Bytes} (good : Acceptable length)
      (short : rest.length < length.toInt.toNat)
      (round : el0Round handle delivered conversation (i32Bytes length ++ rest) = .wait) :
      Front handle delivered conversation (i32Bytes length ++ rest)
  | frame {length : Int32} {payload rest : Bytes} (good : Acceptable length)
      (complete : payload.length = length.toInt.toNat) :
      Front handle delivered conversation (i32Bytes length ++ (payload ++ rest))

theorem front (handle : S → Bytes → S × Except Error Bytes) (delivered : ℕ → Bool)
    (conversation : Conversation S) (buffer : Bytes) :
    Front handle delivered conversation buffer := by
  by_cases hlong : 4 ≤ buffer.length
  · obtain ⟨length, rest, rfl⟩ := exists_length hlong
    by_cases hgood : Acceptable length
    · rcases Nat.lt_or_ge rest.length length.toInt.toNat with hshort | hpayload
      · refine .unfinished hgood hshort ?_
        rw [el0Round_length, afterLength, if_neg (not_not_intro hgood), if_pos hshort]
      · rw [← List.take_append_drop length.toInt.toNat rest]
        exact .frame hgood (List.length_take_of_le hpayload)
    · exact .bad hgood
  · exact .short (Nat.lt_of_not_le hlong) (el0Round_short hlong)

/-- A frame that is taken off the buffer. -/
theorem exists_frame_of_take (h : el0Round handle delivered conversation buffer = .take next rest) :
    ∃ length payload, Acceptable length ∧ payload.length = length.toInt.toNat ∧
      buffer = i32Bytes length ++ (payload ++ rest) ∧
      handOver handle delivered conversation (i32Bytes length ++ payload) = (next, none) := by
  cases front handle delivered conversation buffer with
  | short _ round =>
      rw [round] at h
      cases h
  | bad hbad =>
      rw [el0Round_bad hbad] at h
      cases h
  | unfinished _ _ round =>
      rw [round] at h
      cases h
  | @frame length payload rest' hgood hcomplete =>
      rw [el0Round_complete hgood hcomplete] at h
      obtain ⟨hover, rfl⟩ := handled_eq_take.mp h
      exact ⟨length, payload, hgood, hcomplete, rfl, hover⟩

/-- A length or a frame that closes the connection. -/
theorem exists_end_of_close {ended : Ended}
    (h : el0Round handle delivered conversation buffer = .close next ended) :
    (∃ length rest, ¬ Acceptable length ∧ buffer = i32Bytes length ++ rest ∧
        next = conversation ∧ ended = .badLength) ∨
      ∃ length payload rest, Acceptable length ∧ payload.length = length.toInt.toNat ∧
        buffer = i32Bytes length ++ (payload ++ rest) ∧
        handOver handle delivered conversation (i32Bytes length ++ payload) =
          (next, some ended) := by
  cases front handle delivered conversation buffer with
  | short _ round =>
      rw [round] at h
      cases h
  | @bad length rest hbad =>
      rw [el0Round_bad hbad] at h
      cases h
      exact Or.inl ⟨length, rest, hbad, rfl, rfl, rfl⟩
  | unfinished _ _ round =>
      rw [round] at h
      cases h
  | @frame length payload rest hgood hcomplete =>
      rw [el0Round_complete hgood hcomplete] at h
      exact Or.inr ⟨length, payload, rest, hgood, hcomplete, rfl, handled_eq_close.mp h⟩

/-- **What a round finds does not depend on what follows.** -/
theorem steady_el0Round : Steady (el0Round handle delivered) where
  shrinks h := by
    obtain ⟨length, payload, -, -, rfl, -⟩ := exists_frame_of_take h
    simp only [List.length_append, length_i32Bytes]
    omega
  take_append h more := by
    obtain ⟨length, payload, hgood, hcomplete, rfl, hover⟩ := exists_frame_of_take h
    rw [List.append_assoc, List.append_assoc, el0Round_complete hgood hcomplete]
    exact handled_eq_take.mpr ⟨hover, rfl⟩
  close_append h more := by
    rcases exists_end_of_close h with ⟨length, rest, hbad, rfl, rfl, rfl⟩ |
      ⟨length, payload, rest, hgood, hcomplete, rfl, hover⟩
    · rw [List.append_assoc, el0Round_bad hbad]
    · rw [List.append_assoc, List.append_assoc, el0Round_complete hgood hcomplete]
      exact handled_eq_close.mpr hover

end Rounds

/-! ## Whole connections -/

/-- A frame: four bytes that declare a length, and that many bytes. -/
def IsFrame (frame : Bytes) : Prop :=
  ∃ length payload, frame = i32Bytes length ++ payload ∧ payload.length = length.toInt.toNat

/-- The beginning of one frame, whose length is accepted as soon as it is complete. -/
structure Unfinished (buffer : Bytes) : Prop where
  begins : ∃ frame, IsFrame frame ∧ buffer <+: frame ∧ buffer ≠ frame
  accepted : ∀ length rest, buffer = i32Bytes length ++ rest → Acceptable length
  bounded : buffer.length < 4 + maxFrameLen

/-- Where the connection was closed: after the frames handed over, and at the next length if that is
the reason. -/
structure ClosedAt {S : Type} (stream : Bytes) (conversation : Conversation S) (ended : Ended) :
    Prop where
  frames : conversation.frames.flatten <+: stream
  badLength : ended = .badLength → ∃ length rest, ¬ Acceptable length ∧
    stream = conversation.frames.flatten ++ (i32Bytes length ++ rest)

/-- The bytes that were received. -/
def streamOf (receipts : List Receipt) : Bytes :=
  receipts.flatMap fun
    | .chunk bytes _ => bytes
    | .retryExhausted => []

/-- The chunk, if it is one, could be mapped. -/
def Receipt.isMapped : Receipt → Bool
  | .chunk _ mapped => mapped
  | .retryExhausted => true

/-- The bytes that were received and could be mapped. -/
def heardOf (receipts : List Receipt) : Bytes := streamOf (receipts.filter Receipt.isMapped)

section Connections

variable {S : Type} {handle : S → Bytes → S × Except Error Bytes} {delivered : ℕ → Bool}
  {conversation : Conversation S}

/-- A length and the beginning of a payload begin a frame. -/
theorem exists_isFrame (length : Int32) {rest : Bytes} (h : rest.length ≤ length.toInt.toNat) :
    ∃ more, IsFrame (i32Bytes length ++ (rest ++ more)) ∧
      rest.length + more.length = length.toInt.toNat := by
  have hlen : rest.length + (List.replicate (length.toInt.toNat - rest.length) (0 : UInt8)).length =
      length.toInt.toNat := by
    rw [List.length_replicate]
    omega
  exact ⟨_, ⟨length, _, rfl, by rw [List.length_append, hlen]⟩, hlen⟩

/-- A buffer that a round waits for more of. -/
theorem unfinished_of_wait (h : el0Round handle delivered conversation buffer = .wait) :
    Unfinished buffer := by
  cases front handle delivered conversation buffer with
  | short hshort =>
      -- a few bytes more and the length is complete
      have hfour : (buffer ++ List.replicate (4 - buffer.length) 0).length = 4 := by
        rw [List.length_append, List.length_replicate]
        omega
      obtain ⟨more, hframe, -⟩ := @exists_isFrame
        (i32FromBe (buffer ++ List.replicate (4 - buffer.length) 0)) [] (Nat.zero_le _)
      rw [i32Bytes_i32FromBe hfour, List.append_assoc] at hframe
      refine ⟨⟨_, hframe, List.prefix_append _ _, fun heq => ?_⟩, ?_, by omega⟩
      · have hlen := congrArg List.length heq
        rw [← List.append_assoc, List.length_append, hfour] at hlen
        omega
      · rintro length rest rfl
        rw [List.length_append, length_i32Bytes] at hshort
        omega
  | bad hbad =>
      rw [el0Round_bad hbad] at h
      cases h
  | @unfinished length rest hgood hshort =>
      obtain ⟨more, hframe, hlen⟩ := exists_isFrame length (Nat.le_of_lt hshort)
      rw [← List.append_assoc] at hframe
      refine ⟨⟨_, hframe, List.prefix_append _ _, fun heq => ?_⟩, ?_, ?_⟩
      · have hmore : more = [] := List.self_eq_append_right.mp heq
        rw [hmore, List.length_nil] at hlen
        omega
      · intro length' rest' heq
        obtain ⟨hlength, -⟩ := List.append_inj heq (by simp)
        rwa [← i32FromBe_i32Bytes length', ← hlength, i32FromBe_i32Bytes]
      · have hmax := hgood.2
        rw [List.length_append, length_i32Bytes]
        omega
  | frame hgood hcomplete =>
      rw [el0Round_complete hgood hcomplete] at h
      exact absurd h handled_ne_wait

/-- A chunk that cannot be mapped is lost, and the loop is one draining of the others. -/
theorem el0Loop_eq_drain {receipts : List Receipt}
    (hwait : el0Round handle delivered conversation buffer = .wait) :
    el0Loop handle delivered conversation buffer receipts =
      drain (el0Round handle delivered) conversation (buffer ++ heardOf receipts) := by
  induction receipts generalizing conversation buffer with
  | nil =>
      show _ = drain _ conversation (buffer ++ [])
      rw [List.append_nil, drain_of_wait hwait]
      rfl
  | cons receipt receipts ih =>
      cases receipt with
      | retryExhausted => exact ih hwait
      | chunk bytes mapped =>
          cases mapped with
          | false =>
              rw [el0Loop, if_neg Bool.false_ne_true, drain_of_wait hwait]
              exact ih hwait
          | true =>
              show _ = drain _ conversation (buffer ++ (bytes ++ heardOf receipts))
              rw [← List.append_assoc, steady_el0Round.drain_append, el0Loop, if_pos rfl]
              rcases hdrain : drain (el0Round handle delivered) conversation (buffer ++ bytes) with
                ⟨next, rest⟩ | ⟨next, ended⟩
              · exact ih (steady_el0Round.drain_waits hdrain)
              · rfl

/-- The frames handed over are the stream so far. -/
theorem frames_drain (handle : S → Bytes → S × Except Error Bytes) (delivered : ℕ → Bool)
    (engine : S) (stream : Bytes) :
    (drain (el0Round handle delivered) ⟨engine, [], []⟩ stream).Meets
      (fun next rest => next.frames.flatten ++ rest = stream) (ClosedAt stream) := by
  have hframe : ∀ {conversation next : Conversation S} {frame : Bytes} {ended : Option Ended},
      handOver handle delivered conversation frame = (next, ended) →
        next.frames.flatten = conversation.frames.flatten ++ frame := by
    intro conversation next frame ended hover
    have hframes := frames_handOver handle delivered conversation frame
    rw [hover] at hframes
    rw [hframes, List.flatten_append, List.flatten_singleton]
  refine steady_el0Round.drain_preserves ?_ ?_ (List.nil_append stream)
  · rintro conversation buffer next rest htake rfl
    obtain ⟨length, payload, -, -, rfl, hover⟩ := exists_frame_of_take htake
    rw [hframe hover]
    simp only [List.append_assoc]
  · rintro conversation buffer next reason hclose rfl
    rcases exists_end_of_close hclose with ⟨length, rest, hbad, rfl, rfl, -⟩ |
      ⟨length, payload, rest, -, -, rfl, hover⟩
    · exact ⟨List.prefix_append _ _, fun _ => ⟨length, rest, hbad, rfl⟩⟩
    · refine ⟨?_, ?_⟩
      · rw [hframe hover]
        exact ⟨rest, by simp only [List.append_assoc]⟩
      · rintro rfl
        exact absurd hover handOver_ne_badLength

/-- **Framing does not depend on the chunks, and the front ends agree.** For every engine and every
way the stream is received in chunks that can be mapped, the EL0 loop hands over the frames the host
loop hands over and closes where it closes, for the same reason; and as long as it has not closed,
its buffer is the part of the stream after those frames and holds the beginning of one frame. -/
theorem serveConnection_agree (handle : S → Bytes → S × Except Error Bytes)
    (delivered : ℕ → Bool) (engine : S) (receipts : List Receipt)
    (hmapped : ∀ receipt ∈ receipts, receipt.isMapped = true) :
    el0ServeConnection handle delivered engine receipts =
        hostServeConnection handle delivered engine (streamOf receipts) ∧
      (el0ServeConnection handle delivered engine receipts).Meets
        (fun next buffer => next.frames.flatten ++ buffer = streamOf receipts ∧ Unfinished buffer)
        (ClosedAt (streamOf receipts)) := by
  have hstart : el0Round handle delivered ⟨engine, [], []⟩ [] = .wait := rfl
  have hhost : hostRound handle delivered = el0Round handle delivered :=
    funext fun conversation => funext fun stream => hostRound_eq conversation stream
  unfold el0ServeConnection hostServeConnection
  rw [el0Loop_eq_drain hstart, hhost, List.nil_append, heardOf, List.filter_eq_self.mpr hmapped]
  refine ⟨rfl, ?_⟩
  have hframes := frames_drain handle delivered engine (streamOf receipts)
  rcases hdrain : drain (el0Round handle delivered) ⟨engine, [], []⟩ (streamOf receipts) with
    ⟨next, rest⟩ | ⟨next, ended⟩
  · rw [hdrain] at hframes
    exact ⟨hframes, unfinished_of_wait (steady_el0Round.drain_waits hdrain)⟩
  · rw [hdrain] at hframes
    exact hframes

end Connections

/-- A request for the supported versions. -/
def versionsFrame : Bytes := (⟨⟨18, 0, 0, none⟩, .apiVersions⟩ : Request).ser

/-- The request twice and a bad length, cut within the first length. -/
def cutReceipts : List Receipt :=
  [.chunk (versionsFrame.take 3) true, .retryExhausted,
    .chunk (versionsFrame.drop 3 ++ (versionsFrame ++ i32Bytes (-1))) true]

/-- Both front ends hand the request over twice and then close. -/
theorem serveConnection_agree_cut :
    (∀ receipt ∈ cutReceipts, receipt.isMapped = true) ∧
      el0ServeConnection (oneTopicEngine.handle (n := 2)) (fun _ => true) (startShards 2)
          cutReceipts =
        hostServeConnection (oneTopicEngine.handle (n := 2)) (fun _ => true) (startShards 2)
          (streamOf cutReceipts) ∧
      (el0ServeConnection (oneTopicEngine.handle (n := 2)) (fun _ => true) (startShards 2)
        cutReceipts).Meets (fun _ _ => False) fun next ended =>
          next.frames = [versionsFrame, versionsFrame] ∧ ended = .badLength := by
  have hmapped : ∀ receipt ∈ cutReceipts, receipt.isMapped = true := by decide
  exact ⟨hmapped, (serveConnection_agree _ _ _ _ hmapped).1, by decide⟩

end CharlotteBroker.Server
