import CharlotteBroker.Engine.Script
import CharlotteBroker.Runtime.Delivery

/-!
# The engine behind many connections

Any number of connections hand frames to the engine, each one frame after the other
(`engineSystem`); the commands of all their broker calls interleave in any order, mailboxes refuse
and replies come too late.

* `frames_handled`: every run is a run of the broker with the same shards, in which each connection
  makes, between the frame and its response, the calls of the frame's script.
* `wire_read_your_writes`: so what holds of broker calls holds of frames. A record set that was
  acknowledged on one connection comes back on another, byte for byte, when it is fetched
  afterwards.
-/

namespace CharlotteBroker

open CharlotteBroker.Core Lib Lib.Rpc CharlotteBroker.Runtime Wire

variable {T : Type} {n : ℕ} [NeZero n]

abbrev FrameEvent (T : Type) (n : ℕ) : Type :=
  Event T (Fin n) PartitionCommand PartitionResult Bytes (Except Error Bytes)

abbrev FrameNet (T : Type) (n : ℕ) : Type :=
  Net T (Fin n) PartitionCommand PartitionResult Bytes (Except Error Bytes) Shard

/-- A frame of the engine's clients with what the broker does meanwhile. -/
abbrev FrameBeat (T : Type) (n : ℕ) : Type :=
  Beat T (Fin n) PartitionCommand PartitionResult Call (Except BrokerError Answer) Bytes
    (Except Error Bytes)

/-- The shards' loops and the engine's handlers, one for each connection.
Source: `engine.rs`, `handle_frame`; `server.rs` and `main.rs` (el0), one task for each
connection. Kind: D -/
def engineSystem (broker : BrokerConfig) (engine : Engine) :
    Service (Fin n) PartitionCommand PartitionResult Bytes (Except Error Bytes) Shard where
  handle shard command := shard.handle engine.broker command
  program := engine.handleFrame
  capacity := broker.mailboxCapacity
  attempts := max broker.maxRetries 1

/-- The engine is a front end of the broker. -/
theorem engineSystem_eq_layer (broker : BrokerConfig) (engine : Engine) :
    engineSystem (n := n) broker engine = (system broker engine.broker).layer engine.frameScript := by
  have hprogram : engine.handleFrame = fun frame =>
      (engine.frameScript frame).prog (engine.callProgram n) :=
    funext fun frame => (Engine.prog_frameScript frame).symm
  unfold engineSystem
  rw [hprogram]
  rfl

/-- A frame and its response. -/
abbrev Handled (history : List (FrameEvent T n)) (t : T) (frame : Bytes)
    (result : Except Error Bytes) (i j : ℕ) : Prop :=
  Lib.Rpc.Completed history t frame result i j

/-- What the engine's clients see is made of broker calls. -/
structure HandledByCalls (broker : BrokerConfig) (engine : Engine) [DecidableEq T]
    (beats : List (FrameBeat T n)) (net : FrameNet T n) (net' : BrokerNet T n) : Prop where
  /-- There is a run of the broker, -/
  runs : Runs (system broker engine.broker) (startShards n) (below beats) net'
  /-- with the same shards and their mailboxes, -/
  servers : net'.servers = net.servers
  /-- and the same commands, sends, answers and expired budgets in the same order, -/
  inner : (below beats).filterMap Event.inner = (above beats).filterMap Event.inner
  /-- where a connection makes, while a frame is handled, the calls that lead to its result. -/
  handled : ∀ t frame result i j, Handled (above beats) t frame result i j →
    ∃ made, (engine.frameScript frame).Plays made (.ret result) ∧
      Made (below beats) t (start beats i) made (start beats j)

/-- The response to a frame, out of these calls. It carries the frame's correlation id, and answers
each entry of a request with entries from the entry's own calls. -/
structure Serves (engine : Engine) (frame : Bytes) (made : List (Call × Except BrokerError Answer))
    (response : Bytes) : Prop where
  plays : (engine.frameScript frame).Plays made (.ret (.ok response))
  correlated : Engine.answeredCorrelation response = Engine.sentCorrelation frame
  entries : ∀ request scripts, decodeRequest frame = .ok request →
    engine.entryScripts request.body = some scripts →
    Engine.AnswersEntries scripts request made response

theorem serves_of_plays {engine : Engine} {frame : Bytes}
    {made : List (Call × Except BrokerError Answer)} {response : Bytes}
    (h : (engine.frameScript frame).Plays made (.ret (.ok response))) :
    Serves engine frame made response where
  plays := h
  correlated := Engine.plays_correlated h
  entries request scripts hdecode hscripts := by
    unfold Engine.frameScript at h
    rw [hdecode] at h
    exact Engine.plays_entries hscripts h

section Runs

variable {broker : BrokerConfig} {engine : Engine} [DecidableEq T]
  {history : List (FrameEvent T n)} {net : FrameNet T n}

theorem handledByCalls (h : Runs (engineSystem broker engine) (startShards n) history net) :
    ∃ beats net', above beats = history ∧ HandledByCalls broker engine beats net net' := by
  rw [engineSystem_eq_layer] at h
  obtain ⟨beats, net', rfl, hlayered⟩ := h.layered
  refine ⟨beats, net', rfl, hlayered.runs, hlayered.servers, hlayered.filterMap_inner, ?_⟩
  intro t frame result i j hhandled
  obtain ⟨i', hij', hspans, made, hplays, hmade⟩ :=
    hlayered.scripted j t frame result hhandled.returned
  obtain ⟨rfl, -⟩ := hspans.unique hhandled.spans hij' (Nat.le_refl _) hhandled.lt (Nat.le_refl _)
  exact ⟨made, hplays, hmade⟩

/-- **Frames are handled by broker calls.** Every run of the engine among its connections is a run
of the broker, and every response was made, while its frame was handled, of the frame's own
calls. -/
theorem frames_handled (h : Runs (engineSystem broker engine) (startShards n) history net) :
    ∃ beats net', above beats = history ∧ HandledByCalls broker engine beats net net' ∧
      ∀ t frame response i j, Handled history t frame (.ok response) i j →
        ∃ made, Serves engine frame made response ∧
          Made (below beats) t (start beats i) made (start beats j) := by
  obtain ⟨beats, net', rfl, hcalls⟩ := handledByCalls h
  refine ⟨beats, net', rfl, hcalls, fun t frame response i j hhandled => ?_⟩
  obtain ⟨made, hplays, hmade⟩ := hcalls.handled t frame _ i j hhandled
  exact ⟨made, serves_of_plays hplays, hmade⟩

/-! ## From wire to wire -/

/-- The frame asks to append the records to the partition, outside of any transaction, and the
response acknowledges them from this offset on. -/
inductive Acknowledged (frame response : Bytes) : TopicPartition → List RecordData → Int → Prop
  | entry {header : Header} {acks : Int16} {timeoutMs : Int32}
      {topics : List (Topic ProducePartition)}
      {answers : List (Topic EntryAnswer)} {e : ℕ} {topic : Bytes} {partition : ProducePartition}
      {result : ProducePartitionResult}
      (asked : decodeRequest frame = .ok ⟨header, .produce none acks timeoutMs topics⟩)
      (entry : (entriesOf topics)[e]? = some (topic, partition))
      (answered : readResponse (.produce none acks timeoutMs topics) response =
        some (header.correlationId, answers))
      (answer : (entriesOf answers)[e]? = some (topic, .produced result))
      (accepted : result.error = noError) :
      Acknowledged frame response ⟨topic, partition.partition.toInt⟩ partition.records
        result.baseOffset.toInt

/-- The frame asks for the records of the partition from this offset on, and the response answers
with this result. -/
inductive AnsweredFetch (frame response : Bytes) :
    TopicPartition → Int → FetchPartitionResult Bytes → Prop
  | entry {header : Header} {replicaId maxWaitMs minBytes maxBytes : Int32} {readCommitted : Bool}
      {topics : List (Topic FetchPartition)} {answers : List (Topic EntryAnswer)} {e : ℕ}
      {topic : Bytes} {partition : FetchPartition} {result : FetchPartitionResult Bytes}
      (asked : decodeRequest frame =
        .ok ⟨header, .fetch replicaId maxWaitMs minBytes maxBytes readCommitted topics⟩)
      (entry : (entriesOf topics)[e]? = some (topic, partition))
      (answered : readResponse (.fetch replicaId maxWaitMs minBytes maxBytes readCommitted topics)
        response = some (header.correlationId, answers))
      (answer : (entriesOf answers)[e]? = some (topic, .fetched result)) :
      AnsweredFetch frame response ⟨topic, partition.partition.toInt⟩ partition.fetchOffset.toInt
        result

/-- What a record says: its key and its value. -/
def contents (records : List RecordData) : List (Option Bytes × Option Bytes) :=
  records.map fun record => (record.key, record.value)

theorem errorCode_ne_noError (error : BrokerError) : errorCode error ≠ noError := by
  unfold errorCode
  split <;> decide

/-- Only an append that succeeded is acknowledged. -/
theorem returned_of_accepted {partition : Int32} {called : Except BrokerError Answer}
    (h : (Engine.produceResult partition (returnedAs Answer.offset? called)).error = noError) :
    ∃ offset, called = .ok (.offset offset) := by
  rcases called with error | _ | _ | _ | _ | _ | _
  · exact absurd h (errorCode_ne_noError error)
  · exact ⟨_, rfl⟩
  all_goals exact absurd h (errorCode_ne_noError .unexpectedReply)

section Calls

variable {beats : List (FrameBeat T n)} {net' : BrokerNet T n} {t : T} {frame response : Bytes}
  {i j : ℕ} {key : TopicPartition}

/-- The calls of a request that could be decoded. -/
theorem HandledByCalls.plays (h : HandledByCalls broker engine beats net net')
    {result : Except Error Bytes} (hhandled : Handled (above beats) t frame result i j)
    {request : Request} (hdecode : decodeRequest frame = .ok request) :
    ∃ made, (engine.requestScript request).Plays made (.ret result) ∧
      Made (below beats) t (start beats i) made (start beats j) := by
  obtain ⟨made, hplays, hmade⟩ := h.handled t frame result i j hhandled
  unfold Engine.frameScript at hplays
  rw [hdecode] at hplays
  exact ⟨made, hplays, hmade⟩

/-- The call of an acknowledged entry. -/
theorem HandledByCalls.acknowledged (h : HandledByCalls broker engine beats net net')
    (hhandled : Handled (above beats) t frame (.ok response) i j) {records : List RecordData}
    {base : Int} (hack : Acknowledged frame response key records base) :
    ∃ offset p q, start beats i ≤ p ∧ q < start beats j ∧ base = (Int64.ofInt offset).toInt ∧
      Ran (below beats) t (.produce key.topic key.partition records) (.ok (.offset offset)) p q := by
  obtain @⟨header, acks, timeoutMs, topics, answers, e, topic, partition, result, hdecode, hentry,
    hread, hanswer, herror⟩ := hack
  obtain ⟨made, hplays, hmade⟩ := h.plays hhandled hdecode
  obtain ⟨sent, b, before, piece, after, -, -, hb, hpart, hpiece⟩ :=
    Engine.plays_entry (engine.produceKind 1 header none acks timeoutMs) hplays hread hentry hanswer
  cases hb
  obtain ⟨called, rfl, rfl⟩ := Engine.plays_attempt hpiece
  rw [hpart] at hmade
  obtain ⟨p, q, hp, hq, hran⟩ := hmade.completed_part
  obtain ⟨offset, rfl⟩ := returned_of_accepted herror
  exact ⟨offset, p, q, hp, hq, rfl, hran⟩

/-- The call of a fetch entry. What it brought was encoded. -/
theorem HandledByCalls.answeredFetch (h : HandledByCalls broker engine beats net net')
    (hhandled : Handled (above beats) t frame (.ok response) i j) {offset : Int}
    {result : FetchPartitionResult Bytes} (hanswer : AnsweredFetch frame response key offset result) :
    ∃ id maxBytes readCommitted called p q, start beats i ≤ p ∧ q < start beats j ∧
      Ran (below beats) t (.fetchWithIsolation key.topic key.partition offset engine.maxFetchRecords
        maxBytes readCommitted) called p q ∧
      result = (Engine.fetchResult id (returnedAs Answer.window? called)).mapRecords recordSet ∧
      (Engine.fetchResult id (returnedAs Answer.window? called)).Fits := by
  obtain @⟨header, replicaId, maxWaitMs, minBytes, maxBytes, readCommitted, topics, answers, e, topic,
    partition, result, hdecode, hentry, hread, hanswer⟩ := hanswer
  obtain ⟨made, hplays, hmade⟩ := h.plays hhandled hdecode
  obtain ⟨sent, b, before, piece, after, hencode, hsent, hb, hpart, hpiece⟩ :=
    Engine.plays_entry (engine.fetchKind 1 header replicaId maxWaitMs minBytes maxBytes
      readCommitted) hplays hread hentry hanswer
  cases hb
  obtain ⟨called, rfl, rfl⟩ := Engine.plays_attempt hpiece
  rw [hpart] at hmade
  obtain ⟨p, q, hp, hq, hran⟩ := hmade.completed_part
  obtain ⟨⟨-, hfits⟩, -⟩ := encodeFetch_eq_ok.mp hencode
  obtain ⟨topic', htopic', hmem⟩ := List.mem_flatMap.mp hsent
  obtain ⟨b, hb, heq⟩ := List.mem_map.mp hmem
  obtain ⟨-, rfl⟩ := Prod.ext_iff.mp heq
  exact ⟨_, _, _, called, p, q, hp, hq, hran, rfl, (hfits topic' htopic').2.2 _ hb⟩

end Calls

end Runs

/-! ### Offsets fit on the wire -/

/-- Every append is a command that was applied. -/
theorem nextOffset_viewAfter_le (config : ShardConfig) (history : List (BrokerEvent T n))
    (key : TopicPartition) :
    ((viewAfter config history).logs key).nextOffset ≤
      maxAppendRecords * (history.filterMap Event.inner).length := by
  induction history using List.reverseRecOn with
  | nil =>
      show (newLog config.partitionMaxBytes).nextOffset ≤ _
      cases config.partitionMaxBytes <;> simp [newLog, PartitionLog.new, PartitionLog.withMaxBytes]
  | append_singleton history event ih =>
      have hkept (more : ℕ) := le_trans ih (Int.le_add_of_nonneg_right
        (Int.mul_nonneg (Int.natCast_nonneg maxAppendRecords) (Int.natCast_nonneg more)))
      rw [viewAfter_snoc, List.filterMap_append, List.length_append, Nat.cast_add, mul_add]
      rcases event with _ | _ | _ | _ | _ | _ | ⟨shard, chan, command, result⟩ | _ | _ | _ | _ | _
      all_goals try exact hkept _
      obtain ⟨ops, hone, -, hops⟩ :=
        View.serve_logs config (viewAfter config history) shard command key
      have hrun := PartitionLog.nextOffset_run_le (viewAfter_wellFormed config history key) ops
      rw [viewStep, hops]
      have hmul := Nat.mul_le_mul_left maxAppendRecords hone
      simp only [Event.inner, List.filterMap_cons, List.filterMap_nil, List.length_singleton]
      omega

/-- A batch ends where the records stored so far end. -/
theorem Runtime.AppendedAt.end_le {config : ShardConfig} {history : List (BrokerEvent T n)}
    {key : TopicPartition} {records : List RecordData} {transaction : Option Int} {base : Int}
    {k : ℕ}
    (happended : AppendedAt config history key records transaction base k) :
    0 ≤ base ∧ base + records.length ≤
      maxAppendRecords * (history.filterMap Event.inner).length := by
  have hwf := logAt_wellFormed config history key k
  obtain ⟨-, hbase, -, hnext⟩ := PartitionLog.appendBatch_ok hwf (congrArg Prod.snd happended)
  rw [show _ = logAt config history key (k + 1) from congrArg Prod.fst happended] at hnext
  have hend := nextOffset_viewAfter_le config (history.take (k + 1)) key
  rw [← logAt, hnext] at hend
  have hprefix := (List.take_prefix (k + 1) history).filterMap Event.inner
  have hmul := Nat.mul_le_mul_left maxAppendRecords hprefix.length_le
  have hstart := hwf.nonneg
  have hle := hwf.startOffset_le
  omega

section Wire

variable {broker : BrokerConfig} {engine : Engine} [DecidableEq T]
  {history : List (FrameEvent T n)} {net : FrameNet T n} {t t' : T}
  {frame frame' response response' : Bytes} {i j i' j' : ℕ} {key : TopicPartition}
  {records : List RecordData} {base offset : Int} {result : FetchPartitionResult Bytes}

/-- Assigning offsets changes no key and no value. -/
theorem contents_assignOffsets (base : Int) (records : List RecordData) (k : ℕ) :
    ((assignOffsets base records).drop k).map (fun record => (record.key, record.value)) =
      contents (records.drop k) := by
  conv_rhs => rw [← data_assignOffsets base records]
  rw [contents, ← List.map_drop, List.map_map]
  rfl

/-- A fetch that came to no answer is reported as a server error. -/
theorem not_answered_or (id : Int32) (called : Except BrokerError Answer) :
    ((Engine.fetchResult id (returnedAs Answer.window? called)).error = unknownServerError) ∨
      Answered called := by
  rcases called with (_ | _ | _ | _ | _ | _) | answer
  all_goals first | exact Or.inr trivial | exact Or.inl rfl

/-- **What was acknowledged on the wire comes back on the wire.** A frame for records from an offset
of an acknowledged record set, handed over on any connection after the acknowledgement, is answered
with a record set that decodes to the same keys and values from that offset on, as many as its
budgets allow and at least one. Otherwise retention has dropped the offset, or the shard could not
be reached. -/
theorem wire_read_your_writes (h : Runs (engineSystem broker engine) (startShards n) history net)
    (hproduce : Handled history t frame (.ok response) i j)
    (hack : Acknowledged frame response key records base)
    (hfetch : Handled history t' frame' (.ok response') i' j')
    (hanswer : AnsweredFetch frame' response' key offset result) (hbefore : j < i')
    (hlow : base ≤ offset) (hhigh : offset < base + records.length)
    (hmax : 0 < engine.maxFetchRecords) (hroom : maxAppendRecords * history.length < 2 ^ 63) :
    (result.error = noError ∧ ∃ fetched, decodeRecordBatches result.records = .ok fetched ∧
        fetched ≠ [] ∧ (contents fetched <+: contents (records.drop (offset - base).toNat) ∨
          contents (records.drop (offset - base).toNat) <+: contents fetched)) ∨
      (result.error = offsetOutOfRange ∧ engine.broker.partitionMaxBytes ≠ none) ∨
      result.error = unknownServerError := by
  obtain ⟨beats, net', rfl, hcalls⟩ := handledByCalls h
  obtain ⟨base', p, q, -, hq, rfl, hran⟩ := hcalls.acknowledged hproduce hack
  obtain ⟨id, maxBytes, readCommitted, called, p', q', hp', -, hran', rfl, hfits⟩ :=
    hcalls.answeredFetch hfetch hanswer
  have hpast : q < p' := by
    have hstart := start_mono beats (Nat.le_of_lt hbefore)
    omega
  obtain ⟨hcheck, _, k, hoffset, -, hkq, happended⟩ := hran.appended hcalls.runs
    (show Call.appends (.produce key.topic key.partition records) = some (key, records, none) from rfl)
  cases hoffset
  -- the offset told is the offset meant
  have hbase : (Int64.ofInt base').toInt = base' := by
    obtain ⟨hnonneg, hend⟩ := happended.end_le
    rw [hcalls.inner] at hend
    have hinner := List.length_filterMap_le Event.inner (above beats)
    have hmul := Nat.mul_le_mul_left maxAppendRecords hinner
    exact Int64.toInt_ofInt_of_le (by omega) (by omega)
  rw [hbase] at hlow hhigh ⊢
  rcases not_answered_or id called with hlost | hanswered
  · -- the mailbox was full or the reply late
    exact Or.inr (Or.inr hlost)
  obtain ⟨k', hk', -, -, hresult⟩ := hran'.fetched hcalls.runs hanswered
  rw [hcheck] at hresult
  change called = (((logAt engine.broker (below beats) key k').fetchWithIsolation offset
    engine.maxFetchRecords maxBytes readCommitted).mapError BrokerError.core).map Answer.window
    at hresult
  have hlater : k < k' := by omega
  have hreader : (none : Option Int) = none ∨ readCommitted = false := Or.inl rfl
  rcases happended.fetched maxBytes hlater hlow hhigh hmax hreader with
    ⟨window, rest, hwindow, rfl, hne, hcommon⟩ | ⟨hout, hlimit⟩
  · left
    rw [hwindow] at hresult
    subst hresult
    obtain ⟨-, hlen, hsize⟩ := hfits
    obtain ⟨fetched, hdecode, hcontents⟩ := decodeRecordBatches_recordSet hne hlen hsize
    refine ⟨rfl, fetched, hdecode, ?_, ?_⟩
    · rintro rfl
      exact hne (List.map_eq_nil_iff.mp hcontents.symm)
    · rw [show contents fetched = _ from hcontents, ← contents_assignOffsets base']
      exact hcommon.imp (·.map _) (·.map _)
  · right
    left
    rw [hout] at hresult
    subst hresult
    exact ⟨rfl, hlimit⟩

end Wire

/-! ## A run -/

/-- One record for the first partition of the topic. -/
def writeFrame : Bytes := produceFrame [116] 0 ⟨0, 5, none, some [107]⟩

/-- A fetch of it. -/
def rereadFrame : Bytes :=
  (⟨⟨1, 4, 9, none⟩, .fetch (-1) 0 0 4096 true [⟨[116], [⟨0, 0, 4096⟩]⟩]⟩ : Request).ser

def writeResponse : Bytes := responseFrame 0 (produceBody ⟨[⟨[116], [⟨0, 0, 0, -1⟩]⟩], 0⟩)

/-- What the fetch brings. -/
def reread : FetchPartitionResult Bytes := ⟨0, 0, 1, 1, none, recordSet [⟨0, 5, none, some [107]⟩]⟩

def rereadResponse : Bytes := responseFrame 9 (fetchBody ⟨0, [⟨[116], [reread]⟩]⟩)

/-- One connection writes, and another reads afterwards. -/
def writeThenReread : List (Label (Fin 2) (Fin 2) Bytes) := List.flatten
  [visit 0 writeFrame [1], visit 1 rereadFrame [1]]

def WroteThenReread (history : List (FrameEvent (Fin 2) 2)) : Prop :=
  history.length = 16 ∧ Handled history 0 writeFrame (.ok writeResponse) 0 7 ∧
    Handled history 1 rereadFrame (.ok rereadResponse) 8 15

instance (history : List (FrameEvent (Fin 2) 2)) : Decidable (WroteThenReread history) :=
  inferInstanceAs (Decidable (_ ∧ _))

theorem exists_writeThenReread :
    ∃ (history : List (FrameEvent (Fin 2) 2)) (net : FrameNet (Fin 2) 2),
      Runs (engineSystem oneTopicBroker oneTopicEngine) (startShards 2) history net ∧
        WroteThenReread history :=
  exists_run (engineSystem (n := 2) oneTopicBroker oneTopicEngine) (startShards 2) writeThenReread
    (fun history _ => WroteThenReread history) (by decide +kernel)

theorem decodeRequest_writeFrame : decodeRequest writeFrame =
    .ok ⟨⟨0, 3, 0, none⟩, .produce none 1 0 [⟨[116], [⟨0, [⟨5, none, some [107]⟩], none⟩]⟩]⟩ :=
  decodeRequest_produceFrame (List.cons_ne_nil _ _) (by decide) 0 (by decide +kernel)

theorem acknowledged_writeFrame :
    Acknowledged writeFrame writeResponse ⟨[116], 0⟩ [⟨5, none, some [107]⟩] 0 :=
  .entry (e := 0) decodeRequest_writeFrame rfl
    (show readResponse _ _ = some (0, [⟨[116], [.produced ⟨0, 0, 0, -1⟩]⟩]) by decide) rfl rfl

theorem answeredFetch_rereadFrame :
    AnsweredFetch rereadFrame rereadResponse ⟨[116], 0⟩ 0 reread :=
  .entry (e := 0)
    (show decodeRequest rereadFrame =
      .ok ⟨⟨1, 4, 9, none⟩, .fetch (-1) 0 0 4096 true [⟨[116], [⟨0, 0, 4096⟩]⟩]⟩ by decide) rfl
    (show readResponse _ _ = some (9, [⟨[116], [.fetched reread]⟩]) by decide +kernel) rfl

theorem frames_handled_writeThenReread :
    ∃ (history : List (FrameEvent (Fin 2) 2)) (net : FrameNet (Fin 2) 2),
      Runs (engineSystem oneTopicBroker oneTopicEngine) (startShards 2) history net ∧
        WroteThenReread history ∧ ∃ beats net' made, above beats = history ∧
          HandledByCalls oneTopicBroker oneTopicEngine beats net net' ∧
          Serves oneTopicEngine rereadFrame made rereadResponse ∧
          Made (below beats) 1 (start beats 8) made (start beats 15) := by
  obtain ⟨history, net, hrun, hlength, hwrote, hread⟩ := exists_writeThenReread
  obtain ⟨beats, net', habove, hcalls, hserves⟩ := frames_handled hrun
  obtain ⟨made, hmade⟩ := hserves 1 _ _ 8 15 hread
  exact ⟨history, net, hrun, ⟨hlength, hwrote, hread⟩, beats, net', made, habove, hcalls, hmade⟩

theorem wire_read_your_writes_writeThenReread :
    ∃ (history : List (FrameEvent (Fin 2) 2)) (net : FrameNet (Fin 2) 2),
      Runs (engineSystem oneTopicBroker oneTopicEngine) (startShards 2) history net ∧
        WroteThenReread history ∧
        ∃ fetched, decodeRecordBatches reread.records = .ok fetched ∧ fetched ≠ [] ∧
          (contents fetched <+: [(none, some [107])] ∨
            [(none, some [107])] <+: contents fetched) := by
  obtain ⟨history, net, hrun, hlength, hwrote, hread⟩ := exists_writeThenReread
  refine ⟨history, net, hrun, ⟨hlength, hwrote, hread⟩, ?_⟩
  have hroom : maxAppendRecords * history.length < 2 ^ 63 := by
    rw [hlength]
    decide
  rcases wire_read_your_writes hrun hwrote acknowledged_writeFrame hread answeredFetch_rereadFrame
    (by decide) (by decide) (by decide) (by decide) hroom with ⟨-, hfetched⟩ | ⟨hout, -⟩ | hlost
  · exact hfetched
  · exact absurd hout (by decide)
  · exact absurd hlost (by decide)

end CharlotteBroker
