import CharlotteBroker.Wire.Request

/-!
# The grammar of requests

What the decoder of `request.rs` accepts, for the request kinds whose decoding keeps every field.

* `RequestBody.layout` and `Request.ser` write a request in the layout of its supported version,
  under a version 1 header; `Request.Valid` collects the bounds and field rules.
* `decodeRequest_iff_ser`: the decoder accepts exactly the frames `ser request` of valid requests.
  It rests on one exactness lemma per kind, each composed from those of the fields (`Exact`).
* `decodeRequest_eq_ok` splits off the length prefix for requests of every kind.

Join, sync, commit and produce requests are outside: their decoders drop fields, so that many frames
decode to one request.
-/

namespace CharlotteBroker.Wire

open Lib Lib.Parser CharlotteBroker.Core

/-! ## Layouts -/

/-- A partition entry of a fetch request. -/
def fetchPartitionField (partition : FetchPartition) : Bytes :=
  i32Bytes partition.partition ++
    (i64Bytes partition.fetchOffset ++ i32Bytes partition.partitionMaxBytes)

/-- A partition entry of a list-offsets request. -/
def listOffsetsPartitionField (partition : ListOffsetsPartition) : Bytes :=
  i32Bytes partition.partition ++ i64Bytes partition.timestamp

/-- A header. -/
def headerField (header : Header) : Bytes :=
  i16Bytes header.apiKey ++ (i16Bytes header.apiVersion ++
    (i32Bytes header.correlationId ++ nullableStringField header.clientId))

namespace RequestBody

/-- The API a body belongs to. -/
def api : RequestBody → Api
  | apiVersions => .apiVersions
  | findCoordinator .. => .findCoordinator
  | initProducerId .. => .initProducerId
  | addPartitionsToTxn .. => .addPartitionsToTxn
  | endTxn .. => .endTxn
  | joinGroup .. => .joinGroup
  | syncGroup .. => .syncGroup
  | heartbeat .. => .heartbeat
  | leaveGroup .. => .leaveGroup
  | offsetCommit .. => .offsetCommit
  | offsetFetch .. => .offsetFetch
  | metadata .. => .metadata
  | produce .. => .produce
  | fetch .. => .fetch
  | listOffsets .. => .listOffsets

/-- The kinds whose decoding keeps every field. -/
def KeepsFields : RequestBody → Prop
  | joinGroup .. | syncGroup .. | offsetCommit .. | produce .. => False
  | _ => True

/-- The layout of a body that keeps every field. -/
def layout : RequestBody → Bytes
  | apiVersions => []
  | findCoordinator key keyType => stringField key ++ i8Bytes keyType
  | initProducerId transactionalId timeoutMs =>
      nullableStringField transactionalId ++ i32Bytes timeoutMs
  | addPartitionsToTxn transactionalId producerId producerEpoch topics =>
      stringField transactionalId ++ (i64Bytes producerId ++ (i16Bytes producerEpoch ++
        arrayField (topicField i32Bytes) topics))
  | endTxn transactionalId producerId producerEpoch commit =>
      stringField transactionalId ++ (i64Bytes producerId ++ (i16Bytes producerEpoch ++
        boolField commit))
  | heartbeat groupId generation memberId =>
      stringField groupId ++ (i32Bytes generation ++ stringField memberId)
  | leaveGroup groupId memberId => stringField groupId ++ stringField memberId
  | offsetFetch groupId topic partition =>
      stringField groupId ++ arrayField (topicField i32Bytes) [⟨topic, [partition]⟩]
  | metadata none => i32Bytes (-1)
  | metadata (some topics) => arrayField stringField topics
  | fetch replicaId maxWaitMs minBytes maxBytes readCommitted topics =>
      i32Bytes replicaId ++ (i32Bytes maxWaitMs ++ (i32Bytes minBytes ++ (i32Bytes maxBytes ++
        (boolField readCommitted ++ arrayField (topicField fetchPartitionField) topics))))
  | listOffsets replicaId topics =>
      i32Bytes replicaId ++ arrayField (topicField listOffsetsPartitionField) topics
  | joinGroup .. | syncGroup .. | offsetCommit .. | produce .. => []

end RequestBody

/-- The topic entries of a request: bounded, with entries that satisfy a rule of their own. -/
def ValidTopics {α : Type} (rule : Topic α → Prop) (item : α → Prop) (topics : List (Topic α)) :
    Prop :=
  topics.length ≤ maxArrayLen ∧ ∀ topic ∈ topics, rule topic ∧ topic.name.length ≤ maxStringLen ∧
    topic.partitions.length ≤ maxArrayLen ∧ ∀ partition ∈ topic.partitions, item partition

/-- The bounds and the field rules of a body. -/
def RequestBody.Valid : RequestBody → Prop
  | findCoordinator key keyType =>
      key ≠ [] ∧ key.length ≤ maxStringLen ∧ (keyType = 0 ∨ keyType = 1)
  | initProducerId transactionalId _ =>
      ∀ value, transactionalId = some value → value.length ≤ maxStringLen
  | addPartitionsToTxn transactionalId _ _ topics =>
      transactionalId.length ≤ maxStringLen ∧
        ValidTopics (fun _ => True) (fun partition => 0 ≤ partition) topics
  | endTxn transactionalId _ _ _ => transactionalId.length ≤ maxStringLen
  | heartbeat groupId _ memberId =>
      groupId.length ≤ maxStringLen ∧ memberId.length ≤ maxStringLen
  | leaveGroup groupId memberId =>
      groupId.length ≤ maxStringLen ∧ memberId.length ≤ maxStringLen
  | offsetFetch groupId topic _ =>
      groupId.length ≤ maxStringLen ∧ topic.length ≤ maxStringLen
  | metadata topics =>
      ∀ names, topics = some names → names.length ≤ maxArrayLen ∧
        ∀ name ∈ names, name ≠ [] ∧ name.length ≤ maxStringLen
  | fetch _ maxWaitMs minBytes maxBytes _ topics =>
      (0 ≤ maxWaitMs ∧ 0 ≤ minBytes ∧ 0 ≤ maxBytes) ∧
        ValidTopics (fun topic => topic.name ≠ [])
          (fun partition => 0 ≤ partition.partitionMaxBytes) topics
  | listOffsets _ topics =>
      ValidTopics (fun topic => topic.name ≠ []) (fun _ => True) topics
  | apiVersions | joinGroup .. | syncGroup .. | offsetCommit .. | produce .. => True

/-- The frame of a request: the length of the payload, the header and the body. -/
def Request.ser (request : Request) : Bytes :=
  bytesField (headerField request.header ++ request.body.layout)

/-- What a request must satisfy to be accepted. -/
structure Request.Valid (request : Request) : Prop where
  key : request.header.apiKey = request.body.api.key
  version : request.header.apiVersion = request.body.api.version
  clientId : ∀ value, request.header.clientId = some value → value.length ≤ maxStringLen
  body : request.body.Valid
  payload : (headerField request.header ++ request.body.layout).length ≤ maxFrameLen

/-! ## Fields -/

/-- The names that are read are not empty and within the bound. -/
theorem exact_nonEmptyString :
    Exact nonEmptyString stringField (fun name => name ≠ [] ∧ name.length ≤ maxStringLen) := by
  intro input name rest
  unfold nonEmptyString
  simp only [run_bind_ok, exact_string _ _ _, run_reject_ok, run_pure_ok]
  constructor
  · rintro ⟨_, _, ⟨hlen, rfl⟩, -, _, ⟨hne, rfl⟩, rfl, rfl⟩
    exact ⟨⟨hne, hlen⟩, rfl⟩
  · rintro ⟨⟨hne, hlen⟩, rfl⟩
    exact ⟨_, _, ⟨hlen, rfl⟩, (), _, ⟨hne, rfl⟩, rfl, rfl⟩

/-- The flags that are read are the bytes zero and one. -/
theorem exact_flag : Exact flag boolField (fun _ => True) := by
  intro input value rest
  unfold flag
  simp only [run_bind_ok, run_i8_ok, run_reject_ok, run_pure_ok, true_and]
  constructor
  · rintro ⟨byte, _, rfl, -, _, ⟨hbyte, rfl⟩, rfl, rfl⟩
    rcases (by_contra fun h => hbyte (not_or.mp h) : byte = 0 ∨ byte = 1) with rfl | rfl
    · rfl
    · rfl
  · rintro rfl
    cases value
    · exact ⟨0, rest, rfl, (), rest, ⟨by decide, rfl⟩, by decide, rfl⟩
    · exact ⟨1, rest, rfl, (), rest, ⟨by decide, rfl⟩, by decide, rfl⟩

/-- Every `i32` is read. -/
theorem exact_i32 : Exact Decoder.i32 i32Bytes (fun _ => True) := by
  intro input value rest
  rw [run_i32_ok, true_and]

/-- The partitions of an enlistment are not negative. -/
theorem exact_txnPartition : Exact txnPartition i32Bytes (fun partition => 0 ≤ partition) := by
  intro input partition rest
  unfold txnPartition
  simp only [run_bind_ok, run_i32_ok, run_reject_ok, run_pure_ok, Int32.not_lt]
  constructor
  · rintro ⟨_, _, rfl, -, _, ⟨h, rfl⟩, rfl, rfl⟩
    exact ⟨h, rfl⟩
  · rintro ⟨h, rfl⟩
    exact ⟨_, _, rfl, (), _, ⟨h, rfl⟩, rfl, rfl⟩

/-- A fetch entry has a byte bound that is not negative. -/
theorem exact_fetchPartition :
    Exact fetchPartition fetchPartitionField (fun partition => 0 ≤ partition.partitionMaxBytes) := by
  intro input partition rest
  unfold fetchPartition
  simp only [run_bind_ok, run_i32_ok, run_i64_ok, run_reject_ok, run_pure_ok, Int32.not_lt]
  constructor
  · rintro ⟨_, _, rfl, _, _, rfl, _, _, rfl, -, _, ⟨h, rfl⟩, rfl, rfl⟩
    exact ⟨h, by simp [fetchPartitionField]⟩
  · rintro ⟨h, rfl⟩
    exact ⟨_, _, by simp [fetchPartitionField], _, _, rfl, _, _, rfl, (), _, ⟨h, rfl⟩, rfl, rfl⟩

/-- Every list-offsets entry is read. -/
theorem exact_listOffsetsPartition :
    Exact listOffsetsPartition listOffsetsPartitionField (fun _ => True) := by
  intro input partition rest
  unfold listOffsetsPartition
  simp only [run_bind_ok, run_i32_ok, run_i64_ok, run_pure_ok, true_and]
  constructor
  · rintro ⟨_, _, rfl, _, _, rfl, rfl, rfl⟩
    simp [listOffsetsPartitionField]
  · rintro rfl
    exact ⟨_, _, by simp [listOffsetsPartitionField], _, _, rfl, rfl, rfl⟩

variable {α : Type}

/-- Topic entries with a non-empty name. -/
theorem exact_topics {item : Decoder α} {s : α → Bytes} {V : α → Prop} (h : Exact item s V) :
    Exact (Decoder.array (topic item)) (arrayField (topicField s))
      (ValidTopics (fun topic => topic.name ≠ []) V) := by
  have htopic : Exact (topic item) (topicField s) (fun topic => topic.name ≠ [] ∧
      topic.name.length ≤ maxStringLen ∧ topic.partitions.length ≤ maxArrayLen ∧
        ∀ partition ∈ topic.partitions, V partition) := by
    intro input entry rest
    unfold topic
    simp only [run_bind_ok, exact_nonEmptyString _ _ _, exact_array h _ _ _, run_pure_ok]
    constructor
    · rintro ⟨_, _, ⟨⟨hne, hlen⟩, rfl⟩, _, _, ⟨⟨hcount, hitems⟩, rfl⟩, rfl, rfl⟩
      exact ⟨⟨hne, hlen, hcount, hitems⟩, by simp [topicField]⟩
    · rintro ⟨⟨hne, hlen, hcount, hitems⟩, rfl⟩
      exact ⟨_, _, ⟨⟨hne, hlen⟩, by simp [topicField]⟩, _, _, ⟨⟨hcount, hitems⟩, rfl⟩, rfl, rfl⟩
  exact exact_array htopic

/-- The topics of an enlistment may have empty names. -/
theorem exact_txnTopics :
    Exact (Decoder.array txnTopic) (arrayField (topicField i32Bytes))
      (ValidTopics (fun _ => True) (fun partition => 0 ≤ partition)) := by
  have htopic : Exact txnTopic (topicField i32Bytes) (fun topic => True ∧
      topic.name.length ≤ maxStringLen ∧ topic.partitions.length ≤ maxArrayLen ∧
        ∀ partition ∈ topic.partitions, 0 ≤ partition) := by
    intro input entry rest
    unfold txnTopic
    simp only [run_bind_ok, exact_string _ _ _, exact_array exact_txnPartition _ _ _, run_pure_ok]
    constructor
    · rintro ⟨_, _, ⟨hlen, rfl⟩, _, _, ⟨⟨hcount, hitems⟩, rfl⟩, rfl, rfl⟩
      exact ⟨⟨trivial, hlen, hcount, hitems⟩, by simp [topicField]⟩
    · rintro ⟨⟨-, hlen, hcount, hitems⟩, rfl⟩
      exact ⟨_, _, ⟨hlen, by simp [topicField]⟩, _, _, ⟨⟨hcount, hitems⟩, rfl⟩, rfl, rfl⟩
  exact exact_array htopic

/-- A string within the bound is read back. -/
theorem reads_string {value : Bytes} (h : value.length ≤ maxStringLen) :
    Reads Decoder.stringBytes (stringField value) value :=
  exact_string.reads h

/-- Bytes within the bound are read back where null is refused. -/
theorem reads_requiredBytes {value : Bytes} (h : value.length ≤ maxFrameLen) :
    Reads requiredBytes (bytesField value) value := by
  refine (exact_bytes.reads (a := some value) ?_).bind_end (Reads.pure value)
  rintro _ ⟨⟩
  exact h

/-- An array of one entry. -/
theorem reads_one {α : Type} {p : Decoder α} {w : Bytes} {a : α} (h : Reads p w a) :
    Reads (Decoder.array p) (arrayLenField 1 ++ w) [a] :=
  (exact_arrayLen.reads (a := 1) (by decide)).bind
    (h.bind_end ((Reads.pure []).bind_nil (Reads.pure _)))

/-! ## Bodies -/

/-- A body decoder accepts exactly the layout of a valid body. -/
def Accepts (decoder : Decoder RequestBody) (body : RequestBody) : Prop :=
  ∀ input rest, decoder.run input = .ok (body, rest) ↔ body.Valid ∧ input = body.layout ++ rest

theorem accepts_apiVersions : Accepts (return .apiVersions) .apiVersions := by
  intro input rest
  rw [run_pure_ok]
  exact ⟨fun h => ⟨trivial, h.2⟩, fun h => ⟨rfl, h.2⟩⟩

/-- The key of a FindCoordinator has to be named, and its type known. -/
theorem accepts_findCoordinator (key : Bytes) (keyType : Int8) :
    Accepts decodeFindCoordinator (.findCoordinator key keyType) := by
  intro input rest
  unfold decodeFindCoordinator RequestBody.Valid RequestBody.layout
  simp only [run_bind_ok, exact_nonEmptyString _ _ _, run_i8_ok, run_reject_ok, run_pure_ok]
  constructor
  · rintro ⟨_, _, ⟨hkey, rfl⟩, _, _, rfl, -, _, ⟨htype, rfl⟩, ⟨⟩, rfl⟩
    exact ⟨⟨hkey.1, hkey.2, by_contra fun h => htype (not_or.mp h)⟩, by simp⟩
  · rintro ⟨⟨hne, hlen, htype⟩, rfl⟩
    exact ⟨_, _, ⟨⟨hne, hlen⟩, by simp⟩, _, _, rfl, (), _,
      ⟨fun h => htype.elim h.1 h.2, rfl⟩, rfl, rfl⟩

/-- An InitProducerId is accepted with any timeout. -/
theorem accepts_initProducerId (transactionalId : Option Bytes) (timeoutMs : Int32) :
    Accepts decodeInitProducerId (.initProducerId transactionalId timeoutMs) := by
  intro input rest
  unfold decodeInitProducerId RequestBody.Valid RequestBody.layout
  simp only [run_bind_ok, exact_nullableString _ _ _, run_i32_ok, run_pure_ok]
  constructor
  · rintro ⟨_, _, ⟨hid, rfl⟩, _, _, rfl, ⟨⟩, rfl⟩
    exact ⟨hid, by simp⟩
  · rintro ⟨hid, rfl⟩
    exact ⟨_, _, ⟨hid, by simp⟩, _, _, rfl, rfl, rfl⟩

/-- An AddPartitionsToTxn is accepted if its topics are. -/
theorem accepts_addPartitionsToTxn (transactionalId : Bytes) (producerId : Int64)
    (producerEpoch : Int16) (topics : List (Topic Int32)) :
    Accepts decodeAddPartitionsToTxn
      (.addPartitionsToTxn transactionalId producerId producerEpoch topics) := by
  intro input rest
  unfold decodeAddPartitionsToTxn RequestBody.Valid RequestBody.layout
  simp only [run_bind_ok, exact_string _ _ _, run_i64_ok, run_i16_ok, exact_txnTopics _ _ _,
    run_pure_ok]
  constructor
  · rintro ⟨_, _, ⟨hid, rfl⟩, _, _, rfl, _, _, rfl, _, _, ⟨htopics, rfl⟩, ⟨⟩, rfl⟩
    exact ⟨⟨hid, htopics⟩, by simp⟩
  · rintro ⟨⟨hid, htopics⟩, rfl⟩
    exact ⟨_, _, ⟨hid, by simp⟩, _, _, rfl, _, _, rfl, _, _, ⟨htopics, rfl⟩, rfl, rfl⟩

/-- An EndTxn is accepted with any identity and either outcome. -/
theorem accepts_endTxn (transactionalId : Bytes) (producerId : Int64) (producerEpoch : Int16)
    (commit : Bool) :
    Accepts decodeEndTxn (.endTxn transactionalId producerId producerEpoch commit) := by
  intro input rest
  unfold decodeEndTxn RequestBody.Valid RequestBody.layout
  simp only [run_bind_ok, exact_string _ _ _, run_i64_ok, run_i16_ok, exact_flag _ _ _,
    run_pure_ok, true_and]
  constructor
  · rintro ⟨_, _, ⟨hid, rfl⟩, _, _, rfl, _, _, rfl, _, _, rfl, ⟨⟩, rfl⟩
    exact ⟨hid, by simp⟩
  · rintro ⟨hid, rfl⟩
    exact ⟨_, _, ⟨hid, by simp⟩, _, _, rfl, _, _, rfl, _, _, rfl, rfl, rfl⟩

/-- A Heartbeat is accepted with any generation. -/
theorem accepts_heartbeat (groupId : Bytes) (generation : Int32) (memberId : Bytes) :
    Accepts decodeHeartbeat (.heartbeat groupId generation memberId) := by
  intro input rest
  unfold decodeHeartbeat RequestBody.Valid RequestBody.layout
  simp only [run_bind_ok, exact_string _ _ _, run_i32_ok, run_pure_ok]
  constructor
  · rintro ⟨_, _, ⟨hgroup, rfl⟩, _, _, rfl, _, _, ⟨hmember, rfl⟩, ⟨⟩, rfl⟩
    exact ⟨⟨hgroup, hmember⟩, by simp⟩
  · rintro ⟨⟨hgroup, hmember⟩, rfl⟩
    exact ⟨_, _, ⟨hgroup, by simp⟩, _, _, rfl, _, _, ⟨hmember, rfl⟩, rfl, rfl⟩

/-- A LeaveGroup is accepted if its strings are within the bound. -/
theorem accepts_leaveGroup (groupId memberId : Bytes) :
    Accepts decodeLeaveGroup (.leaveGroup groupId memberId) := by
  intro input rest
  unfold decodeLeaveGroup RequestBody.Valid RequestBody.layout
  simp only [run_bind_ok, exact_string _ _ _, run_pure_ok]
  constructor
  · rintro ⟨_, _, ⟨hgroup, rfl⟩, _, _, ⟨hmember, rfl⟩, ⟨⟩, rfl⟩
    exact ⟨⟨hgroup, hmember⟩, by simp⟩
  · rintro ⟨⟨hgroup, hmember⟩, rfl⟩
    exact ⟨_, _, ⟨hgroup, by simp⟩, _, _, ⟨hmember, rfl⟩, rfl, rfl⟩

/-- An OffsetFetch is accepted with one topic and one partition. -/
theorem accepts_offsetFetch (groupId topic : Bytes) (partition : Int32) :
    Accepts decodeOffsetFetch (.offsetFetch groupId topic partition) := by
  intro input rest
  have hlayout : (RequestBody.offsetFetch groupId topic partition).layout ++ rest =
      stringField groupId ++ (arrayLenField 1 ++ (stringField topic ++ (arrayLenField 1 ++
        (i32Bytes partition ++ rest)))) := by
    simp [RequestBody.layout, arrayField, topicField]
  rw [hlayout]
  unfold decodeOffsetFetch RequestBody.Valid
  simp only [run_bind_ok, exact_string _ _ _, exact_arrayLen _ _ _, run_reject_ok, run_i32_ok,
    run_pure_ok, not_not]
  constructor
  · rintro ⟨_, _, ⟨hgroup, rfl⟩, _, _, ⟨-, rfl⟩, -, _, ⟨rfl, rfl⟩, _, _, ⟨htopic, rfl⟩, _, _,
      ⟨-, rfl⟩, -, _, ⟨rfl, rfl⟩, _, _, rfl, ⟨⟩, rfl⟩
    exact ⟨⟨hgroup, htopic⟩, rfl⟩
  · rintro ⟨⟨hgroup, htopic⟩, rfl⟩
    exact ⟨_, _, ⟨hgroup, rfl⟩, _, _, ⟨by decide, rfl⟩, (), _, ⟨rfl, rfl⟩, _, _, ⟨htopic, rfl⟩, _,
      _, ⟨by decide, rfl⟩, (), _, ⟨rfl, rfl⟩, _, _, rfl, rfl, rfl⟩

/-- A Metadata request names topics, or asks for all by null. -/
theorem accepts_metadata (topics : Option (List Bytes)) :
    Accepts decodeMetadata (.metadata topics) := by
  intro input rest
  unfold decodeMetadata
  simp only [run_bind_ok, exact_nullableArrayLen _ _ _]
  rcases topics with _ | names
  · constructor
    · rintro ⟨count, _, ⟨-, rfl⟩, hread⟩
      rcases count with _ | count
      · obtain ⟨-, rfl⟩ := run_pure_ok.mp hread
        exact ⟨fun _ h => (nomatch h), rfl⟩
      · obtain ⟨_, _, -, hread⟩ := run_bind_ok.mp hread
        cases (run_pure_ok.mp hread).1
    · rintro ⟨-, rfl⟩
      exact ⟨none, rest, ⟨fun _ h => (nomatch h), rfl⟩, rfl⟩
  · have hlayout : (RequestBody.metadata (some names)).layout ++ rest =
        arrayLenField names.length ++ (names.flatMap stringField ++ rest) := by
      simp [RequestBody.layout, arrayField]
    rw [hlayout]
    constructor
    · rintro ⟨count, _, ⟨hcount, rfl⟩, hread⟩
      rcases count with _ | count
      · cases (run_pure_ok.mp hread).1
      · obtain ⟨_, _, hmany, hread⟩ := run_bind_ok.mp hread
        obtain ⟨⟨⟩, rfl⟩ := run_pure_ok.mp hread
        obtain ⟨⟨rfl, hnames⟩, rfl⟩ := (exact_nonEmptyString.many count _ _ _).mp hmany
        refine ⟨?_, rfl⟩
        rintro _ ⟨⟩
        exact ⟨hcount _ rfl, hnames⟩
    · rintro ⟨hvalid, rfl⟩
      obtain ⟨hcount, hnames⟩ := hvalid names rfl
      refine ⟨some names.length, _, ⟨?_, rfl⟩, ?_⟩
      · rintro _ ⟨⟩
        exact hcount
      · exact run_bind_ok.mpr ⟨names, rest,
          (exact_nonEmptyString.many names.length _ _ _).mpr ⟨⟨rfl, hnames⟩, rfl⟩, rfl⟩

/-- A Fetch is accepted if its byte bounds are not negative and its topics are accepted. -/
theorem accepts_fetch (replicaId maxWaitMs minBytes maxBytes : Int32) (readCommitted : Bool)
    (topics : List (Topic FetchPartition)) :
    Accepts decodeFetch
      (.fetch replicaId maxWaitMs minBytes maxBytes readCommitted topics) := by
  intro input rest
  unfold decodeFetch RequestBody.Valid RequestBody.layout
  simp only [run_bind_ok, run_i32_ok, run_reject_ok, exact_flag _ _ _,
    exact_topics exact_fetchPartition _ _ _, run_pure_ok, true_and, not_or, Int32.not_lt]
  constructor
  · rintro ⟨_, _, rfl, _, _, rfl, _, _, rfl, _, _, rfl, -, _, ⟨hbounds, rfl⟩, _, _, rfl, _, _,
      ⟨htopics, rfl⟩, ⟨⟩, rfl⟩
    exact ⟨⟨hbounds, htopics⟩, by simp⟩
  · rintro ⟨⟨hbounds, htopics⟩, rfl⟩
    exact ⟨_, _, by simp only [List.append_assoc], _, _, rfl, _, _, rfl, _, _, rfl, (), _,
      ⟨hbounds, rfl⟩, _, _, rfl, _, _, ⟨htopics, rfl⟩, rfl, rfl⟩

/-- A ListOffsets is accepted if its topics are. -/
theorem accepts_listOffsets (replicaId : Int32) (topics : List (Topic ListOffsetsPartition)) :
    Accepts decodeListOffsets (.listOffsets replicaId topics) := by
  intro input rest
  unfold decodeListOffsets RequestBody.Valid RequestBody.layout
  simp only [run_bind_ok, run_i32_ok, exact_topics exact_listOffsetsPartition _ _ _, run_pure_ok]
  constructor
  · rintro ⟨_, _, rfl, _, _, ⟨htopics, rfl⟩, ⟨⟩, rfl⟩
    exact ⟨htopics, by simp⟩
  · rintro ⟨htopics, rfl⟩
    exact ⟨_, _, by simp only [List.append_assoc], _, _, ⟨htopics, rfl⟩, rfl, rfl⟩

/-- Every body that keeps all fields of its frame is accepted exactly if it is valid. -/
theorem accepts_decodeBody {body : RequestBody} (h : body.KeepsFields) :
    Accepts (decodeBody body.api) body := by
  cases body with
  | apiVersions => exact accepts_apiVersions
  | findCoordinator => exact accepts_findCoordinator _ _
  | initProducerId => exact accepts_initProducerId _ _
  | addPartitionsToTxn => exact accepts_addPartitionsToTxn _ _ _ _
  | endTxn => exact accepts_endTxn _ _ _ _
  | heartbeat => exact accepts_heartbeat _ _ _
  | leaveGroup => exact accepts_leaveGroup _ _
  | offsetFetch => exact accepts_offsetFetch _ _ _
  | metadata => exact accepts_metadata _
  | fetch => exact accepts_fetch _ _ _ _ _ _
  | listOffsets => exact accepts_listOffsets _ _
  | joinGroup => exact h.elim
  | syncGroup => exact h.elim
  | offsetCommit => exact h.elim
  | produce => exact h.elim

/-- Both forms of a Metadata body are of that kind. -/
theorem yields_decodeMetadata : Yields decodeMetadata (fun body => body.api = .metadata) := by
  refine Yields.skip fun count => ?_
  rcases count with _ | count
  · exact Yields.pure rfl
  · exact Yields.skip fun _ => Yields.pure rfl

/-- A decoder returns bodies of its own API only. -/
theorem yields_decodeBody (api : Api) : Yields (decodeBody api) (fun body => body.api = api) := by
  cases api
  case metadata => exact yields_decodeMetadata
  all_goals
    unfold decodeBody
    repeat first | exact Yields.pure rfl | refine Yields.skip fun _ => ?_

/-! ## Frames -/

/-- The length prefix of an accepted frame. -/
theorem decodeRequest_eq_ok {frame : Bytes} {request : Request} :
    decodeRequest frame = .ok request ↔
      ∃ payload : Bytes, payload.length ≤ maxFrameLen ∧ frame = bytesField payload ∧
        requestFields.run payload = .ok (request, []) := by
  unfold decodeRequest
  constructor
  · intro h
    rcases hrun : Decoder.i32.run frame with error | ⟨declared, payload⟩
    · rw [hrun] at h
      cases h
    · rw [hrun] at h
      obtain rfl := run_i32_ok.mp hrun
      simp only [bind, Except.bind, List.length_append, length_i32Bytes] at h
      split_ifs at h with hneg hlong hlen
      have hpayload : declared.toInt.toNat = payload.length := by omega
      refine ⟨payload, by omega, ?_, whole_eq_ok.mp h⟩
      rw [bytesField, ← hpayload, i32_ofNat_toNat hneg]
  · rintro ⟨payload, hlong, rfl, hfields⟩
    obtain ⟨hneg, -, hval⟩ := i32_ofNat (Nat.lt_of_le_of_lt hlong (by decide))
    have hrun : Decoder.i32.run (bytesField payload) =
        .ok (Int32.ofNat payload.length, payload) := run_i32_ok.mpr rfl
    have hlen : ¬ payload.length + 4 ≠ (bytesField payload).length := by
      rw [bytesField, List.length_append, length_i32Bytes, Nat.add_comm]
      exact not_not.mpr rfl
    rw [hrun]
    simp only [bind, Except.bind, hneg, hval, Nat.not_lt.mpr hlong, hlen, if_false]
    exact whole_eq_ok.mpr hfields

/-- The header chooses the decoder of the body. -/
theorem run_requestFields_ok {input rest : Bytes} {request : Request} :
    requestFields.run input = .ok (request, rest) ↔
      (∀ value, request.header.clientId = some value → value.length ≤ maxStringLen) ∧
        request.header.apiKey = request.body.api.key ∧
        request.header.apiVersion = request.body.api.version ∧
        ∃ middle, input = headerField request.header ++ middle ∧
          (decodeBody request.body.api).run middle = .ok (request.body, rest) := by
  unfold requestFields
  simp only [run_bind_ok, run_i16_ok, run_i32_ok, exact_nullableString _ _ _, run_reject_ok]
  constructor
  · rintro ⟨key, _, rfl, version, _, rfl, correlationId, _, rfl, clientId, _, ⟨hclient, rfl⟩, -, _,
      ⟨-, rfl⟩, hbody⟩
    rcases hfind : Api.find? key version with _ | api
    · rw [hfind] at hbody
      cases hbody
    · rw [hfind] at hbody
      obtain ⟨body, _, hread, hpure⟩ := run_bind_ok.mp hbody
      obtain ⟨rfl, rfl⟩ := run_pure_ok.mp hpure
      obtain ⟨hkey, hversion⟩ := Api.find?_eq_some.mp hfind
      obtain rfl : body.api = api := yields_decodeBody api _ _ _ hread
      exact ⟨hclient, hkey.symm, hversion.symm, _, by simp [headerField], hread⟩
  · rintro ⟨hclient, hkey, hversion, middle, rfl, hread⟩
    refine ⟨request.header.apiKey,
      i16Bytes request.header.apiVersion ++ (i32Bytes request.header.correlationId ++
      (nullableStringField request.header.clientId ++ middle)), ?_, _, _, rfl, _, _, rfl, _, _,
      ⟨hclient, rfl⟩, (), _, ⟨?_, rfl⟩, ?_⟩
    · simp only [headerField, List.append_assoc]
    · rw [hkey, isSupportedApi_key]
      exact Bool.noConfusion
    · rw [Api.find?_eq_some.mpr ⟨hkey.symm, hversion.symm⟩]
      exact run_bind_ok.mpr ⟨_, _, hread, rfl⟩

/-- A request frame with its body read by `body`. -/
def readRequestFrame {α : Type} (body : Decoder α) : Decoder α := do
  let _length ← Decoder.i32
  let _apiKey ← Decoder.i16
  let _apiVersion ← Decoder.i16
  let _correlationId ← Decoder.i32
  let _clientId ← Decoder.nullableStringBytes
  body

/-- The body of an accepted frame stands where any other reader finds it. -/
theorem run_readRequestFrame {frame : Bytes} {request : Request}
    (h : decodeRequest frame = .ok request) :
    ∃ middle, (decodeBody request.body.api).run middle = .ok (request.body, []) ∧
      ∀ {α : Type} (body : Decoder α), (readRequestFrame body).run frame = body.run middle := by
  obtain ⟨payload, -, rfl, hfields⟩ := decodeRequest_eq_ok.mp h
  obtain ⟨hclient, -, -, middle, rfl, hbody⟩ := run_requestFields_ok.mp hfields
  refine ⟨middle, hbody, fun body => ?_⟩
  unfold readRequestFrame bytesField headerField
  simp only [List.append_assoc]
  rw [run_bind_of_ok (run_i32_ok.mpr rfl), run_bind_of_ok (run_i16_ok.mpr rfl),
    run_bind_of_ok (run_i16_ok.mpr rfl), run_bind_of_ok (run_i32_ok.mpr rfl),
    run_bind_of_ok ((exact_nullableString _ _ _).mpr ⟨hclient, rfl⟩)]

/-- **The accepted language.** For the kinds that keep every field, the decoder accepts exactly the
frames of valid requests; two frames of one request are equal, and no frame can be extended or
shortened to another accepted one. -/
theorem decodeRequest_iff_ser :
    (∀ (frame : Bytes) (request : Request), request.body.KeepsFields →
      (decodeRequest frame = .ok request ↔ frame = request.ser ∧ request.Valid)) ∧
    (∀ (frame frame' : Bytes) (request : Request), request.body.KeepsFields →
      decodeRequest frame = .ok request → decodeRequest frame' = .ok request → frame = frame') ∧
    (∀ (frame extra : Bytes) (request request' : Request), decodeRequest frame = .ok request →
      decodeRequest (frame ++ extra) = .ok request' → extra = []) := by
  have hiff : ∀ (frame : Bytes) (request : Request), request.body.KeepsFields →
      (decodeRequest frame = .ok request ↔ frame = request.ser ∧ request.Valid) := by
    intro frame request hkeeps
    simp only [decodeRequest_eq_ok, run_requestFields_ok, accepts_decodeBody hkeeps _ _,
      List.append_nil]
    constructor
    · rintro ⟨_, hpayload, rfl, hclient, hkey, hversion, _, rfl, hbody, rfl⟩
      exact ⟨rfl, hkey, hversion, hclient, hbody, hpayload⟩
    · rintro ⟨rfl, hkey, hversion, hclient, hbody, hpayload⟩
      exact ⟨_, hpayload, rfl, hclient, hkey, hversion, _, rfl, hbody, rfl⟩
  refine ⟨hiff, ?_, ?_⟩
  · intro frame frame' request hkeeps h h'
    rw [((hiff _ _ hkeeps).mp h).1, ((hiff _ _ hkeeps).mp h').1]
  · intro frame extra request request' h h'
    obtain ⟨payload, hlen, rfl, -⟩ := decodeRequest_eq_ok.mp h
    obtain ⟨payload', hlen', heq, -⟩ := decodeRequest_eq_ok.mp h'
    -- the prefix fixes the length of what follows
    rw [bytesField, bytesField, List.append_assoc] at heq
    obtain ⟨hlen_eq, rfl⟩ := exact_i32.inj trivial trivial heq
    have hlt := (i32_ofNat (Nat.lt_of_le_of_lt hlen (by decide))).2.2
    have hlt' := (i32_ofNat (Nat.lt_of_le_of_lt hlen' (by decide))).2.2
    rw [hlen_eq, hlt', List.length_append] at hlt
    exact List.length_eq_zero_iff.mp (by omega)

/-- A fetch request, and the same frame with a byte too many. -/
theorem decodeRequest_iff_ser_fetch :
    decodeRequest (Request.ser ⟨⟨1, 4, 7, some [99]⟩, .fetch (-1) 0 1 100 true
        [⟨[116], [⟨0, 5, 10⟩, ⟨1, 0, 0⟩]⟩]⟩) =
      .ok ⟨⟨1, 4, 7, some [99]⟩, .fetch (-1) 0 1 100 true [⟨[116], [⟨0, 5, 10⟩, ⟨1, 0, 0⟩]⟩]⟩ ∧
    ∀ request', decodeRequest (Request.ser ⟨⟨1, 4, 7, some [99]⟩, .fetch (-1) 0 1 100 true
        [⟨[116], [⟨0, 5, 10⟩, ⟨1, 0, 0⟩]⟩]⟩ ++ [0]) ≠ .ok request' := by
  have h := (decodeRequest_iff_ser.1 _ ⟨⟨1, 4, 7, some [99]⟩, .fetch (-1) 0 1 100 true
    [⟨[116], [⟨0, 5, 10⟩, ⟨1, 0, 0⟩]⟩]⟩ trivial).mpr ⟨rfl, rfl, rfl, ?_, ?_, by decide⟩
  · exact ⟨h, fun request' h' => absurd (decodeRequest_iff_ser.2.2 _ _ _ _ h h') (by decide)⟩
  · rintro _ ⟨⟩
    decide
  · simp only [RequestBody.Valid, ValidTopics]
    decide

end CharlotteBroker.Wire
