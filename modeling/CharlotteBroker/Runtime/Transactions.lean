import CharlotteBroker.Runtime.Coordinator

/-!
# Transactional appends and ends in a history

A transactional append is two messages, a validation at shard zero and an append at the partition's
owner; an end is one message to shard zero and then one to the owner of every enlisted partition.
In a history of many clients the messages of different calls interleave. Here they are put together
again, by the calls that sent them.

* `TxAppend`, `Ending`: one append and one accepted end, with the positions of their messages.
* `exists_txAppend`, `exists_ending`: what a shard appends or resolves was sent by such a call.
* `Ending.Returned.resolved`: an end that returned successfully had every owner resolve.
* `Within`: the append was validated in the transaction that the end closed. All such ends have one
  outcome (`Within.commit_eq`), are of the append's producer and hand out its partition
  (`Within.enlisted`).
-/

namespace CharlotteBroker.Runtime

open CharlotteBroker.Core Lib Lib.Rpc

/-! ## What an end asks the coordinator -/

section Programs

variable {n : ℕ} [NeZero n] {exchanges : List (Exchange (Fin n) PartitionCommand PartitionResult)}
  {catalog : TopicCatalog} {tid : Bytes} {producer : ProducerIdentity} {commit : Bool}

/-- What an end goes on with when the coordinator has answered. -/
def afterEnd (producerId : Int) (commit : Bool) : CoordinationResult → BrokerM n Unit
  | .transactionCompleted completion => do
      resolvePartitions producerId commit completion.partitions
      if commit then commitOffsets completion.offsets
  | _ => throw .unexpectedReply

/-- The one request about a transactional id that an end makes is its first. -/
theorem follows_end_request {shard : Fin n} {request : CoordinationRequest} {tid' : Bytes}
    {next : Except Fault PartitionResult →
      Prog (Fin n) PartitionCommand PartitionResult (Except BrokerError Answer)}
    (h : ((Call.endTransaction tid producer commit).program catalog).run.Follows exchanges
      (.call shard (.coordinate request) next)) (hnames : request.names tid' = true) :
    exchanges = [] ∧ request = .endTransaction tid producer commit := by
  obtain ⟨next', hprogram⟩ := follows_map_call h
  rcases Prog.Follows.of_bind_ok_call hprogram with
    ⟨next'', hcoordinate⟩ | ⟨first, second, answer, rfl, hend, hrest⟩
  · obtain ⟨hnil, -, hrequest⟩ := follows_coordinateCall_call hcoordinate
    cases hrequest
    exact ⟨hnil, rfl⟩
  · -- what follows an accepted end names no transactional id
    have hissues : Issues (n := n)
        (fun _ command => ∀ request, command = .coordinate request → request.names tid' = false)
        (afterEnd producer.id commit answer) := by
      cases answer with
      | transactionCompleted completion =>
          refine Issues.bind (issues_resolvePartitions (by simp) _) fun _ => ?_
          cases commit with
          | true => exact issues_commitOffsets (by simp [CoordinationRequest.names]) _
          | false => trivial
      | _ => trivial
    have hfalse := (hissues.follows hrest).1 request rfl
    rw [hnames] at hfalse
    cases hfalse

end Programs

section Runs

variable {T : Type} {n : ℕ} [NeZero n] [DecidableEq T] {broker : BrokerConfig}
  {config : ShardConfig} {history : List (BrokerEvent T n)} {net : BrokerNet T n} {t : T}
  {tid : Bytes} {producer : ProducerIdentity} {commit : Bool} {i j : ℕ}

variable (h : Runs (system broker config) (startShards n) history net)
include h

/-- A resolution is sent only after the coordinator has accepted the end. -/
theorem accepted_of_resolving (hspans : Spans history t (.endTransaction tid producer commit) i j)
    {p chan : ℕ} {shard : Fin n} {producerId : Int} {commit' : Bool}
    (hopened : At history p (.opened t chan shard (.resolveTransaction producerId commit')))
    (hip : i < p) (hpj : p < j) :
    ∃ q k chan' completion, i < q ∧ q ≤ k ∧ k < p ∧
      At history q (.opened t chan' 0 (.coordinate (.endTransaction tid producer commit))) ∧
      At history k (accepted tid producer commit completion chan') := by
  obtain ⟨call, next, i', exchanges, hspans', hfollows, hexplained, -⟩ := opened_by h hopened
  obtain ⟨rfl, rfl⟩ := hspans.unique hspans' hip (Nat.le_of_lt hpj) hexplained.lt (Nat.le_refl _)
  obtain ⟨tid', producer', completion, chan', rest, hcall, -, -, rfl⟩ := follows_resolve hfollows
  cases hcall
  obtain ⟨q, k, hiq, hqk, hasked, htold, hrest⟩ := hexplained
  exact ⟨q, k, chan', completion, hiq, hqk, hrest.lt, hasked, htold⟩

/-- The call of an end that asks about a transactional id asks for the end, before anything
else. -/
theorem asked_first (hspans : Spans history t (.endTransaction tid producer commit) i j)
    {p chan : ℕ} {shard : Fin n} {request : CoordinationRequest}
    (hopened : At history p (.opened t chan shard (.coordinate request)))
    (hnames : request.names tid = true) (hip : i < p) (hpj : p < j) :
    Between history i p fun event => ¬ event.Opens t := by
  obtain ⟨call, next, i', exchanges, hspans', hfollows, hexplained, hcomplete⟩ :=
    opened_by h hopened
  obtain ⟨rfl, rfl⟩ := hspans.unique hspans' hip (Nat.le_of_lt hpj) hexplained.lt (Nat.le_refl _)
  obtain ⟨rfl, -⟩ := follows_end_request hfollows hnames
  intro k event hik hkp hat hopens
  cases event with
  | opened t' chan' shard' command' =>
      obtain rfl : t' = t := hopens
      obtain ⟨e, he, -⟩ := hcomplete k chan' shard' command' hik hkp hat
      exact absurd he List.not_mem_nil
  | _ => exact hopens

/-- It asks once. -/
theorem asked_once (hspans : Spans history t (.endTransaction tid producer commit) i j)
    {p p' chan chan' : ℕ} {shard shard' : Fin n} {request request' : CoordinationRequest}
    (hopened : At history p (.opened t chan shard (.coordinate request)))
    (hopened' : At history p' (.opened t chan' shard' (.coordinate request')))
    (hnames : request.names tid = true) (hnames' : request'.names tid = true) (hip : i < p)
    (hip' : i < p') (hpj : p < j) (hpj' : p' < j) : chan = chan' := by
  rcases Nat.lt_trichotomy p p' with hlt | rfl | hgt
  · exact absurd rfl (asked_first h hspans hopened' hnames' hip' hpj' p _ hip hlt hopened)
  · cases hopened.eq hopened'
    rfl
  · exact absurd rfl (asked_first h hspans hopened hnames hip hpj p' _ hip' hgt hopened')

end Runs

/-! ## Appends and ends -/

/-- A transactional append: the positions at which its call was made, its validation asked for and
accepted, its append sent and applied, and the channels of the two messages. -/
structure TxAppend (T : Type) where
  client : T
  tid : Bytes
  producer : ProducerIdentity
  key : TopicPartition
  records : List RecordData
  base : Int
  question : ℕ
  channel : ℕ
  began : ℕ
  asked : ℕ
  validated : ℕ
  sent : ℕ
  appended : ℕ

/-- An accepted end: the positions at which its call was made, and the end asked for and accepted,
and the channel of that message. -/
structure Ending (T : Type) where
  client : T
  tid : Bytes
  producer : ProducerIdentity
  commit : Bool
  completion : TransactionCompletion
  question : ℕ
  began : ℕ
  asked : ℕ
  ended : ℕ

variable {T : Type} {n : ℕ} [NeZero n] (history : List (BrokerEvent T n))

namespace TxAppend

variable (append : TxAppend T)

def call : Call :=
  .produceTransactional append.tid append.producer append.key.topic append.key.partition
    append.records

/-- What the coordinator is asked first. -/
abbrev request : CoordinationRequest :=
  .validateProduce append.tid append.producer append.key.topic append.key.partition

/-- What the owner of the partition is sent then. -/
abbrev command : PartitionCommand :=
  .produceTransactional append.key.topic append.key.partition append.records append.producer.id

/-- The append is one of the history. -/
structure Happened : Prop where
  spans : Spans history append.client append.call append.began append.sent
  asked : At history append.asked
    (.opened append.client append.question 0 (.coordinate append.request))
  validated : At history append.validated
    (.applied 0 append.question (.coordinate append.request) (.coordination (.ok .applied)))
  sent : At history append.sent
    (.opened append.client append.channel (shardIndex n append.key) append.command)
  appended : At history append.appended
    (.applied (shardIndex n append.key) append.channel append.command (.produced append.base))
  began_lt : append.began < append.asked
  asked_lt : append.asked < append.validated
  validated_lt : append.validated < append.sent
  sent_lt : append.sent < append.appended

/-- Its call returned, with success. -/
def Returned (j : ℕ) : Prop :=
  append.sent < j ∧ Spans history append.client append.call append.began j ∧
    At history j (.returned append.client append.call (.ok (.offset append.base)))

end TxAppend

namespace Ending

variable (ending : Ending T)

def call : Call := .endTransaction ending.tid ending.producer ending.commit

/-- The end is one of the history. -/
structure Happened : Prop where
  spans : Spans history ending.client ending.call ending.began ending.asked
  asked : At history ending.asked (.opened ending.client ending.question 0
    (.coordinate (.endTransaction ending.tid ending.producer ending.commit)))
  accepted : At history ending.ended
    (accepted ending.tid ending.producer ending.commit ending.completion ending.question)
  began_lt : ending.began < ending.asked
  asked_lt : ending.asked < ending.ended

/-- One of its resolutions is applied at the shard. -/
def Sends (shard : Fin n) (r : ℕ) : Prop :=
  ∃ p chan, ending.began < p ∧ Spans history ending.client ending.call ending.began p ∧
    At history p
      (.opened ending.client chan shard (.resolveTransaction ending.producer.id ending.commit)) ∧
    At history r
      (.applied shard chan (.resolveTransaction ending.producer.id ending.commit) .resolved)

/-- Its call returned, with success. -/
def Returned (j : ℕ) : Prop :=
  ending.began < j ∧ Spans history ending.client ending.call ending.began j ∧
    At history j (.returned ending.client ending.call (.ok .done))

end Ending

/-- The append was validated in the transaction that the end closed. -/
def Within (append : TxAppend T) (ending : Ending T) : Prop :=
  append.tid = ending.tid ∧ append.validated < ending.ended ∧
    Between history append.validated ending.ended fun event => ¬ Closes append.tid event

section Decidable

variable [DecidableEq T] (append : TxAppend T) (ending : Ending T) (j : ℕ)

instance : Decidable (append.Happened history) :=
  decidable_of_iff
    ((Spans history append.client append.call append.began append.sent ∧
        At history append.asked
          (.opened append.client append.question 0 (.coordinate append.request)) ∧
        At history append.validated (.applied 0 append.question (.coordinate append.request)
          (.coordination (.ok .applied))) ∧
        At history append.sent
          (.opened append.client append.channel (shardIndex n append.key) append.command) ∧
        At history append.appended (.applied (shardIndex n append.key) append.channel append.command
          (.produced append.base))) ∧
      append.began < append.asked ∧ append.asked < append.validated ∧
      append.validated < append.sent ∧ append.sent < append.appended)
    ⟨fun ⟨⟨h₁, h₂, h₃, h₄, h₅⟩, h₆, h₇, h₈, h₉⟩ => ⟨h₁, h₂, h₃, h₄, h₅, h₆, h₇, h₈, h₉⟩,
      fun ⟨h₁, h₂, h₃, h₄, h₅, h₆, h₇, h₈, h₉⟩ => ⟨⟨h₁, h₂, h₃, h₄, h₅⟩, h₆, h₇, h₈, h₉⟩⟩

instance : Decidable (ending.Happened history) :=
  decidable_of_iff
    ((Spans history ending.client ending.call ending.began ending.asked ∧
        At history ending.asked (.opened ending.client ending.question 0
          (.coordinate (.endTransaction ending.tid ending.producer ending.commit))) ∧
        At history ending.ended (accepted ending.tid ending.producer ending.commit
          ending.completion ending.question)) ∧
      ending.began < ending.asked ∧ ending.asked < ending.ended)
    ⟨fun ⟨⟨h₁, h₂, h₃⟩, h₄, h₅⟩ => ⟨h₁, h₂, h₃, h₄, h₅⟩,
      fun ⟨h₁, h₂, h₃, h₄, h₅⟩ => ⟨⟨h₁, h₂, h₃⟩, h₄, h₅⟩⟩

instance : Decidable (append.Returned history j) := by
  unfold TxAppend.Returned
  infer_instance

instance : Decidable (ending.Returned history j) := by
  unfold Ending.Returned
  infer_instance

instance : Decidable (Within history append ending) := by
  unfold Within
  infer_instance

end Decidable

variable {history} in
theorem TxAppend.Happened.validated_lt_appended {append : TxAppend T}
    (h : append.Happened history) : append.validated < append.appended :=
  Nat.lt_trans h.validated_lt h.sent_lt

section Runs

variable {history} [DecidableEq T] {broker : BrokerConfig} {config : ShardConfig}
  {net : BrokerNet T n}

variable (h : Runs (system broker config) (startShards n) history net)
include h

/-- **What a shard appended for a transaction** was sent by a call whose produce the coordinator had
accepted. -/
theorem exists_txAppend {a chan : ℕ} {shard : Fin n} {topic : Bytes} {partition : Int}
    {records : List RecordData} {producerId base : Int}
    (ha : At history a (.applied shard chan (.produceTransactional topic partition records producerId)
      (.produced base))) :
    ∃ append : TxAppend T, append.Happened history ∧ append.key = ⟨topic, partition⟩ ∧
      append.records = records ∧ append.producer.id = producerId ∧ append.base = base ∧
      append.appended = a := by
  obtain ⟨sent, t, hsent, hopened⟩ := h.applied_opened ha
  obtain ⟨call, next, began, exchanges, hspans, hfollows, hexplained, -⟩ := opened_by h hopened
  obtain ⟨tid, producer, chan', rfl, rfl, rfl, rfl⟩ := follows_append hfollows
  obtain ⟨asked, validated, hbegan, -, hasked, htold, hrest⟩ := hexplained
  have hlt := h.opened_lt_applied hasked htold
  refine ⟨⟨t, tid, producer, ⟨topic, partition⟩, records, base, chan', chan, began, asked, validated,
    sent, a⟩, ?_, rfl, rfl, rfl, rfl, rfl⟩
  exact ⟨hspans, hasked, htold, hopened, ha, hbegan, hlt, hrest, hsent⟩

/-- **What a shard resolved** was sent by a call whose end the coordinator had accepted, for a
partition enlisted then. -/
theorem exists_ending {r chan : ℕ} {shard : Fin n} {producerId : Int} {commit : Bool}
    {result : PartitionResult}
    (hr : At history r (.applied shard chan (.resolveTransaction producerId commit) result)) :
    ∃ ending : Ending T, ending.Happened history ∧ ending.Sends history shard r ∧
      ending.producer.id = producerId ∧ ending.commit = commit ∧ ending.ended < r ∧
      ∃ key ∈ ending.completion.partitions, shard = shardIndex n key := by
  obtain rfl : result = .resolved := applied_answer h hr
  obtain ⟨p, t, hpr, hopened⟩ := h.applied_opened hr
  obtain ⟨call, next, began, exchanges, hspans, hfollows, hexplained, -⟩ := opened_by h hopened
  have hbegan := hexplained.lt
  obtain ⟨tid, producer, completion, chan', rest, rfl, rfl, hkey, rfl⟩ := follows_resolve hfollows
  obtain ⟨asked, ended, hasked, hended, hopened', htold, hrest⟩ := hexplained
  have haccepted : At history ended (accepted tid producer commit completion chan') := htold
  have hlt := h.opened_lt_applied hopened' haccepted
  have hep := hrest.lt
  refine ⟨⟨t, tid, producer, commit, completion, chan', began, asked, ended⟩, ?_, ?_, rfl, rfl,
    Nat.lt_trans hep hpr, hkey⟩
  · exact ⟨hspans.mono (Nat.le_of_lt (Nat.lt_trans hlt hep)), hopened', haccepted, hasked, hlt⟩
  · exact ⟨p, chan, hbegan, hspans, hopened, hr⟩

/-- **An end that returned successfully** had the owner of every enlisted partition resolve. -/
theorem Ending.Returned.resolved {ending : Ending T} (hending : ending.Happened history) {j : ℕ}
    (hreturned : ending.Returned history j) {key : TopicPartition}
    (hkey : key ∈ ending.completion.partitions) :
    ∃ r, ending.Sends history (shardIndex n key) r ∧ ending.ended < r ∧ r < j := by
  obtain ⟨hspans, hasked, haccepted, hbegan, -⟩ := hending
  obtain ⟨hbj, hspans', hj⟩ := hreturned
  obtain ⟨i, exchanges, hspans'', hfollows, hexplained, -⟩ := returned_by h hj
  obtain ⟨rfl, -⟩ := hspans'.unique hspans'' hbj (Nat.le_refl _) hexplained.lt (Nat.le_refl _)
  obtain ⟨completion, chan', rest, rfl, hresolves⟩ := follows_end_ok hfollows
  obtain ⟨asked', ended, hbegan', -, hasked', htold, hrest⟩ := hexplained
  have haccepted' : At history ended
      (accepted ending.tid ending.producer ending.commit completion chan') := htold
  -- the call asks for the end once, so this is the end that was accepted
  have haj : ending.asked < j := by
    by_contra hge
    rcases Nat.lt_or_eq_of_le (Nat.le_of_not_lt hge) with hlt | rfl
    · exact absurd rfl (hspans.2 j _ hbj hlt hj)
    · cases hasked.eq hj
  have hname : (CoordinationRequest.endTransaction ending.tid ending.producer ending.commit).names
      ending.tid = true := beq_self_eq_true ending.tid
  have hlt' := h.opened_lt_applied hasked' haccepted'
  have hend := hrest.lt
  obtain rfl := asked_once h hspans' hasked hasked' hname hname hbegan hbegan' haj (by omega)
  obtain rfl := h.applied_once haccepted haccepted'
  have hcompletion := haccepted.eq haccepted'
  simp only [Event.applied.injEq, PartitionResult.coordination.injEq, Except.ok.injEq,
    CoordinationResult.transactionCompleted.injEq, true_and] at hcompletion
  rw [hcompletion] at hkey
  obtain ⟨chan'', hmem⟩ := hresolves key hkey
  obtain ⟨p, r, hep, -, hrj, hopened, hr⟩ := hrest.mem hmem
  have hr' : At history r (.applied (shardIndex n key) chan''
      (.resolveTransaction ending.producer.id ending.commit) .resolved) := hr
  have hpr := h.opened_lt_applied hopened hr'
  exact ⟨r, ⟨p, chan'', by omega, hspans'.mono (by omega), hopened, hr'⟩, by omega, hrj⟩

omit h [DecidableEq T] in
/-- A transaction has one end, and so one outcome. -/
theorem Within.commit_eq {append : TxAppend T} {ending ending' : Ending T}
    (h : Within history append ending) (h' : Within history append ending')
    (hending : ending.Happened history) (hending' : ending'.Happened history) :
    ending.commit = ending'.commit := by
  have hcloses : ∀ e : Ending T, Closes e.tid
      (accepted e.tid e.producer e.commit e.completion e.question : BrokerEvent T n) :=
    fun e => ⟨beq_self_eq_true e.tid, rfl⟩
  have haccepted := hending.accepted
  have haccepted' := hending'.accepted
  obtain ⟨htid, hlt, hopen⟩ := h
  obtain ⟨htid', hlt', hopen'⟩ := h'
  rcases Nat.lt_trichotomy ending.ended ending'.ended with hbefore | heq | hafter
  · refine absurd ?_ (hopen' ending.ended _ hlt hbefore haccepted)
    rw [htid]
    exact hcloses ending
  · rw [heq] at haccepted
    have hevent := haccepted.eq haccepted'
    simp only [Event.applied.injEq, PartitionCommand.coordinate.injEq,
      CoordinationRequest.endTransaction.injEq] at hevent
    exact hevent.2.2.1.2.2
  · refine absurd ?_ (hopen ending'.ended _ hlt' hafter haccepted')
    rw [htid']
    exact hcloses ending'

/-- **The end of an append's transaction** is its producer's, and hands out its partition. -/
theorem Within.enlisted {append : TxAppend T} {ending : Ending T}
    (hwithin : Within history append ending) (happend : append.Happened history)
    (hending : ending.Happened history) :
    ending.producer = append.producer ∧ append.key ∈ ending.completion.partitions := by
  obtain ⟨htid, hlt, hopen⟩ := hwithin
  obtain ⟨transaction, hentry, hidentity, hkey⟩ := enlisted_of_open h hlt
    (Nat.le_of_lt hending.accepted.lt) hopen (validated_enlisted h happend.validated)
  obtain ⟨transaction', hentry', hidentity', hpartitions, -⟩ := ended_entry h hending.accepted
  rw [← htid] at hentry'
  cases Option.some.inj (hentry.symm.trans hentry')
  refine ⟨hidentity'.symm.trans hidentity, ?_⟩
  rw [hpartitions, Std.ExtTreeSet.mem_toList]
  exact hkey

end Runs

end CharlotteBroker.Runtime
