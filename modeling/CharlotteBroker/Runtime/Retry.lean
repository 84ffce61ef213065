import CharlotteBroker.Runtime.Transactions

/-!
# An interrupted end of a transaction

`end_transaction` first has the coordinator close the transaction and hand out what was enlisted,
and only then goes from shard to shard. When a shard cannot be reached the call fails half-way, and
nothing but the failed call remembers which partitions were enlisted.

* `Retry` describes a call that failed so, and a second call of the same kind after it.
* `retry_refused`: in every run in which nobody else asks about the transactional id, the second
  call does not succeed. The coordinator refuses it, unless that fails for want of a mailbox or a
  reply too.
* `forgottenPartition`: a run in which one slow shard leaves a batch of another pending for good.
-/

namespace CharlotteBroker.Runtime

open CharlotteBroker.Core Lib Lib.Rpc

/-! ## What an end asks the coordinator -/

section Programs

variable {n : ℕ} [NeZero n] {exchanges : List (Exchange (Fin n) PartitionCommand PartitionResult)}
  {catalog : TopicCatalog} {tid : Bytes} {producer : ProducerIdentity} {commit : Bool}

/-- An end that returned had asked the coordinator first, and passed on what went wrong there. -/
theorem follows_end_ret {result : Except BrokerError Answer}
    (h : ((Call.endTransaction tid producer commit).program (n := n) catalog).run.Follows exchanges
      (.ret result)) :
    ∃ chan reply rest, exchanges =
        ⟨chan, 0, .coordinate (.endTransaction tid producer commit), reply⟩ :: rest ∧
      (∀ fault, reply = .error fault → result = .error (faultError fault)) ∧
      ∀ error, reply = .ok (.coordination (.error error)) →
        result = .error (.coordination error) := by
  rcases exchanges with _ | ⟨⟨chan, shard, command, reply⟩, rest⟩
  · cases (Prog.follows_nil _ _).mp h
  · obtain ⟨hshard, hcommand, hrest⟩ := h
    simp only at hshard hcommand
    subst hshard hcommand
    refine ⟨chan, reply, rest, rfl, ?_, ?_⟩
    · rintro fault rfl
      exact Prog.ret.inj ((Prog.follows_ret _ _ _).mp hrest).2
    · rintro error rfl
      exact Prog.ret.inj ((Prog.follows_ret _ _ _).mp hrest).2

end Programs

/-! ## A call made again -/

variable {T : Type} {n : ℕ}

/-- The thread opens the channel. -/
def OpensChan (t : T) (chan : ℕ) : BrokerEvent T n → Prop
  | .opened t' chan' _ _ => t' = t ∧ chan' = chan
  | _ => False

/-- The thread opens the channel for a resolution. -/
def OpensResolve (t : T) (chan : ℕ) (producerId : Int) (commit : Bool) : BrokerEvent T n → Prop
  | .opened t' chan' _ command =>
      t' = t ∧ chan' = chan ∧ command = .resolveTransaction producerId commit
  | _ => False

/-- The thread stops offering what the channel was opened for, or waiting for the reply to it. -/
def Abandons (t : T) (chan : ℕ) : BrokerEvent T n → Prop
  | .gaveUp t' chan' => t' = t ∧ chan' = chan
  | .timedOut t' chan' => t' = t ∧ chan' = chan
  | _ => False

section Decidable

variable [DecidableEq T]

instance (t : T) (chan : ℕ) : DecidablePred (OpensChan t chan : BrokerEvent T n → Prop)
  | .opened t' chan' _ _ => inferInstanceAs (Decidable (t' = t ∧ chan' = chan))
  | .invoked .. | .sent .. | .refused .. | .gaveUp .. | .took .. | .applied ..
  | .answered .. | .polled .. | .received .. | .timedOut .. | .returned .. => isFalse id

instance (t : T) (chan : ℕ) (producerId : Int) (commit : Bool) :
    DecidablePred (OpensResolve t chan producerId commit : BrokerEvent T n → Prop)
  | .opened t' chan' _ command =>
      inferInstanceAs (Decidable
        (t' = t ∧ chan' = chan ∧ command = .resolveTransaction producerId commit))
  | .invoked .. | .sent .. | .refused .. | .gaveUp .. | .took .. | .applied ..
  | .answered .. | .polled .. | .received .. | .timedOut .. | .returned .. => isFalse id

instance (t : T) (chan : ℕ) : DecidablePred (Abandons t chan : BrokerEvent T n → Prop)
  | .gaveUp t' chan' => inferInstanceAs (Decidable (t' = t ∧ chan' = chan))
  | .timedOut t' chan' => inferInstanceAs (Decidable (t' = t ∧ chan' = chan))
  | .invoked .. | .opened .. | .sent .. | .refused .. | .took .. | .applied ..
  | .answered .. | .polled .. | .received .. | .returned .. => isFalse id

end Decidable

/-- A call of `end_transaction`, from `began` to `ended`, the channel on which it was let down, and
the same call made again, from `resumed` to `finished`. -/
structure Retry (T : Type) where
  tid : Bytes
  producer : ProducerIdentity
  commit : Bool
  client : T
  began : ℕ
  lost : ℕ
  failure : BrokerError
  ended : ℕ
  retrier : T
  resumed : ℕ
  result : Except BrokerError Answer
  finished : ℕ

namespace Retry

variable (retry : Retry T) (history : List (BrokerEvent T n))

def call : Call := .endTransaction retry.tid retry.producer retry.commit

/-- The first call failed because a partition shard could not be reached. -/
def Interrupted : Prop :=
  Spans history retry.client retry.call retry.began retry.ended ∧
    Occurs history retry.began retry.ended
      (OpensResolve retry.client retry.lost retry.producer.id retry.commit) ∧
    Occurs history retry.began retry.ended (Abandons retry.client retry.lost) ∧
    At history retry.ended (.returned retry.client retry.call (.error retry.failure))

/-- The call was made again, and returned. -/
def Resumed : Prop :=
  retry.ended < retry.resumed ∧ retry.resumed < retry.finished ∧
    Spans history retry.retrier retry.call retry.resumed retry.finished ∧
    At history retry.finished (.returned retry.retrier retry.call retry.result)

/-- The event is not a question about the transactional id by anybody else. -/
def NotForeign : BrokerEvent T n → Prop
  | .applied _ chan (.coordinate request) _ => request.names retry.tid = true →
      Occurs history retry.began retry.ended (OpensChan retry.client chan) ∨
        Occurs history retry.resumed retry.finished (OpensChan retry.retrier chan)
  | _ => True

instance [DecidableEq T] : DecidablePred (retry.NotForeign history)
  | .applied _ chan (.coordinate request) _ =>
      inferInstanceAs (Decidable (request.names retry.tid = true →
        Occurs history retry.began retry.ended (OpensChan retry.client chan) ∨
          Occurs history retry.resumed retry.finished (OpensChan retry.retrier chan)))
  | .applied _ _ (.produce ..) _ | .applied _ _ (.produceTransactional ..) _
  | .applied _ _ (.fetch ..) _ | .applied _ _ (.listOffset ..) _ | .applied _ _ .shutdown _
  | .applied _ _ (.resolveTransaction ..) _ => isTrue trivial
  | .invoked .. | .opened .. | .sent .. | .refused .. | .gaveUp .. | .took ..
  | .answered .. | .polled .. | .received .. | .timedOut .. | .returned .. => isTrue trivial

/-- Nobody else acted on the transactional id. -/
def Alone : Prop := Between history retry.began retry.finished (retry.NotForeign history)

/-- The second call succeeded, and when it returned no batch of the producer was pending in a
partition that the first call's end had handed out. -/
def Completed [NeZero n] (config : ShardConfig) : Prop :=
  retry.result = .ok .done ∧
    ∀ k chan completion, retry.began < k → k < retry.ended →
      At history k (accepted retry.tid retry.producer retry.commit completion chan) →
      ∀ key ∈ completion.partitions,
        ∀ batch ∈ ((viewAfter config (history.take retry.finished)).logs key).batches,
          batch.transaction = some retry.producer.id → batch.state ≠ .pending

section Decidable

variable [DecidableEq T]

instance : Decidable (retry.Interrupted history) := by
  unfold Interrupted
  infer_instance

instance : Decidable (retry.Resumed history) := by
  unfold Resumed
  infer_instance

instance : Decidable (retry.Alone history) := by
  unfold Alone
  infer_instance

end Decidable

end Retry

/-! ## The retry is refused -/

section Runs

variable [NeZero n] [DecidableEq T] {broker : BrokerConfig} {config : ShardConfig}
  {history : List (BrokerEvent T n)} {net : BrokerNet T n} {t : T} {tid : Bytes}
  {producer : ProducerIdentity} {commit : Bool} {i j : ℕ}

/-- What is applied for an end about its transactional id is its one request. -/
theorem asked_eq (h : Runs (system broker config) (startShards n) history net)
    (hspans : Spans history t (.endTransaction tid producer commit) i j) {q k m chan chan' : ℕ}
    {shard shard' : Fin n} {request request' : CoordinationRequest}
    {result result' : PartitionResult}
    (hopened : At history q (.opened t chan shard (.coordinate request))) (hiq : i < q)
    (hqj : q < j) (hnames : request.names tid = true)
    (hk : At history k (.applied shard chan (.coordinate request) result))
    (hm : At history m (.applied shard' chan' (.coordinate request') result'))
    (hnames' : request'.names tid = true) (hown : Occurs history i j (OpensChan t chan')) :
    m = k := by
  obtain ⟨p, event, hip, hpj, hp, hopens⟩ := hown
  cases event with
  | opened t' chan'' shard'' command =>
      obtain ⟨rfl, rfl⟩ := hopens
      obtain ⟨p', t'', -, hp'⟩ := h.applied_opened hm
      obtain rfl := h.opened_once hp hp'
      cases hp.eq hp'
      obtain rfl := asked_once h hspans hopened hp hnames hnames' hiq hip hqj hpj
      exact h.applied_once hm hk
  | _ => exact hopens.elim

/-- Between the two calls' requests nobody asks about the transactional id. -/
theorem Retry.Alone.quiet (h : Runs (system broker config) (startShards n) history net)
    {retry : Retry T} (halone : retry.Alone history)
    (hfirst : Spans history retry.client retry.call retry.began retry.ended)
    (hsecond : Spans history retry.retrier retry.call retry.resumed retry.finished)
    {q k q' k' chan chan' : ℕ} {result result' : PartitionResult}
    (hq : At history q (.opened retry.client chan 0
      (.coordinate (.endTransaction retry.tid retry.producer retry.commit))))
    (hk : At history k (.applied 0 chan
      (.coordinate (.endTransaction retry.tid retry.producer retry.commit)) result))
    (hq' : At history q' (.opened retry.retrier chan' 0
      (.coordinate (.endTransaction retry.tid retry.producer retry.commit))))
    (hk' : At history k' (.applied 0 chan'
      (.coordinate (.endTransaction retry.tid retry.producer retry.commit)) result'))
    (hbegan : retry.began < q) (hqk : q ≤ k) (hended : q < retry.ended)
    (hresumed : retry.resumed < q') (hqk' : q' ≤ k') (hfinished : k' < retry.finished) :
    Between history k k' fun event => ¬ Asks retry.tid event := by
  have hnames : (CoordinationRequest.endTransaction retry.tid retry.producer retry.commit).names
      retry.tid = true := beq_self_eq_true retry.tid
  intro m event hkm hmk hm hasks
  unfold Asks at hasks
  split at hasks
  · next shard chan'' request answer =>
      rcases halone m _ (by omega) (by omega) hm hasks with hown | hown
      · have heq := asked_eq h hfirst hq hbegan hended hnames hk hm hasks hown
        omega
      · have heq := asked_eq h hsecond hq' hresumed (by omega) hnames hk' hm hasks hown
        omega
  · exact hasks

/-- **An interrupted end cannot be completed by making it again.** In every run in which nobody else
acts on the transactional id, the second call is refused by the coordinator, which has forgotten
what was enlisted, or does not get as far as being answered. -/
theorem retry_refused (h : Runs (system broker config) (startShards n) history net)
    {retry : Retry T} (hinterrupted : retry.Interrupted history) (hresumed : retry.Resumed history)
    (halone : retry.Alone history) :
    (retry.result = .error (.coordination .invalidTransactionState) ∨
        retry.result = .error .mailboxUnavailable ∨ retry.result = .error .replyTimeout) ∧
      ¬ retry.Completed history config := by
  have hrefused : retry.result = .error (.coordination .invalidTransactionState) ∨
      retry.result = .error .mailboxUnavailable ∨ retry.result = .error .replyTimeout := by
    obtain ⟨hfirst, ⟨p, event, hbp, hpe, hp, hopens⟩, -, -⟩ := hinterrupted
    obtain ⟨hlater, hlast, hsecond, hreturned⟩ := hresumed
    unfold OpensResolve at hopens
    split at hopens
    · next t' chan shard command =>
        obtain ⟨rfl, -, rfl⟩ := hopens
        -- the coordinator accepted the first end, at `k`
        obtain ⟨q, k, chan, completion, hbq, hqk, hkp, hq, hk⟩ :=
          accepted_of_resolving h hfirst hp hbp hpe
        obtain ⟨-, -, -, -, hentry⟩ := ended_entry h hk
        obtain ⟨i, exchanges, hspans, hfollows, hexplained, -⟩ := returned_by h hreturned
        obtain ⟨rfl, -⟩ :=
          hsecond.unique hspans hlast (Nat.le_refl _) hexplained.lt (Nat.le_refl _)
        obtain ⟨chan', reply, rest, rfl, hfault, herror⟩ := follows_end_ret hfollows
        obtain ⟨q', k', hrq, hqk', hq', htold, hrest⟩ := hexplained
        rcases reply with (_ | _) | answer
        · exact Or.inr (Or.inl (hfault _ rfl))
        · exact Or.inr (Or.inr (hfault _ rfl))
        · -- the second end is answered at `k'`, from the entry the first one left
          have hfinished := hrest.lt
          have hk' : At history k' (.applied 0 chan'
              (.coordinate (.endTransaction retry.tid retry.producer retry.commit)) answer) := htold
          have hquiet := halone.quiet h hfirst hsecond hq hk hq' hk' hbq hqk (by omega) hrq hqk'
            hfinished
          rw [← entry_of_quiet (by omega) (Nat.le_of_lt hk'.lt) hquiet] at hentry
          obtain rfl := end_refused h hk' hentry
          exact Or.inl (herror _ rfl)
    · exact hopens.elim
  refine ⟨hrefused, ?_⟩
  rintro ⟨hok, -⟩
  rw [hok] at hrefused
  simp at hrefused

end Runs

/-! ## A partition nobody remembers -/

/-- A client enlists two partitions and appends to the second. The shard of the first is slow to
answer the resolution, so the commit fails before it gets to the second; later the client makes
the commit again. -/
def slowShard : List (Label (Fin 1) (Fin 2) Call) := List.flatten
  [visit 0 (.initProducer [120]) [0], visit 0 (.addTransactionPartition [120] ⟨1, 0⟩ [116] 0) [0],
    visit 0 (.addTransactionPartition [120] ⟨1, 0⟩ [116] 1) [0],
    visit 0 (.produceTransactional [120] ⟨1, 0⟩ [116] 1 [⟨1, none, none⟩]) [0, 0],
    [.invoke 0 (.endTransaction [120] ⟨1, 0⟩ true)], exchange 0 0,
    [.openChan 0, .send 0, .poll 0, .timeOut 0, .finish 0, .take 1, .apply 1, .answer 1],
    visit 0 (.endTransaction [120] ⟨1, 0⟩ true) [0]]

def forgotten : Retry (Fin 1) where
  tid := [120]
  producer := ⟨1, 0⟩
  commit := true
  client := 0
  began := 38
  lost := 6
  failure := .replyTimeout
  ended := 49
  retrier := 0
  resumed := 53
  result := .error (.coordination .invalidTransactionState)
  finished := 60

/-- The batch the second partition's shard still holds when all is over. -/
def pendingBatch : StoredBatch := ⟨0, [⟨0, 1, none, none⟩], some 1, .pending⟩

theorem exists_slowShard :
    ∃ (history : List (BrokerEvent (Fin 1) 2)) (net : BrokerNet (Fin 1) 2),
      Runs (system oneTopicBroker oneTopic) (startShards 2) history net ∧
        forgotten.Interrupted history ∧ forgotten.Resumed history ∧ forgotten.Alone history ∧
        At history 42 (accepted [120] ⟨1, 0⟩ true ⟨[⟨[116], 0⟩, ⟨[116], 1⟩], []⟩ 5) ∧
        pendingBatch ∈ ((viewOf oneTopic (shardsOf net)).logs ⟨[116], 1⟩).batches :=
  exists_run (system oneTopicBroker oneTopic) (startShards 2) slowShard _ (by decide +kernel)

/-- The commit failed at the slow shard, was made again when that shard had answered, and was
refused; the batch in the second enlisted partition is pending still. -/
theorem forgottenPartition :
    ∃ (history : List (BrokerEvent (Fin 1) 2)) (net : BrokerNet (Fin 1) 2),
      Runs (system oneTopicBroker oneTopic) (startShards 2) history net ∧
        forgotten.Interrupted history ∧ forgotten.Resumed history ∧ forgotten.Alone history ∧
        ¬ forgotten.Completed history oneTopic ∧
        ∃ k completion chan, At history k (accepted forgotten.tid forgotten.producer
            forgotten.commit completion chan) ∧
          ∃ key ∈ completion.partitions,
            pendingBatch ∈ ((viewAfter oneTopic history).logs key).batches := by
  obtain ⟨history, net, hrun, hinterrupted, hresumed, halone, haccepted, hpending⟩ :=
    exists_slowShard
  refine ⟨history, net, hrun, hinterrupted, hresumed, halone, ?_, 42, _, 5, haccepted, ⟨[116], 1⟩,
    by simp, ?_⟩
  · rintro ⟨hok, -⟩
    cases hok
  · rw [← (runs_refine hrun).2]
    exact hpending

theorem retry_refused_forgotten :
    ∃ (history : List (BrokerEvent (Fin 1) 2)) (net : BrokerNet (Fin 1) 2),
      Runs (system oneTopicBroker oneTopic) (startShards 2) history net ∧
        forgotten.Interrupted history ∧ forgotten.Resumed history ∧ forgotten.Alone history ∧
        (forgotten.result = .error (.coordination .invalidTransactionState) ∨
          forgotten.result = .error .mailboxUnavailable ∨
          forgotten.result = .error .replyTimeout) ∧
        ¬ forgotten.Completed history oneTopic := by
  obtain ⟨history, net, hrun, hinterrupted, hresumed, halone, -⟩ := exists_slowShard
  exact ⟨history, net, hrun, hinterrupted, hresumed, halone,
    retry_refused hrun hinterrupted hresumed halone⟩

end CharlotteBroker.Runtime
