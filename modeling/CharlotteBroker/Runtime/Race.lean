import CharlotteBroker.Runtime.Ledger
import CharlotteBroker.Runtime.RealTime
import CharlotteBroker.Runtime.Transactions

/-!
# Appends and resolutions that race

Between the validation of a transactional append and the append itself the transaction may be ended,
and between the end and its resolutions the next transaction may have begun. A resolution knows the
producer id only: it gives its outcome to every batch of that id on the shard, whichever transaction
the batch was appended in.

* `RaceFree` says what clients expect: a batch takes its outcome from the end of the transaction it
  was validated in and from nothing else, and has it once the append and that end have returned.
* `Disciplined` says what the order of the steps must be for that: no end between a validation and
  its append, no validation between an end and its resolutions, and no batch of an earlier
  transaction, with another outcome, on the shards an end goes to.
* `raceFree_of_disciplined`: in every run of that kind nothing races.
* `lateAppend`: a run in which an append comes after the resolution of its own transaction.
-/

namespace CharlotteBroker.Runtime

open CharlotteBroker.Core Lib Lib.Rpc

variable {T : Type} {n : ℕ}

variable {batch after : StoredBatch} {m : ℕ}

/-- An end under the producer id is accepted. -/
def EndsUnder (producerId : Int) : BrokerEvent T n → Prop
  | .applied _ _ (.coordinate (.endTransaction _ producer _)) (.coordination (.ok _)) =>
      producer.id = producerId
  | _ => False

/-- A produce under the producer id is accepted. -/
def ValidatesUnder (producerId : Int) : BrokerEvent T n → Prop
  | .applied _ _ (.coordinate (.validateProduce _ producer _ _)) (.coordination (.ok _)) =>
      producer.id = producerId
  | _ => False

variable [NeZero n] (config : ShardConfig) (history : List (BrokerEvent T n))

/-- The append's batch, as its partition's log stores it before the event at position `m`. -/
def TxAppend.Batch (append : TxAppend T) (m : ℕ) (batch : StoredBatch) : Prop :=
  batch ∈ ((viewAfter config (history.take m)).logs append.key).batches ∧
    batch.baseOffset = append.base

/-- Appends and resolutions do not race. -/
structure RaceFree : Prop where
  /-- What changes a batch is a resolution of the end of its own transaction. -/
  marked : ∀ append : TxAppend T, append.Happened history →
    ∀ k before after, append.appended < k → k < history.length →
      append.Batch config history k before → append.Batch config history (k + 1) after →
      after.state ≠ before.state →
      ∃ ending : Ending T, ending.Happened history ∧ Within history append ending ∧
        (∃ shard, ending.Sends history shard k) ∧ after.state = outcome ending.commit
  /-- Once the append and the end of its transaction have returned, the batch has its outcome. -/
  settled : ∀ (append : TxAppend T) (ending : Ending T), append.Happened history →
    ending.Happened history → Within history append ending →
    ∀ j j' m, append.Returned history j → ending.Returned history j' → j < m → j' < m →
      m ≤ history.length → ∀ batch, append.Batch config history m batch → batch.state ≠ .pending

/-- The steps come in an order that keeps transactions apart. -/
structure Disciplined : Prop where
  /-- No end of the producer id is accepted between a validation and the append it is for. -/
  appended_first : ∀ append : TxAppend T, append.Happened history →
    Between history append.validated append.appended fun event =>
      ¬ EndsUnder append.producer.id event
  /-- No produce of the producer id is validated between an end and a resolution it sends. -/
  resolved_first : ∀ (ending : Ending T) (shard : Fin n) (r : ℕ), ending.Happened history →
    ending.Sends history shard r →
    Between history ending.ended r fun event => ¬ ValidatesUnder ending.producer.id event
  /-- When an end is accepted, what its shards hold of other transactions of the producer id has
  that very outcome already. -/
  settled_first : ∀ (append : TxAppend T) (ending : Ending T), append.Happened history →
    ending.Happened history → append.producer.id = ending.producer.id →
    append.appended < ending.ended →
    (∃ key ∈ ending.completion.partitions, shardIndex n key = shardIndex n append.key) →
    ∀ batch, append.Batch config history ending.ended batch →
      Within history append ending ∨ batch.state = outcome ending.commit

/-! ## The life of one batch -/

section Runs

variable {config history} [DecidableEq T] {broker : BrokerConfig} {net : BrokerNet T n}
  {append : TxAppend T}

variable (h : Runs (system broker config) (startShards n) history net)
include h

/-- The owner appended the records at the log's end, for the producer id. -/
theorem TxAppend.Happened.appendTransactional (happend : append.Happened history) :
    ((viewAfter config (history.take append.appended)).logs append.key).appendTransactional
        append.records append.producer.id =
      ((viewAfter config (history.take (append.appended + 1))).logs append.key, .ok append.base) :=
  (applied_appends h happend.appended rfl).2

/-- From then on the batch is stored, or retention has dropped it. -/
theorem TxAppend.Happened.stored (happend : append.Happened history) (hm : append.appended < m) :
    Appended.Stored ⟨append.producer, append.key, append.base, append.records.length⟩
      ((viewAfter config (history.take m)).logs append.key) := by
  have hdone := happend.appendTransactional h
  have hfresh := @stored_of_appendTransactional _
    (viewAfter_wellFormed config (history.take append.appended) append.key) append.records
    append.producer append.base append.key (congrArg Prod.snd hdone)
  rw [hdone] at hfresh
  obtain ⟨ops, hops⟩ := viewAfter_logs_take config history append.key hm
  rw [hops]
  exact hfresh.run (viewAfter_wellFormed config _ append.key) ops

omit h [DecidableEq T] in
theorem TxAppend.Batch.eq {batch' : StoredBatch} (hbatch : append.Batch config history m batch)
    (hbatch' : append.Batch config history m batch') : batch = batch' :=
  (viewAfter_wellFormed config _ _).eq_of_baseOffset hbatch.1 hbatch'.1
    (hbatch.2.trans hbatch'.2.symm)

/-- It is appended pending. -/
theorem TxAppend.Batch.pending (happend : append.Happened history)
    (hbatch : append.Batch config history (append.appended + 1) batch) :
    batch.state = .pending := by
  have hwf := viewAfter_wellFormed config (history.take append.appended) append.key
  have hdone := happend.appendTransactional h
  obtain ⟨-, hbase, -⟩ := PartitionLog.appendBatch_ok hwf (congrArg Prod.snd hdone)
  obtain ⟨hmem, hbatch⟩ := hbatch
  have hlog : (((viewAfter config (history.take append.appended)).logs append.key).appendBatch
      append.records (some append.producer.id) .pending).1 =
        (viewAfter config (history.take (append.appended + 1))).logs append.key :=
    congrArg Prod.fst hdone
  rw [← hlog] at hmem
  rcases PartitionLog.mem_appendBatch hwf hmem with hold | ⟨-, rfl⟩
  · have hlt := hwf.baseOffset_lt hold
    omega
  · rfl

/-- **One event** leaves the batch as it is, or is a resolution of its producer id at its owner. -/
theorem TxAppend.Batch.step (happend : append.Happened history) {k : ℕ} (hk : append.appended < k)
    {event : BrokerEvent T n} (hat : At history k event)
    (hafter : append.Batch config history (k + 1) after) :
    append.Batch config history k after ∨
      ∃ before chan commit result, append.Batch config history k before ∧
        event = .applied (shardIndex n append.key) chan
          (.resolveTransaction append.producer.id commit) result ∧
        after.state = outcome commit := by
  have hwf := viewAfter_wellFormed config (history.take k) append.key
  have hstored := happend.stored h hk
  obtain ⟨hmem, hbase⟩ := hafter
  have hold : after.baseOffset <
      ((viewAfter config (history.take k)).logs append.key).nextOffset := by
    have hpos := hstored.positive
    have hbelow := hstored.below
    simp only at hpos hbelow
    omega
  rw [hat.take_succ, viewAfter_snoc] at hmem
  rcases event with _ | _ | _ | _ | _ | _ | ⟨shard, chan, command, result⟩ | _ | _ | _ | _ | _
  all_goals try exact Or.inl ⟨hmem, hbase⟩
  rcases View.serve_batch config _ shard command hwf hmem hold with
    hsame | ⟨producerId, commit, rfl, rfl, old, hmem', htx, rfl⟩
  · exact Or.inl ⟨hsame, hbase⟩
  · obtain ⟨-, htx'⟩ := hstored.batch_eq hwf hmem' hbase
    obtain rfl : producerId = append.producer.id := Option.some.inj (htx.symm.trans htx')
    exact Or.inr ⟨old, chan, commit, result, ⟨hmem', hbase⟩, rfl, rfl⟩

/-- **Back in time**: a batch found now was there at every moment since its append, and if it is
pending now it was pending then. -/
theorem TxAppend.Batch.earlier (happend : append.Happened history) {k : ℕ}
    (hk : append.appended < k) (hkm : k ≤ m) (hm : m ≤ history.length)
    (hbatch : append.Batch config history m batch) :
    ∃ before, append.Batch config history k before ∧
      (batch.state = .pending → before.state = .pending) := by
  induction m, hkm using Nat.le_induction generalizing batch with
  | base => exact ⟨batch, hbatch, id⟩
  | succ m hkm ih =>
      have hat : At history m history[m] := List.getElem?_eq_getElem hm
      rcases hbatch.step h happend (Nat.lt_of_lt_of_le hk hkm) hat with
        hsame | ⟨before, chan, commit, result, hbefore, -, hstate⟩
      · exact ih (Nat.le_of_succ_le hm) hsame
      · obtain ⟨first, hfirst, -⟩ := ih (Nat.le_of_succ_le hm) hbefore
        refine ⟨first, hfirst, fun hpending => ?_⟩
        rw [hstate] at hpending
        exact absurd hpending (outcome_ne_pending commit)

/-- A resolution of its producer id at its owner gives the batch the outcome. -/
theorem TxAppend.Batch.resolved (happend : append.Happened history) {r chan : ℕ}
    (hr : append.appended < r) {commit : Bool} {result : PartitionResult}
    (hat : At history r (.applied (shardIndex n append.key) chan
      (.resolveTransaction append.producer.id commit) result))
    (hafter : append.Batch config history (r + 1) after) : after.state = outcome commit := by
  have hwf := viewAfter_wellFormed config (history.take r) append.key
  obtain ⟨hmem, hbase⟩ := hafter
  have hlog : (viewAfter config (history.take (r + 1))).logs append.key =
      ((viewAfter config (history.take r)).logs append.key).commitTransaction append.producer.id
        commit := by
    rw [hat.take_succ, viewAfter_snoc]
    exact if_pos rfl
  rw [hlog] at hmem
  obtain ⟨old, hold, rfl⟩ := List.mem_map.mp hmem
  rw [resolve_baseOffset] at hbase
  obtain ⟨-, htx⟩ := (happend.stored h hr).batch_eq hwf hold hbase
  rw [resolve_of_eq commit htx]

/-! ## Disciplined runs -/

omit h [DecidableEq T] in
/-- An end of the producer id that comes after the validation comes after the append. -/
theorem Disciplined.appended_lt_ended (hd : Disciplined config history)
    (happend : append.Happened history) {ending : Ending T} (hending : ending.Happened history)
    (hproducer : ending.producer.id = append.producer.id)
    (hlt : append.validated < ending.ended) : append.appended < ending.ended := by
  have haccepted := hending.accepted
  rcases Nat.lt_trichotomy ending.ended append.appended with hbefore | heq | hafter
  · exact absurd hproducer (hd.appended_first append happend _ _ hlt hbefore haccepted)
  · rw [heq] at haccepted
    exact absurd (haccepted.eq happend.appended) (by simp)
  · exact hafter

/-- **What a resolution that meets the batch belongs to**: the end of the batch's own transaction,
or one whose outcome the batch had before that end. -/
theorem Disciplined.own_or_settled (hd : Disciplined config history)
    (happend : append.Happened history) {k chan : ℕ} (hk : append.appended < k) {commit : Bool}
    {result : PartitionResult} (hat : At history k (.applied (shardIndex n append.key) chan
      (.resolveTransaction append.producer.id commit) result)) {before : StoredBatch}
    (hbefore : append.Batch config history k before) :
    ∃ ending : Ending T, ending.Happened history ∧ ending.commit = commit ∧
      ending.Sends history (shardIndex n append.key) k ∧
      (Within history append ending ∨
        ∃ batch, append.appended < ending.ended ∧ ending.ended < k ∧
          append.Batch config history ending.ended batch ∧ batch.state = outcome commit) := by
  obtain ⟨ending, hending, hsends, hproducer, rfl, hended, key, hkey, howner⟩ := exists_ending h hat
  refine ⟨ending, hending, rfl, hsends, ?_⟩
  have haccepted := hending.accepted
  have hva := happend.validated_lt_appended
  rcases Nat.lt_trichotomy ending.ended append.validated with hlt | heq | hgt
  · -- a resolution of an earlier transaction that came after the validation
    exact absurd hproducer.symm
      (hd.resolved_first ending _ k hending hsends _ _ hlt (by omega) happend.validated)
  · rw [heq] at haccepted
    exact absurd (haccepted.eq happend.validated) (by simp)
  · have hlater := hd.appended_lt_ended happend hending hproducer hgt
    obtain ⟨batch, hbatch, -⟩ := hbefore.earlier h happend hlater (Nat.le_of_lt hended)
      (Nat.le_of_lt hat.lt)
    rcases hd.settled_first append ending happend hending hproducer.symm hlater
      ⟨key, hkey, howner.symm⟩ batch hbatch with hwithin | hstate
    · exact Or.inl hwithin
    · exact Or.inr ⟨batch, hlater, hended, hbatch, hstate⟩

/-- **At every moment** the batch is pending or has the outcome of its own transaction. -/
theorem Disciplined.own (hd : Disciplined config history) (happend : append.Happened history)
    (hm : append.appended < m) (hlen : m ≤ history.length)
    (hbatch : append.Batch config history m batch) :
    batch.state = .pending ∨ ∃ ending : Ending T, ending.Happened history ∧
      Within history append ending ∧ batch.state = outcome ending.commit := by
  induction m using Nat.strong_induction_on generalizing batch with
  | _ m ih =>
      obtain ⟨k, rfl⟩ : ∃ k, m = k + 1 := ⟨m - 1, by omega⟩
      rcases Nat.lt_or_eq_of_le (Nat.le_of_lt_succ hm) with hk | rfl
      · have hat : At history k history[k] := List.getElem?_eq_getElem hlen
        rcases hbatch.step h happend hk hat with
          hsame | ⟨before, chan, commit, result, hbefore, hevent, hstate⟩
        · exact ih k (Nat.lt_succ_self k) hk (Nat.le_of_succ_le hlen) hsame
        · rw [hevent] at hat
          obtain ⟨ending, hending, rfl, -, hwithin | ⟨settled, hlater, hended, hsettled, hold⟩⟩ :=
            hd.own_or_settled h happend hk hat hbefore
          · exact Or.inr ⟨ending, hending, hwithin, hstate⟩
          · rcases ih ending.ended (by omega) hlater (by omega) hsettled with
              hpending | ⟨own, hown, hwithin, hsame⟩
            · rw [hold] at hpending
              exact absurd hpending (outcome_ne_pending ending.commit)
            · exact Or.inr ⟨own, hown, hwithin, by rw [hstate, ← hold, hsame]⟩
      · exact Or.inl (hbatch.pending h happend)

/-- What changes the batch is a resolution of its own transaction's end. -/
theorem Disciplined.marked (hd : Disciplined config history) (happend : append.Happened history)
    {k : ℕ} (hk : append.appended < k) (hlen : k < history.length) {before : StoredBatch}
    (hbefore : append.Batch config history k before)
    (hafter : append.Batch config history (k + 1) after) (hne : after.state ≠ before.state) :
    ∃ ending : Ending T, ending.Happened history ∧ Within history append ending ∧
      (∃ shard, ending.Sends history shard k) ∧ after.state = outcome ending.commit := by
  have hat : At history k history[k] := List.getElem?_eq_getElem hlen
  rcases hafter.step h happend hk hat with
    hsame | ⟨before', chan, commit, result, hbefore', hevent, hstate⟩
  · exact absurd (congrArg StoredBatch.state (hsame.eq hbefore)) hne
  · rw [hevent] at hat
    obtain ⟨ending, hending, rfl, hsends, hwithin | ⟨settled, hlater, hended, hsettled, hold⟩⟩ :=
      hd.own_or_settled h happend hk hat hbefore
    · exact ⟨ending, hending, hwithin, ⟨_, hsends⟩, hstate⟩
    · -- the batch had this outcome already, and has it still
      refine absurd ?_ hne
      rcases hd.own h happend hk (Nat.le_of_lt hlen) hbefore with
        hpending | ⟨own, hown, hwithin, hsame⟩
      · obtain ⟨earlier, hearlier, hpended⟩ := hbefore.earlier h happend hlater
          (Nat.le_of_lt hended)
          (Nat.le_of_lt hlen)
        rw [hearlier.eq hsettled, hold] at hpended
        exact absurd (hpended hpending) (outcome_ne_pending ending.commit)
      · rcases hd.own h happend hlater (by omega) hsettled with
          hpending | ⟨own', hown', hwithin', hsame'⟩
        · rw [hold] at hpending
          exact absurd hpending (outcome_ne_pending ending.commit)
        · rw [hstate, hsame, hwithin.commit_eq hwithin' hown hown', ← hsame', hold]

/-- Once the end of its transaction has returned, the batch has its outcome. -/
theorem Disciplined.settled (hd : Disciplined config history) (happend : append.Happened history)
    {ending : Ending T} (hending : ending.Happened history) (hwithin : Within history append ending)
    {j : ℕ} (hreturned : ending.Returned history j) (hjm : j < m) (hlen : m ≤ history.length)
    (hbatch : append.Batch config history m batch) :
    batch.state ≠ .pending := by
  obtain ⟨hproducer, hkey⟩ := hwithin.enlisted h happend hending
  obtain ⟨r, ⟨p, chan, -, -, -, hr⟩, hended, hrj⟩ := hreturned.resolved h hending hkey
  have hlater := hd.appended_lt_ended happend hending (congrArg ProducerIdentity.id hproducer)
    hwithin.2.1
  obtain ⟨after, hafter, hpended⟩ := hbatch.earlier h happend (k := r + 1) (by omega)
    (by omega) hlen
  rw [hproducer] at hr
  have hstate := hafter.resolved h happend (by omega) hr
  intro hpending
  rw [hpended hpending] at hstate
  exact outcome_ne_pending ending.commit hstate.symm

omit h

/-- **In a disciplined run transactional appends and resolutions do not race**, for any number of
clients and every interleaving. -/
theorem raceFree_of_disciplined (h : Runs (system broker config) (startShards n) history net)
    (hd : Disciplined config history) : RaceFree config history where
  marked _ happend _ _ _ hk hlen hbefore hafter hne :=
    hd.marked h happend hk hlen hbefore hafter hne
  settled _ _ happend hending hwithin _ _ _ _ hreturned _ hjm hlen _ hbatch :=
    hd.settled h happend hending hwithin hreturned hjm hlen hbatch

end Runs

/-! ## Transactions in order -/

/-- The transaction of one producer id: what it is called, from where on it is used, and where it is
ended. -/
structure Slot where
  tid : Bytes
  opens : ℕ
  ends : ℕ

/-- The slot a plan has for the producer id; without one, an empty slot. -/
def slotOf (plan : List (Int × Slot)) (producerId : Int) : Slot :=
  (plan.lookup producerId).getD ⟨[], 0, 0⟩

/-- The event at position `k`, if it is about transactions at all, keeps to the slot of its producer
id. -/
def Belongs (plan : List (Int × Slot)) (k : ℕ) : BrokerEvent T n → Prop
  | .applied _ _ (.coordinate (.endTransaction tid producer _)) _ =>
      tid = (slotOf plan producer.id).tid ∧ k = (slotOf plan producer.id).ends
  | .applied _ _ (.coordinate (.validateProduce tid producer _ _)) _ =>
      tid = (slotOf plan producer.id).tid ∧ (slotOf plan producer.id).opens ≤ k ∧
        k < (slotOf plan producer.id).ends
  | .applied _ _ (.produceTransactional _ _ _ producerId) _ =>
      (slotOf plan producerId).opens ≤ k ∧ k < (slotOf plan producerId).ends
  | _ => True

instance (plan : List (Int × Slot)) (k : ℕ) :
    DecidablePred (Belongs plan k : BrokerEvent T n → Prop)
  | .applied _ _ (.coordinate (.endTransaction ..)) _ => inferInstanceAs (Decidable (_ ∧ _))
  | .applied _ _ (.coordinate (.validateProduce ..)) _ =>
      inferInstanceAs (Decidable (_ ∧ _ ∧ _))
  | .applied _ _ (.produceTransactional ..) _ => inferInstanceAs (Decidable (_ ∧ _))
  | .applied _ _ (.coordinate (.initProducer ..)) _
  | .applied _ _ (.coordinate (.addPartition ..)) _
  | .applied _ _ (.coordinate (.addOffset ..)) _ | .applied _ _ (.coordinate (.joinGroup ..)) _
  | .applied _ _ (.coordinate (.heartbeat ..)) _
  | .applied _ _ (.coordinate (.leaveGroup ..)) _
  | .applied _ _ (.coordinate (.leaveGroupAny ..)) _
  | .applied _ _ (.coordinate (.commitOffset ..)) _
  | .applied _ _ (.coordinate (.fetchOffset ..)) _ => isTrue trivial
  | .applied _ _ (.produce ..) _ | .applied _ _ (.fetch ..) _ | .applied _ _ (.listOffset ..) _
  | .applied _ _ .shutdown _ | .applied _ _ (.resolveTransaction ..) _ => isTrue trivial
  | .invoked .. | .opened .. | .sent .. | .refused .. | .gaveUp .. | .took ..
  | .answered .. | .polled .. | .received .. | .timedOut .. | .returned .. => isTrue trivial

/-- Every producer id has one transaction, which is ended once, after all its produces. -/
def Planned (plan : List (Int × Slot)) : Prop :=
  (∀ k < history.length, ∀ event ∈ history[k]?, Belongs plan k event) ∧
    ∀ entry ∈ plan, Between history entry.2.opens entry.2.ends fun event =>
      ¬ Closes entry.2.tid event

instance (plan : List (Int × Slot)) : Decidable (Planned history plan) := by
  unfold Planned
  infer_instance

variable {history} {plan : List (Int × Slot)}

omit [NeZero n] in
/-- No slot of a plan is closed before its end. -/
theorem Planned.open_until (h : Planned history plan) (producerId : Int) :
    Between history (slotOf plan producerId).opens (slotOf plan producerId).ends fun event =>
      ¬ Closes (slotOf plan producerId).tid event := by
  unfold slotOf
  rcases hslot : plan.lookup producerId with _ | slot
  · intro k event _ hk
    exact absurd hk (Nat.not_lt_zero k)
  · obtain ⟨before, after, rfl, -⟩ := List.lookup_eq_some_iff.mp hslot
    exact h.2 (producerId, slot) (List.mem_append_right _ List.mem_cons_self)

/-- Transactions that keep to their slots are disciplined, however their clients overlap. -/
theorem Planned.disciplined (h : Planned history plan) : Disciplined config history := by
  have hat : ∀ {k event}, At history k event → Belongs plan k event :=
    fun hat => h.1 _ hat.lt _ hat
  refine ⟨?_, ?_, ?_⟩
  · intro append happend k event hvk hka hk hends
    have happended : (slotOf plan append.producer.id).opens ≤ append.appended ∧
        append.appended < (slotOf plan append.producer.id).ends := hat happend.appended
    have hbelongs := hat hk
    unfold EndsUnder at hends
    split at hends
    · have hend := hends ▸ hbelongs.2
      omega
    · exact hends
  · intro ending shard r hending hsends k event hek hkr hk hvalidates
    have hended : ending.tid = (slotOf plan ending.producer.id).tid ∧
        ending.ended = (slotOf plan ending.producer.id).ends := hat hending.accepted
    have hbelongs := hat hk
    unfold ValidatesUnder at hvalidates
    split at hvalidates
    · have hend := hvalidates ▸ hbelongs.2.2
      omega
    · exact hvalidates
  · intro append ending happend hending hproducer _ _ _ _
    have hvalidated : append.tid = (slotOf plan append.producer.id).tid ∧
        (slotOf plan append.producer.id).opens ≤ append.validated ∧
        append.validated < (slotOf plan append.producer.id).ends := hat happend.validated
    have hended : ending.tid = (slotOf plan ending.producer.id).tid ∧
        ending.ended = (slotOf plan ending.producer.id).ends := hat hending.accepted
    rw [← hproducer] at hended
    refine Or.inl ⟨hvalidated.1.trans hended.1.symm, by omega, ?_⟩
    rw [hvalidated.1, hended.2]
    exact (h.open_until append.producer.id).mono hvalidated.2.1 (Nat.le_refl _)

/-- Two clients append to one partition at the same time, each in its own transaction; then one
commits while the other aborts. -/
def inOrder : List (Label (Fin 2) (Fin 2) Call) := List.flatten
  [visit 0 (.initProducer [120]) [0], visit 1 (.initProducer [121]) [0],
    visit 0 (.addTransactionPartition [120] ⟨1, 0⟩ [116] 0) [0],
    visit 1 (.addTransactionPartition [121] ⟨2, 0⟩ [116] 0) [0],
    [.invoke 0 (.produceTransactional [120] ⟨1, 0⟩ [116] 0 [⟨1, none, none⟩]),
      .invoke 1 (.produceTransactional [121] ⟨2, 0⟩ [116] 0 [⟨2, none, none⟩])],
    exchange 0 0, exchange 1 0, exchange 1 1, exchange 0 1, [.finish 0, .finish 1],
    [.invoke 0 (.endTransaction [120] ⟨1, 0⟩ true), .invoke 1 (.endTransaction [121] ⟨2, 0⟩ false)],
    exchange 0 0, exchange 1 0, exchange 1 1, exchange 0 1, [.finish 0, .finish 1]]

/-- The first client's append, which the log has second. -/
def prompt : TxAppend (Fin 2) where
  client := 0
  tid := [120]
  producer := ⟨1, 0⟩
  key := ⟨[116], 0⟩
  records := [⟨1, none, none⟩]
  base := 1
  question := 4
  channel := 7
  began := 32
  asked := 34
  validated := 37
  sent := 52
  appended := 55

/-- The second client's append, made inside the interval of the first. -/
def nested : TxAppend (Fin 2) where
  client := 1
  tid := [121]
  producer := ⟨2, 0⟩
  key := ⟨[116], 0⟩
  records := [⟨2, none, none⟩]
  base := 0
  question := 5
  channel := 6
  began := 33
  asked := 40
  validated := 43
  sent := 46
  appended := 49

/-- The first client's commit. -/
def closing : Ending (Fin 2) where
  client := 0
  tid := [120]
  producer := ⟨1, 0⟩
  commit := true
  completion := ⟨[⟨[116], 0⟩], []⟩
  question := 8
  began := 60
  asked := 62
  ended := 65

/-- The second client's abort, under way at the same time. -/
def aborting : Ending (Fin 2) where
  client := 1
  tid := [121]
  producer := ⟨2, 0⟩
  commit := false
  completion := ⟨[⟨[116], 0⟩], []⟩
  question := 9
  began := 61
  asked := 68
  ended := 71

/-- The calls of `inOrder`, each with where it returned. -/
def InOrder (history : List (BrokerEvent (Fin 2) 2)) : Prop :=
  prompt.Happened history ∧ nested.Happened history ∧ closing.Happened history ∧
    aborting.Happened history ∧ Within history prompt closing ∧ Within history nested aborting ∧
    prompt.Returned history 58 ∧ nested.Returned history 59 ∧ closing.Returned history 86 ∧
    aborting.Returned history 87

instance (history : List (BrokerEvent (Fin 2) 2)) : Decidable (InOrder history) :=
  inferInstanceAs (Decidable (_ ∧ _))

theorem raceFree_inOrder :
    ∃ (history : List (BrokerEvent (Fin 2) 2)) (net : BrokerNet (Fin 2) 2),
      Runs (system oneTopicBroker oneTopic) (startShards 2) history net ∧ InOrder history ∧
        Disciplined oneTopic history ∧ RaceFree oneTopic history := by
  obtain ⟨history, net, hrun, hcalls, hplanned⟩ :=
    exists_run (system oneTopicBroker oneTopic) (startShards 2) inOrder
      (fun history _ => InOrder history ∧
        Planned history [(1, ⟨[120], 37, 65⟩), (2, ⟨[121], 43, 71⟩)]) (by decide +kernel)
  exact ⟨history, net, hrun, hcalls, hplanned.disciplined oneTopic,
    raceFree_of_disciplined hrun (hplanned.disciplined oneTopic)⟩

/-! ## An append that comes too late -/

/-- The first client's append is validated; the second client ends the transaction, and the
partition's owner resolves it; only then is the append applied. -/
def lateAppend : List (Label (Fin 2) (Fin 2) Call) := List.flatten
  [visit 0 (.initProducer [120]) [0], visit 0 (.addTransactionPartition [120] ⟨1, 0⟩ [116] 0) [0],
    [.invoke 0 (.produceTransactional [120] ⟨1, 0⟩ [116] 0 [⟨1, none, none⟩])], exchange 0 0,
    visit 1 (.endTransaction [120] ⟨1, 0⟩ true) [0, 1], exchange 0 1, [.finish 0]]

def late : TxAppend (Fin 2) where
  client := 0
  tid := [120]
  producer := ⟨1, 0⟩
  key := ⟨[116], 0⟩
  records := [⟨1, none, none⟩]
  base := 0
  question := 2
  channel := 5
  began := 16
  asked := 17
  validated := 20
  sent := 37
  appended := 40

def early : Ending (Fin 2) where
  client := 1
  tid := [120]
  producer := ⟨1, 0⟩
  commit := true
  completion := ⟨[⟨[116], 0⟩], []⟩
  question := 3
  began := 23
  asked := 24
  ended := 27

/-- The batch the append leaves behind. -/
def lateBatch : StoredBatch := ⟨0, [⟨0, 1, none, none⟩], some 1, .pending⟩

/-- Append and end of one transaction have both returned successfully, and the batch is pending. -/
theorem not_raceFree_lateAppend :
    ∃ (history : List (BrokerEvent (Fin 2) 2)) (net : BrokerNet (Fin 2) 2),
      Runs (system oneTopicBroker oneTopic) (startShards 2) history net ∧
        late.Happened history ∧ early.Happened history ∧ Within history late early ∧
        late.Returned history 43 ∧ early.Returned history 36 ∧
        late.Batch oneTopic history history.length lateBatch ∧ ¬ RaceFree oneTopic history := by
  obtain ⟨history, net, hrun, hlate, hearly, hwithin, hdone, hdone', hlength, hpending⟩ :=
    exists_run (system oneTopicBroker oneTopic) (startShards 2) lateAppend
      (fun history net => late.Happened history ∧ early.Happened history ∧
        Within history late early ∧ late.Returned history 43 ∧ early.Returned history 36 ∧
        history.length = 44 ∧ lateBatch ∈ ((viewOf oneTopic (shardsOf net)).logs late.key).batches)
      (by decide +kernel)
  have hbatch : late.Batch oneTopic history history.length lateBatch := by
    refine ⟨?_, rfl⟩
    rw [List.take_length, ← (runs_refine hrun).2]
    exact hpending
  refine ⟨history, net, hrun, hlate, hearly, hwithin, hdone, hdone', hbatch, fun hfree => ?_⟩
  exact hfree.settled late early hlate hearly hwithin 43 36 history.length hdone hdone' (by omega)
    (by omega) (Nat.le_refl _) _ hbatch rfl

end CharlotteBroker.Runtime
