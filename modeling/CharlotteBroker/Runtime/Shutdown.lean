import CharlotteBroker.Runtime.Broker
import Mathlib.Data.Fintype.Card

/-!
# Shutting the broker down

Any number of threads call `shutdown` while the shards work. A call that finds the flag unset sends
a `Shutdown` command to every shard and waits for as many acknowledgements; either loop may run out
of attempts. A call that finds it set returns at once.

* `Step` is one step of a caller or of a shard, `Runs` any interleaving. A mailbox may refuse at any
  time, and an acknowledgement may be lost.
* A call that has counted its acknowledgements has stopped every shard: a shard answers once, so
  there are never more acknowledgements than stopped shards (`Counted`).
* The flag is set before the first command is sent and stays set when the call fails. So a call
  means what it says only if it does not come between the first call and its success
  (`okMeansStopped`).
-/

namespace CharlotteBroker.Runtime.Shutdown

/-! ## States -/

/-- A command in a shard's mailbox. The replies to other commands go to their own callers. -/
inductive Mail
  | shutdown (chan : ℕ)
  | other (command : PartitionCommand)
  deriving DecidableEq

/-- Whether a shard's loop runs, has taken its `Shutdown` command, or has answered it and
returned. -/
inductive Stage
  | running
  | stopping (chan : ℕ)
  | stopped
  deriving DecidableEq

/-- Source: `partition.rs`, `partition_task`. Kind: D -/
structure ShardTask where
  shard : Shard
  mailbox : List Mail
  stage : Stage

/-- Where a call of `shutdown` stands: which shard is sent to next, how many acknowledgements have
come, and how many attempts the current loop has left.
Source: `broker.rs`, `Broker::shutdown`. Kind: D -/
inductive Caller
  | idle
  | called
  | opening
  | sending (chan : ℕ) (next : ℕ) (left : ℕ)
  | waiting (chan : ℕ) (acknowledgements : ℕ) (left : ℕ)
  | returning (result : Except BrokerError Unit)
  deriving DecidableEq

/-- What happened in a step. -/
inductive Event (T : Type) (n : ℕ)
  | called (thread : T)
  | found (thread : T) (already : Bool)
  | channelFailed (thread : T)
  | opened (thread : T) (chan : ℕ)
  | sent (thread : T) (shard : Fin n)
  | refused (thread : T)
  | gaveUp (thread : T)
  | sentAll (thread : T)
  | polled (thread : T)
  | acknowledged (thread : T)
  | unexpected (thread : T)
  | timedOut (thread : T)
  | counted (thread : T)
  | returned (thread : T) (result : Except BrokerError Unit)
  | posted (shard : Fin n)
  | served (shard : Fin n)
  | took (shard : Fin n)
  | answered (shard : Fin n)
  deriving DecidableEq

/-- The broker, its callers and its shards. -/
structure Net (T : Type) (n : ℕ) where
  flag : Bool
  tasks : Fin n → ShardTask
  callers : T → Caller
  acks : ℕ → List PartitionResult
  nextChan : ℕ

variable {T : Type} {n : ℕ}

namespace Net

/-- The system with one shard moved. -/
def setTask (net : Net T n) (shard : Fin n) (task : ShardTask) : Net T n :=
  { net with tasks := Function.update net.tasks shard task }

@[simp] theorem tasks_setTask (net : Net T n) (shard shard' : Fin n) (task : ShardTask) :
    (net.setTask shard task).tasks shard' = if shard' = shard then task else net.tasks shard' :=
  Function.update_apply _ _ _ _

@[simp] theorem callers_setTask (net : Net T n) (shard : Fin n) (task : ShardTask) :
    (net.setTask shard task).callers = net.callers := rfl

@[simp] theorem acks_setTask (net : Net T n) (shard : Fin n) (task : ShardTask) :
    (net.setTask shard task).acks = net.acks := rfl

@[simp] theorem flag_setTask (net : Net T n) (shard : Fin n) (task : ShardTask) :
    (net.setTask shard task).flag = net.flag := rfl

/-- The system with other acknowledgements in one channel. -/
def setAcks (net : Net T n) (chan : ℕ) (results : List PartitionResult) : Net T n :=
  { net with acks := Function.update net.acks chan results }

@[simp] theorem acks_setAcks (net : Net T n) (chan chan' : ℕ) (results : List PartitionResult) :
    (net.setAcks chan results).acks chan' = if chan' = chan then results else net.acks chan' :=
  Function.update_apply _ _ _ _

@[simp] theorem callers_setAcks (net : Net T n) (chan : ℕ) (results : List PartitionResult) :
    (net.setAcks chan results).callers = net.callers := rfl

@[simp] theorem tasks_setAcks (net : Net T n) (chan : ℕ) (results : List PartitionResult) :
    (net.setAcks chan results).tasks = net.tasks := rfl

@[simp] theorem flag_setAcks (net : Net T n) (chan : ℕ) (results : List PartitionResult) :
    (net.setAcks chan results).flag = net.flag := rfl

variable [DecidableEq T]

/-- The system with one caller moved. -/
def setCaller (net : Net T n) (thread : T) (caller : Caller) : Net T n :=
  { net with callers := Function.update net.callers thread caller }

@[simp] theorem callers_setCaller (net : Net T n) (t t' : T) (caller : Caller) :
    (net.setCaller t caller).callers t' = if t' = t then caller else net.callers t' :=
  Function.update_apply _ _ _ _

@[simp] theorem tasks_setCaller (net : Net T n) (t : T) (caller : Caller) :
    (net.setCaller t caller).tasks = net.tasks := rfl

@[simp] theorem acks_setCaller (net : Net T n) (t : T) (caller : Caller) :
    (net.setCaller t caller).acks = net.acks := rfl

@[simp] theorem flag_setCaller (net : Net T n) (t : T) (caller : Caller) :
    (net.setCaller t caller).flag = net.flag := rfl

end Net

/-- A started broker. -/
def Net.start : Net T n where
  flag := false
  tasks _ := ⟨.new, [], .running⟩
  callers _ := .idle
  acks _ := []
  nextChan := 0

/-! ## Steps -/

/-- The attempts of a retry loop: `max_retries.max(1)`. -/
def attempts (broker : BrokerConfig) : ℕ := max broker.maxRetries 1

variable [DecidableEq T]

/-- One step.
Source: `broker.rs`, `Broker::shutdown`, `send_with_retry`, `wait_reply`, and `partition.rs`,
`partition_task`, `respond`. Kind: D -/
inductive Step (config : ShardConfig) (broker : BrokerConfig) : Net T n → Event T n → Net T n → Prop
  | call {net : Net T n} {t : T} (ht : net.callers t = .idle) :
      Step config broker net (.called t) (net.setCaller t .called)
  | swap {net : Net T n} {t : T} (ht : net.callers t = .called) :
      Step config broker net (.found t net.flag)
        { net.setCaller t (if net.flag then .returning (.ok ()) else .opening) with flag := true }
  | channelFails {net : Net T n} {t : T} (ht : net.callers t = .opening) :
      Step config broker net (.channelFailed t)
        (net.setCaller t (.returning (.error .invalidConfig)))
  | openChan {net : Net T n} {t : T} (ht : net.callers t = .opening) :
      Step config broker net (.opened t net.nextChan)
        { (net.setCaller t (.sending net.nextChan 0 (attempts broker))).setAcks net.nextChan [] with
          nextChan := net.nextChan + 1 }
  | send {net : Net T n} {t : T} {chan left : ℕ} {shard : Fin n}
      (ht : net.callers t = .sending chan shard left) (hleft : 0 < left)
      (hroom : (net.tasks shard).mailbox.length < broker.mailboxCapacity) :
      Step config broker net (.sent t shard)
        ((net.setCaller t (.sending chan (shard + 1) (attempts broker))).setTask shard
          { net.tasks shard with mailbox := (net.tasks shard).mailbox ++ [.shutdown chan] })
  | refuse {net : Net T n} {t : T} {chan left next : ℕ}
      (ht : net.callers t = .sending chan next left) (hnext : next < n) (hleft : 0 < left) :
      Step config broker net (.refused t) (net.setCaller t (.sending chan next (left - 1)))
  | giveUp {net : Net T n} {t : T} {chan next : ℕ}
      (ht : net.callers t = .sending chan next 0) (hnext : next < n) :
      Step config broker net (.gaveUp t)
        (net.setCaller t (.returning (.error .mailboxUnavailable)))
  | sentAll {net : Net T n} {t : T} {chan left : ℕ} (ht : net.callers t = .sending chan n left) :
      Step config broker net (.sentAll t) (net.setCaller t (.waiting chan 0 (attempts broker)))
  | receive {net : Net T n} {t : T} {chan count left : ℕ} {rest : List PartitionResult}
      (ht : net.callers t = .waiting chan count left) (hcount : count < n) (hleft : 0 < left)
      (hacks : net.acks chan = .stopped :: rest) :
      Step config broker net (.acknowledged t)
        ((net.setCaller t (.waiting chan (count + 1) (attempts broker))).setAcks chan rest)
  | receiveOther {net : Net T n} {t : T} {chan count left : ℕ} {result : PartitionResult}
      {rest : List PartitionResult} (ht : net.callers t = .waiting chan count left)
      (hcount : count < n) (hleft : 0 < left) (hacks : net.acks chan = result :: rest)
      (hresult : result ≠ .stopped) :
      Step config broker net (.unexpected t)
        ((net.setCaller t (.returning (.error .unexpectedReply))).setAcks chan rest)
  | poll {net : Net T n} {t : T} {chan count left : ℕ}
      (ht : net.callers t = .waiting chan count left) (hcount : count < n) (hleft : 0 < left)
      (hacks : net.acks chan = []) :
      Step config broker net (.polled t) (net.setCaller t (.waiting chan count (left - 1)))
  | timeOut {net : Net T n} {t : T} {chan count : ℕ} (ht : net.callers t = .waiting chan count 0)
      (hcount : count < n) :
      Step config broker net (.timedOut t) (net.setCaller t (.returning (.error .replyTimeout)))
  | counted {net : Net T n} {t : T} {chan left : ℕ} (ht : net.callers t = .waiting chan n left) :
      Step config broker net (.counted t) (net.setCaller t (.returning (.ok ())))
  | finish {net : Net T n} {t : T} {result : Except BrokerError Unit}
      (ht : net.callers t = .returning result) :
      Step config broker net (.returned t result) (net.setCaller t .idle)
  | post {net : Net T n} (shard : Fin n) {command : PartitionCommand}
      (hcommand : command ≠ .shutdown)
      (hroom : (net.tasks shard).mailbox.length < broker.mailboxCapacity) :
      Step config broker net (.posted shard)
        (net.setTask shard
          { net.tasks shard with mailbox := (net.tasks shard).mailbox ++ [.other command] })
  | serve {net : Net T n} {shard : Fin n} {command : PartitionCommand} {rest : List Mail}
      (hstage : (net.tasks shard).stage = .running)
      (hbox : (net.tasks shard).mailbox = .other command :: rest) :
      Step config broker net (.served shard)
        (net.setTask shard
          { net.tasks shard with
            shard := ((net.tasks shard).shard.handle config command).1, mailbox := rest })
  | take {net : Net T n} {shard : Fin n} {chan : ℕ} {rest : List Mail}
      (hstage : (net.tasks shard).stage = .running)
      (hbox : (net.tasks shard).mailbox = .shutdown chan :: rest) :
      Step config broker net (.took shard)
        (net.setTask shard { net.tasks shard with mailbox := rest, stage := .stopping chan })
  | answer {net : Net T n} {shard : Fin n} {chan : ℕ}
      (hstage : (net.tasks shard).stage = .stopping chan) :
      Step config broker net (.answered shard)
        ((net.setTask shard { net.tasks shard with stage := .stopped }).setAcks chan
          (net.acks chan ++ [.stopped]))
  | loseAnswer {net : Net T n} {shard : Fin n} {chan : ℕ}
      (hstage : (net.tasks shard).stage = .stopping chan) :
      Step config broker net (.answered shard)
        (net.setTask shard { net.tasks shard with stage := .stopped })

/-- Any interleaving of steps, with the events in order. -/
inductive Runs (config : ShardConfig) (broker : BrokerConfig) : List (Event T n) → Net T n → Prop
  | nil : Runs config broker [] .start
  | snoc {history : List (Event T n)} {net net' : Net T n} {event : Event T n}
      (h : Runs config broker history net) (hstep : Step config broker net event net') :
      Runs config broker (history ++ [event]) net'

/-! ## What a step can do -/

section Steps

variable {config : ShardConfig} {broker : BrokerConfig} {net net' : Net T n} {event : Event T n}

/-- A shard's stage changes when it takes its `Shutdown` command and when it answers. -/
theorem Step.stage (h : Step config broker net event net') (shard : Fin n) :
    (net'.tasks shard).stage = (net.tasks shard).stage ∨
      event = .took shard ∧ (∃ chan, (net'.tasks shard).stage = .stopping chan) ∨
      event = .answered shard ∧ (∃ chan, (net.tasks shard).stage = .stopping chan) ∧
        (net'.tasks shard).stage = .stopped := by
  cases h <;> simp <;> grind

/-- A channel grows by the answer of a shard that stops. -/
theorem Step.acks (h : Step config broker net event net') (chan : ℕ) :
    (net'.acks chan).length ≤ (net.acks chan).length ∨
      (net'.acks chan).length = (net.acks chan).length + 1 ∧
        ∃ shard, (net.tasks shard).stage ≠ .stopped ∧ (net'.tasks shard).stage = .stopped := by
  cases h <;> simp <;> grind

/-- A caller that waits has just begun to, got one more acknowledgement, or waited before. -/
theorem Step.waiting (h : Step config broker net event net') {t : T} {chan count left : ℕ}
    (ht : net'.callers t = .waiting chan count left) :
    count = 0 ∨ (∃ left', net.callers t = .waiting chan count left') ∨
      ∃ count' left', count = count' + 1 ∧ net.callers t = .waiting chan count' left' ∧
        (net.acks chan).length = (net'.acks chan).length + 1 := by
  cases h <;> simp at ht ⊢ <;> grind

/-- Where an `Ok` comes from: the flag, or the count of the acknowledgements. -/
theorem Step.returning (h : Step config broker net event net') {t : T}
    (ht : net'.callers t = .returning (.ok ())) :
    net.callers t = .returning (.ok ()) ∨ net.callers t = .called ∧ net.flag = true ∨
      ∃ chan left, net.callers t = .waiting chan n left := by
  cases h <;> simp at ht ⊢ <;> grind

/-- Callers leave the idle state by a call. -/
theorem Step.idle (h : Step config broker net event net') {t : T} (ht : net.callers t = .idle) :
    net'.callers t = .idle ∨ event = .called t := by
  cases h <;> simp <;> grind

theorem Step.called (h : Step config broker net event net') {t : T}
    (ht : net'.callers t = .called) : net.callers t = .called ∨ event = .called t := by
  cases h <;> simp at ht ⊢ <;> grind

/-- The flag is set by a call that has begun. -/
theorem Step.flag (h : Step config broker net event net') :
    net'.flag = net.flag ∨ ∃ t, net.callers t = .called ∧ net'.callers t ≠ .called := by
  cases h <;> first | exact .inl rfl | (simp; grind)

theorem Step.returned {t : T} {result : Except BrokerError Unit}
    (h : Step config broker net (.returned t result) net') :
    net.callers t = .returning result := by
  cases h
  assumption

/-- A stopped shard stays stopped. -/
theorem Step.stopped (h : Step config broker net event net') {shard : Fin n}
    (hstopped : (net.tasks shard).stage = .stopped) : (net'.tasks shard).stage = .stopped := by
  rcases h.stage shard with hsame | ⟨rfl, -⟩ | ⟨-, -, hstopped'⟩
  · rw [hsame, hstopped]
  · cases h with
    | take hstage =>
        rw [hstopped] at hstage
        cases hstage
  · exact hstopped'

end Steps

/-! ## Acknowledgements -/

/-- How many shards have stopped. -/
def Net.stoppedCount (net : Net T n) : ℕ :=
  (Finset.univ.filter fun shard => (net.tasks shard).stage = .stopped).card

/-- There are no more acknowledgements than stopped shards, neither in a channel nor together with
those a call has counted. -/
structure Counted (net : Net T n) : Prop where
  acks : ∀ chan, (net.acks chan).length ≤ net.stoppedCount
  waiting : ∀ t chan count left, net.callers t = .waiting chan count left →
    count + (net.acks chan).length ≤ net.stoppedCount

section Counting

variable {config : ShardConfig} {broker : BrokerConfig} {net net' : Net T n} {event : Event T n}

omit [DecidableEq T] in
theorem stopped_of_stoppedCount (h : n ≤ net.stoppedCount) (shard : Fin n) :
    (net.tasks shard).stage = .stopped := by
  have hall : (Finset.univ.filter fun shard => (net.tasks shard).stage = .stopped) =
      Finset.univ := by
    refine Finset.eq_univ_of_card _ (Nat.le_antisymm (Finset.card_le_univ _) ?_)
    rw [Fintype.card_fin]
    exact h
  have hin := Finset.mem_univ shard
  rw [← hall] at hin
  exact (Finset.mem_filter.mp hin).2

theorem Step.stoppedCount_le (h : Step config broker net event net') :
    net.stoppedCount ≤ net'.stoppedCount :=
  Finset.card_le_card (Finset.monotone_filter_right _ fun _ _ hstopped => h.stopped hstopped)

/-- A shard that stops is counted. -/
theorem Step.stoppedCount_lt (h : Step config broker net event net') {shard : Fin n}
    (hbefore : (net.tasks shard).stage ≠ .stopped) (hafter : (net'.tasks shard).stage = .stopped) :
    net.stoppedCount < net'.stoppedCount := by
  refine Finset.card_lt_card (Finset.ssubset_iff_of_subset ?_ |>.mpr ⟨shard, ?_, ?_⟩)
  · exact Finset.monotone_filter_right _ fun _ _ hstopped => h.stopped hstopped
  · exact Finset.mem_filter.mpr ⟨Finset.mem_univ _, hafter⟩
  · exact fun hin => hbefore (Finset.mem_filter.mp hin).2

/-- A channel grows no faster than the number of stopped shards. -/
theorem Step.acks_le (h : Step config broker net event net') (chan : ℕ) :
    (net'.acks chan).length + net.stoppedCount ≤ (net.acks chan).length + net'.stoppedCount := by
  have hle := h.stoppedCount_le
  rcases h.acks chan with hacks | ⟨hacks, shard, hbefore, hafter⟩
  · omega
  · have hlt := h.stoppedCount_lt hbefore hafter
    omega

theorem Step.keeps_counted (h : Step config broker net event net') (hcounted : Counted net) :
    Counted net' := by
  refine ⟨fun chan => ?_, fun t chan count left ht => ?_⟩
  · have hacks := h.acks_le chan
    have hbound := hcounted.acks chan
    omega
  · have hacks := h.acks_le chan
    rcases h.waiting ht with rfl | ⟨left', hbefore⟩ | ⟨count', left', rfl, hbefore, hone⟩
    · have hbound := hcounted.acks chan
      omega
    · have hbound := hcounted.waiting t chan count left' hbefore
      omega
    · have hbound := hcounted.waiting t chan count' left' hbefore
      have hle := h.stoppedCount_le
      omega

theorem Runs.counted {history : List (Event T n)} (h : Runs config broker history net) :
    Counted net := by
  induction h with
  | nil => exact ⟨fun _ => Nat.zero_le _, fun t chan count left ht => by cases ht⟩
  | snoc h hstep ih => exact hstep.keeps_counted ih

/-- A stopped shard has taken its `Shutdown` command and answered it. -/
theorem Runs.stage {history : List (Event T n)} (h : Runs config broker history net)
    (shard : Fin n) :
    ((∃ chan, (net.tasks shard).stage = .stopping chan) → .took shard ∈ history) ∧
      ((net.tasks shard).stage = .stopped →
        .took shard ∈ history ∧ .answered shard ∈ history) := by
  induction h with
  | nil =>
      refine ⟨?_, fun hstage => by cases hstage⟩
      rintro ⟨chan, hstage⟩
      cases hstage
  | @snoc history net net' event h hstep ih =>
      obtain ⟨hstopping, hstopped⟩ := ih
      rcases hstep.stage shard with hsame | ⟨rfl, chan, hstage⟩ | ⟨rfl, hbefore, hstage⟩
      · rw [hsame]
        refine ⟨fun hin => List.mem_append_left _ (hstopping hin), fun hin => ?_⟩
        exact ⟨List.mem_append_left _ (hstopped hin).1, List.mem_append_left _ (hstopped hin).2⟩
      · refine ⟨fun _ => by simp, fun hin => ?_⟩
        rw [hstage] at hin
        cases hin
      · refine ⟨fun ⟨chan, hin⟩ => ?_, fun _ => ⟨List.mem_append_left _ (hstopping hbefore), ?_⟩⟩
        · rw [hstage] at hin
          cases hin
        · simp

end Counting

/-! ## What a call means -/

/-- Whenever a call returns `Ok`, every shard has taken its `Shutdown` command and answered it. -/
def OkMeansStopped (history : List (Event T n)) : Prop :=
  ∀ before t after, history = before ++ .returned t (.ok ()) :: after →
    ∀ shard, .took shard ∈ before ∧ .answered shard ∈ before

/-- No call has begun. -/
def NoCall (history : List (Event T n)) : Prop := ∀ t, .called t ∉ history

/-- No call has returned `Ok`. -/
def NoSuccess (history : List (Event T n)) : Prop := ∀ t, .returned t (.ok ()) ∉ history

/-- No call begins after the first one before some call has returned `Ok`. -/
def CallsAfterSuccess (history : List (Event T n)) : Prop :=
  ∀ before t after, history = before ++ .called t :: after → NoCall before ∨ ¬ NoSuccess before

/-- What holds as long as calls come only after a success: before it there is one call at most, and
it finds the flag unset; an `Ok` that is on its way or has been returned means that every shard has
stopped. -/
structure Guarded (history : List (Event T n)) (net : Net T n) : Prop where
  fresh : NoCall history → net.flag = false ∧ ∀ t, net.callers t = .idle
  alone : NoSuccess history → ∀ t t', net.callers t ≠ .idle → net.callers t' ≠ .idle → t = t'
  early : NoSuccess history → ∀ t, net.callers t = .called → net.flag = false
  returning : ∀ t, net.callers t = .returning (.ok ()) → ∀ shard,
    (net.tasks shard).stage = .stopped
  returned : ¬ NoSuccess history → ∀ shard, (net.tasks shard).stage = .stopped

section Runs

variable {config : ShardConfig} {broker : BrokerConfig} {history : List (Event T n)}
  {net net' : Net T n} {event : Event T n}

omit [DecidableEq T] in
theorem NoCall.of_snoc (h : NoCall (history ++ [event])) :
    NoCall history ∧ ∀ t, event ≠ .called t :=
  ⟨fun t hin => h t (List.mem_append_left _ hin), fun t heq => h t (by simp [heq])⟩

omit [DecidableEq T] in
theorem NoSuccess.of_snoc (h : NoSuccess (history ++ [event])) : NoSuccess history :=
  fun t hin => h t (List.mem_append_left _ hin)

/-- The flag does not change while no call that has begun goes on. -/
theorem Step.flag_eq (h : Step config broker net event net')
    (hcalled : ∀ t, net.callers t = .called → net'.callers t = .called) : net'.flag = net.flag := by
  rcases h.flag with hsame | ⟨t, ht, hne⟩
  · exact hsame
  · exact absurd (hcalled t ht) hne

omit [DecidableEq T] in
/-- The first call finds everything at rest. -/
theorem Guarded.rest (hguarded : Guarded history net) (hnone : NoSuccess history)
    (hcall : NoCall history ∨ ¬ NoSuccess history) :
    net.flag = false ∧ ∀ t, net.callers t = .idle := by
  rcases hcall with hfirst | hlater
  · exact hguarded.fresh hfirst
  · exact absurd hnone hlater

/-- Where the next `Ok` comes from, every shard has stopped. -/
theorem Guarded.stopped_of_returning (hguarded : Guarded history net) (hcounted : Counted net)
    (h : Step config broker net event net') {t : T} (ht : net'.callers t = .returning (.ok ()))
    (shard : Fin n) : (net.tasks shard).stage = .stopped := by
  rcases h.returning ht with hbefore | ⟨hcalled, hflag⟩ | ⟨chan, left, hwaiting⟩
  · exact hguarded.returning t hbefore shard
  · by_cases hnone : NoSuccess history
    · -- the only call so far found the flag unset
      rw [hguarded.early hnone t hcalled] at hflag
      cases hflag
    · exact hguarded.returned hnone shard
  · have hall := hcounted.waiting t chan n left hwaiting
    exact stopped_of_stoppedCount (Nat.le_trans (Nat.le_add_right _ _) hall) shard

theorem Step.keeps_guarded (h : Step config broker net event net') (hcounted : Counted net)
    (hguarded : Guarded history net)
    (hcall : ∀ t, event = .called t → NoCall history ∨ ¬ NoSuccess history) :
    Guarded (history ++ [event]) net' := by
  constructor
  case fresh =>
    intro hnone
    obtain ⟨hnone, hevent⟩ := hnone.of_snoc
    obtain ⟨hflag, hidle⟩ := hguarded.fresh hnone
    have hidle' : ∀ t, net'.callers t = .idle := fun t =>
      (h.idle (hidle t)).resolve_right (hevent t)
    refine ⟨?_, hidle'⟩
    rw [h.flag_eq fun t ht => ?_, hflag]
    rw [hidle t] at ht
    cases ht
  case alone =>
    intro hnone t t' ht ht'
    replace hnone := hnone.of_snoc
    by_cases hfirst : ∃ t₀, event = .called t₀
    · obtain ⟨t₀, rfl⟩ := hfirst
      have hidle := (hguarded.rest hnone (hcall t₀ rfl)).2
      have hsame : ∀ t, net'.callers t ≠ .idle → t = t₀ := by
        intro t ht
        have hevent := (h.idle (hidle t)).resolve_left ht
        cases hevent
        rfl
      rw [hsame t ht, hsame t' ht']
    · have hbefore : ∀ t, net'.callers t ≠ .idle → net.callers t ≠ .idle := fun t ht hidle =>
        (h.idle hidle).elim ht fun hevent => hfirst ⟨t, hevent⟩
      exact hguarded.alone hnone t t' (hbefore t ht) (hbefore t' ht')
  case early =>
    intro hnone t ht
    replace hnone := hnone.of_snoc
    rcases h.called ht with hbefore | rfl
    · -- a call that goes on would be another one
      rw [h.flag_eq fun t' ht' => ?_, hguarded.early hnone t hbefore]
      obtain rfl : t' = t := hguarded.alone hnone t' t (by simp [ht']) (by simp [hbefore])
      exact ht
    · obtain ⟨hflag, hidle⟩ := hguarded.rest hnone (hcall t rfl)
      rw [h.flag_eq fun t' ht' => ?_, hflag]
      rw [hidle t'] at ht'
      cases ht'
  case returning =>
    exact fun t ht shard => h.stopped (hguarded.stopped_of_returning hcounted h ht shard)
  case returned =>
    intro hsome shard
    by_cases hnone : NoSuccess history
    · have hevent : ∃ t, event = .returned t (.ok ()) := by
        by_contra hother
        refine hsome fun t hin => ?_
        rcases List.mem_append.mp hin with hin | hin
        · exact hnone t hin
        · exact hother ⟨t, (List.mem_singleton.mp hin).symm⟩
      obtain ⟨t, rfl⟩ := hevent
      exact h.stopped (hguarded.returning t h.returned shard)
    · exact h.stopped (hguarded.returned hnone shard)

omit [DecidableEq T] in
theorem CallsAfterSuccess.of_snoc (h : CallsAfterSuccess (history ++ [event])) :
    CallsAfterSuccess history := by
  rintro before t after rfl
  exact h before t (after ++ [event]) (by simp)

theorem Runs.guarded (h : Runs config broker history net) (hcalls : CallsAfterSuccess history) :
    Guarded history net := by
  induction h with
  | nil =>
      refine ⟨fun _ => ⟨rfl, fun _ => rfl⟩, fun _ t _ ht => absurd rfl ht, ?_, ?_, ?_⟩
      · rintro - t ⟨⟩
      · rintro t ⟨⟩
      · exact fun hsome => absurd (fun t => List.not_mem_nil) hsome
  | @snoc history net net' event h hstep ih =>
      refine hstep.keeps_guarded h.counted (ih hcalls.of_snoc) ?_
      rintro t rfl
      exact hcalls history t [] rfl

/-- **Shutdown means stopped, if calls come only after a success.** In every run of any number of
callers in which no call begins between the first call and a return of `Ok`, every shard has taken
its `Shutdown` command and answered it whenever a call returns `Ok`. -/
theorem okMeansStopped (h : Runs config broker history net) (hcalls : CallsAfterSuccess history) :
    OkMeansStopped history := by
  induction h with
  | nil =>
      intro before t after hsplit
      simp at hsplit
  | @snoc history net net' event h hstep ih =>
      intro before t after hsplit shard
      rcases List.eq_nil_or_concat after with rfl | ⟨after, last, rfl⟩
      · obtain ⟨rfl, hevent⟩ := List.append_inj' hsplit rfl
        cases hevent
        refine (h.stage shard).2 ?_
        exact (h.guarded hcalls.of_snoc).returning t hstep.returned shard
      · rw [List.concat_eq_append, ← List.cons_append, ← List.append_assoc] at hsplit
        obtain ⟨rfl, -⟩ := List.append_inj' hsplit rfl
        exact ih hcalls.of_snoc before t after rfl shard

end Runs

/-! ## Two runs -/

/-- A call stops both shards; another thread calls after it has returned. -/
def stopTwice : List (Event (Fin 2) 2) :=
  [.called 0, .found 0 false, .opened 0 0, .sent 0 0, .sent 0 1, .sentAll 0, .took 1, .took 0,
    .answered 1, .answered 0, .acknowledged 0, .acknowledged 0, .counted 0, .returned 0 (.ok ()),
    .called 1, .found 1 true, .returned 1 (.ok ())]

/-- The second call comes after the first has succeeded. -/
theorem callsAfterSuccess_stopTwice : CallsAfterSuccess stopTwice := by
  have hpositions : ∀ k < 17, ∀ t, stopTwice[k]? = some (.called t) →
      k = 0 ∨ .returned 0 (.ok ()) ∈ stopTwice.take k := by decide
  intro before t after hsplit
  have hlength : stopTwice.length = before.length + (after.length + 1) := by
    rw [hsplit, List.length_append, List.length_cons]
  have hlt : before.length < 17 := by
    rw [show stopTwice.length = 17 from rfl] at hlength
    omega
  rcases hpositions before.length hlt t (by rw [hsplit]; simp) with hfirst | hsuccess
  · rw [List.length_eq_zero_iff.mp hfirst]
    exact .inl fun _ => List.not_mem_nil
  · rw [hsplit, List.take_left] at hsuccess
    exact .inr fun hnone => hnone 0 hsuccess

theorem okMeansStopped_stopTwice :
    ∃ net, Runs oneTopic oneTopicBroker stopTwice net ∧ CallsAfterSuccess stopTwice ∧
      OkMeansStopped stopTwice := by
  have hcalled : Runs oneTopic oneTopicBroker [.called 0] (Net.start (T := Fin 2) (n := 2)
    |>.setCaller 0 .called) := Runs.nil.snoc (.call rfl)
  have hopened := (hcalled.snoc (.swap (t := 0) rfl)).snoc (.openChan (t := 0) rfl)
  have hsent := ((hopened.snoc (show Step _ _ _ (.sent 0 0) _ from
    .send rfl (by decide) (by decide))).snoc (show Step _ _ _ (.sent 0 1) _ from
    .send rfl (by decide) (by decide))).snoc (.sentAll (t := 0) rfl)
  have htook := (hsent.snoc (show Step _ _ _ (.took 1) _ from .take rfl rfl)).snoc
    (show Step _ _ _ (.took 0) _ from .take rfl rfl)
  have hstopped := (htook.snoc (show Step _ _ _ (.answered 1) _ from .answer rfl)).snoc
    (show Step _ _ _ (.answered 0) _ from .answer rfl)
  have hcounted := ((hstopped.snoc (.receive (t := 0) rfl (by decide) (by decide) rfl)).snoc
    (.receive (t := 0) rfl (by decide) (by decide) rfl)).snoc (.counted (t := 0) rfl)
  have hreturned := hcounted.snoc (.finish (t := 0) rfl)
  have hruns : Runs oneTopic oneTopicBroker stopTwice _ :=
    ((hreturned.snoc (.call (t := 1) rfl)).snoc (.swap (t := 1) rfl)).snoc (.finish (t := 1) rfl)
  exact ⟨_, hruns, callsAfterSuccess_stopTwice, okMeansStopped hruns callsAfterSuccess_stopTwice⟩

/-- One shard with two places in its mailbox, and one attempt for every send and every wait. -/
def tightBroker : BrokerConfig := ⟨1, [⟨[116], 2⟩], 2, 1, none⟩

/-- A call fails at the full mailbox of the only shard, and the next call returns `Ok`. -/
def failThenOk : List (Event Unit 1) :=
  [.posted 0, .posted 0, .called (), .found () false, .opened () 0, .refused (), .gaveUp (),
    .returned () (.error .mailboxUnavailable), .called (), .found () true, .returned () (.ok ())]

/-- **A call after a failed one returns `Ok` while the shard still runs.** -/
theorem not_okMeansStopped_failThenOk :
    ∃ net, Runs oneTopic tightBroker failThenOk net ∧ (net.tasks 0).stage = .running ∧
      ¬ OkMeansStopped failThenOk := by
  let work : PartitionCommand := .resolveTransaction 0 true
  have hwork : work ≠ .shutdown := by decide
  have hposted : Runs oneTopic tightBroker [.posted 0] (Net.start (T := Unit) (n := 1)
    |>.setTask 0 ⟨.new, [.other work], .running⟩) := Runs.nil.snoc (.post 0 hwork (by decide))
  have hfull := hposted.snoc (.post 0 hwork (by decide))
  have hopened := ((hfull.snoc (.call (t := ()) rfl)).snoc (.swap (t := ()) rfl)).snoc
    (.openChan (t := ()) rfl)
  have hfailed := ((hopened.snoc (.refuse (t := ()) rfl (by decide) (by decide))).snoc
    (.giveUp (t := ()) rfl (by decide))).snoc (.finish (t := ()) rfl)
  have hruns : Runs oneTopic tightBroker failThenOk _ :=
    ((hfailed.snoc (.call (t := ()) rfl)).snoc (.swap (t := ()) rfl)).snoc (.finish (t := ()) rfl)
  refine ⟨_, hruns, rfl, fun hstopped => ?_⟩
  have htook := (hstopped (failThenOk.take 10) () [] rfl 0).1
  revert htook
  decide

end CharlotteBroker.Runtime.Shutdown
