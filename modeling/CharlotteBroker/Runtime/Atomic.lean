import CharlotteBroker.Lib.RpcAtomic
import CharlotteBroker.Runtime.Exchanges
import CharlotteBroker.Runtime.Linear

/-!
# Calls to the broker are atomic

All calls but two send one command: a produce, a fetch and a question for an offset to the owner of
their partition, and everything about groups and transactions to shard zero. Whatever the other
clients do meanwhile, such a call does to the whole broker what it does alone: at one moment between
its invocation and its return. A transactional produce and the end of a transaction send several
commands, and are not atomic.

* `Once` and `program_once`: what a method sends, and that it passes faults on.
* `perform_answered`: alone, a call succeeds or fails with an error of the log or the coordinators.
* `CallEnd`, `returned_callEnd`: how a call of a client among many can end.
* `runs_oneMachine`: in every run the broker is one machine, on which every call acts at a moment of
  its own.
-/

namespace CharlotteBroker.Runtime

open CharlotteBroker.Core Lib Lib.Rpc

/-- The calls that send one command. -/
def Call.atomic : Call → Bool
  | .produceTransactional _ _ _ _ _ => false
  | .endTransaction _ _ _ => false
  | _ => true

variable {n : ℕ}

/-! ## What the methods send -/

/-- The method sends nothing, or one command; then a fault is its error. -/
inductive Once {α : Type} (program : BrokerM n α) : Prop
  | looks (h : Looks program)
  | asks (shard : Fin n) (command : PartitionCommand)
      (finish : Except Fault PartitionResult → Except BrokerError α)
      (fault : ∀ fault, finish (.error fault) = .error (faultError fault))
      (run : program.run = .call shard command fun reply => .ret (finish reply))

section Once

variable {α β : Type} {program : BrokerM n α}

theorem once_callShard (shard : Fin n) (command : PartitionCommand) :
    Once (callShard shard command) :=
  .asks shard command (fun reply => reply.mapError faultError) (fun _ => rfl) rfl

/-- What is done with the reply alone sends nothing more. -/
theorem Once.bind (h : Once program) {next : α → BrokerM n β} (hnext : ∀ a, Looks (next a)) :
    Once (program >>= next) := by
  cases h with
  | looks h =>
      obtain ⟨result, hrun⟩ := h
      have hbind : (program >>= next).run = program.run >>= ExceptT.bindCont next := rfl
      rcases result with error | a
      · exact .looks ⟨.error error, by rw [hbind, hrun]; rfl⟩
      · obtain ⟨result, hresult⟩ := hnext a
        exact .looks ⟨result, by rw [hbind, hrun]; exact hresult⟩
  | asks shard command finish hfault hrun =>
      choose results hresults using hnext
      refine .asks shard command
        (fun reply => match finish reply with
          | .ok a => results a
          | .error error => .error error) (fun fault => by rw [hfault]) ?_
      have hbind : (program >>= next).run = program.run >>= ExceptT.bindCont next := rfl
      rw [hbind, hrun, Prog.call_bind]
      congr 1
      funext reply
      rw [Prog.ret_bind]
      rcases finish reply with error | a
      · rfl
      · exact hresults a

theorem Once.map (h : Once program) (f : α → β) : Once (f <$> program) := by
  rw [map_eq_pure_bind]
  exact h.bind fun a => ⟨.ok (f a), rfl⟩

theorem once_checked {next : BrokerM n α} (h : Once next) (result : Except LogError Unit) :
    Once (checked result >>= fun _ => next) := by
  rcases result with error | ⟨⟩
  · exact .looks ⟨.error (.core error), rfl⟩
  · exact h

theorem Once.single (h : Once program) : program.run.Single := by
  cases h with
  | looks h =>
      obtain ⟨result, hrun⟩ := h
      rw [hrun]
      exact .ret result
  | asks shard command finish _ hrun =>
      rw [hrun]
      exact .call shard command finish

theorem Once.follows_call (h : Once program)
    {exchanges : List (Exchange (Fin n) PartitionCommand PartitionResult)} {shard : Fin n}
    {command : PartitionCommand}
    {next : Except Fault PartitionResult →
      Prog (Fin n) PartitionCommand PartitionResult (Except BrokerError α)}
    (hfollows : program.run.Follows exchanges (.call shard command next)) : exchanges = [] := by
  cases h with
  | looks h => exact absurd hfollows h.not_call
  | asks shard' command' finish _ hrun =>
      rcases exchanges with _ | ⟨exchange, rest⟩
      · rfl
      · rw [hrun, Prog.follows_call_cons] at hfollows
        cases ((Prog.follows_ret _ _ _).mp hfollows.2.2).2

theorem Once.failsWith (h : Once program) {fault : Fault} {result : Except BrokerError α}
    (hfails : program.run.FailsWith fault result) : result = .error (faultError fault) := by
  obtain ⟨chan, shard', command', hfollows⟩ := hfails
  cases h with
  | looks h => cases h.exchanges_eq hfollows
  | asks shard command finish hfault hrun =>
      rw [hrun, Prog.follows_call_cons] at hfollows
      obtain ⟨-, hret⟩ := (Prog.follows_ret _ _ _).mp hfollows.2.2
      rw [Prog.ret.inj hret, hfault]

end Once

variable [NeZero n]

theorem once_coordinateCall (request : CoordinationRequest) :
    Once (coordinateCall (n := n) request) := by
  refine (once_callShard 0 _).bind fun result => ?_
  rcases result with _ | _ | _ | _ | (_ | _) | _ | _ <;> exact ⟨_, rfl⟩

/-- **What a call sends.** -/
theorem program_once (catalog : TopicCatalog) {call : Call} (h : call.atomic = true) :
    Once (call.program (n := n) catalog) := by
  cases call with
  | produce topic partition records =>
      refine (once_checked (Once.bind (once_callShard _ _) fun result => ?_) _).map _
      exact looks_producedOffset result
  | fetchWithIsolation topic partition offset maxRecords maxBytes readCommitted =>
      refine (once_checked (Once.bind (once_callShard _ _) fun result => ?_) _).map _
      cases result <;> exact ⟨_, rfl⟩
  | listOffset topic partition earliest =>
      refine (once_checked (Once.bind (once_callShard _ _) fun result => ?_) _).map _
      cases result <;> exact ⟨_, rfl⟩
  | produceTransactional _ _ _ _ _ => cases h
  | endTransaction _ _ _ => cases h
  | _ =>
      refine ((once_coordinateCall _).bind fun result => ?_).map _
      cases result <;> exact ⟨_, rfl⟩

/-! ## What a call answers alone -/

/-- A success, or an error of the log or of the coordinators. -/
def Answered : Except BrokerError Answer → Prop
  | .ok _ => True
  | .error (.core _) => True
  | .error (.coordination _) => True
  | .error _ => False

theorem answered_core {α : Type} (result : Except LogError α) (f : α → Answer) :
    Answered ((result.mapError .core).map f) := by
  rcases result with _ | _ <;> trivial

theorem answered_coordination {α : Type} (result : Except CoordinationError α) (f : α → Answer) :
    Answered ((result.mapError .coordination).map f) := by
  rcases result with _ | _ <;> trivial

theorem answered_applied (config : ShardConfig) (view : View) {request : CoordinationRequest}
    {result : Except CoordinationError Unit}
    (h : (coordinate view.transactions view.groups request).2 = result.map fun _ => .applied) :
    Answered (view.run config
      ((fun _ => Answer.done) <$> (coordinateCall (n := n) request >>= applied))).2 := by
  rw [View.run_map, run_coordinateCall_applied config view h]
  exact answered_coordination result _

/-- **Alone, a call never faults.** -/
theorem perform_answered (config : ShardConfig) (view : View) {call : Call}
    (h : call.atomic = true) : Answered (view.perform config n call).2 := by
  unfold View.perform
  cases call with
  | produce topic partition records =>
      rw [Call.program, View.run_map, run_produce, View.appendTo]
      split
      · trivial
      · exact answered_core _ _
  | fetchWithIsolation topic partition offset maxRecords maxBytes readCommitted =>
      rw [Call.program, View.run_map, run_fetchWithIsolation]
      exact answered_core _ _
  | listOffset topic partition earliest =>
      rw [Call.program, View.run_map, run_listOffset]
      exact answered_core _ _
  | initProducer transactionalId =>
      rw [Call.program, View.run_map, run_initProducer]
      exact answered_coordination _ _
  | joinGroup groupId memberId subscriptions =>
      rw [Call.program, View.run_map, run_joinGroup]
      exact answered_coordination _ _
  | groupOffset groupId topic partition =>
      rw [Call.program, View.run_map, run_groupOffset]
      exact answered_coordination _ _
  | produceTransactional _ _ _ _ _ => cases h
  | endTransaction _ _ _ => cases h
  | _ => exact answered_applied config view rfl

/-! ## Among many clients -/

variable {T : Type} (config : ShardConfig)

/-- How the call of `t` from `i` to `j` ended, by what it did to the broker as a whole. -/
inductive CallEnd (history : List (BrokerEvent T n)) (t : T) (call : Call) (i j : ℕ)
    (result : Except BrokerError Answer) : Prop
  /-- It did at one moment what it does alone. -/
  | acted (k : ℕ) (from_invoked : i ≤ k) (before_returned : k < j)
      (asked : Served history t i j k ∨ ∀ view : View, view.perform config n call = (view, result))
      (only : ∀ k', Served history t i j k' → k' = k)
      (performs : (viewAfter config (history.take k)).perform config n call =
        (viewAfter config (history.take (k + 1)), result))
      (answered : Answered result)
  /-- The mailbox took nothing from it, and it did nothing. -/
  | unheard (result_eq : result = .error .mailboxUnavailable)
      (never : ∀ k, ¬ Served history t i j k)
  /-- The reply did not come in time, and it does as a whole what it does alone, once, perhaps
  after it returned, or nothing. -/
  | unanswered (result_eq : result = .error .replyTimeout)
      (once : ∀ k k', Served history t i j k → Served history t i j k' → k = k')
      (performs : ∀ k, Served history t i j k →
        ((viewAfter config (history.take k)).perform config n call).1 =
          viewAfter config (history.take (k + 1)))

section Runs

variable {config} {broker : BrokerConfig} [DecidableEq T] {history : List (BrokerEvent T n)}
  {net : BrokerNet T n}

variable (h : Runs (system broker config) (startShards n) history net)
include h

/-- The view is what the applied commands made of it. -/
theorem abstracts_view :
    Abstracts (fun view (shard : Fin n) => View.serve config view shard) (viewAfter config)
      history where
  applied k shard chan command result hk := by
    rw [hk.take_succ, viewAfter_snoc, viewStep, applied_answer h hk]
  invoked k t call hk := by
    rw [hk.take_succ, viewAfter_snoc]
    rfl

/-- How an atomic call ends, as a fact about runs. -/
theorem returned_callEnd {j : ℕ} {t : T} {call : Call} {result : Except BrokerError Answer}
    (hat : At history j (.returned t call result)) (hatomic : call.atomic = true) :
    ∃ i < j, Spans history t call i j ∧ CallEnd config history t call i j result := by
  have honce := program_once (n := n) config.catalog hatomic
  obtain ⟨i, hij, hspans, hend⟩ := h.atomic (abstracts_view h) hat honce.single
  refine ⟨i, hij, hspans, ?_⟩
  cases hend with
  | acted k hik hkj hasked honly hexec =>
      have hperforms : (viewAfter config (history.take k)).perform config n call =
          (viewAfter config (history.take (k + 1)), result) := hexec
      refine .acted k hik hkj (hasked.imp_right ?_) honly hperforms ?_
      · intro hprogram view
        exact congrArg (Prog.exec (fun view (shard : Fin n) => View.serve config view shard) view)
          hprogram
      · have hanswered := perform_answered (n := n) config
          (viewAfter config (history.take k)) hatomic
        rwa [hperforms] at hanswered
  | unheard hfails hnever => exact .unheard (honce.failsWith hfails) hnever
  | unanswered hfails hserved hacts => exact .unanswered (honce.failsWith hfails) hserved hacts

/-- Two calls never share a command. -/
theorem Served.eq {t t' : T} {call call' : Call} {result result' : Except BrokerError Answer}
    {i i' j j' k : ℕ} (hspans : Spans history t call i j)
    (hj : At history j (.returned t call result)) (hspans' : Spans history t' call' i' j')
    (hj' : At history j' (.returned t' call' result')) (hk : Served history t i j k)
    (hk' : Served history t' i' j' k) : j = j' :=
  AppliedFor.eq h hspans hspans' ⟨result, hj⟩ ⟨result', hj'⟩ hk hk'

end Runs

/-- For calls that send one command, the broker with its shards is one machine. -/
structure OneMachine (history : List (BrokerEvent T n)) (net : BrokerNet T n) : Prop where
  /-- The shards together show what the applied commands made of the broker without shards. -/
  refines : Refines config (shardsOf net) (viewAfter config history)
  /-- Every returned call did there, at one moment of its own, what it does alone. -/
  ended : ∀ j t call result, At history j (.returned t call result) → call.atomic = true →
    ∃ i < j, Spans history t call i j ∧ CallEnd config history t call i j result
  /-- Two calls have no moment in common. -/
  distinct : ∀ t t' call call' result result' i i' j j' k, Spans history t call i j →
    At history j (.returned t call result) → Spans history t' call' i' j' →
    At history j' (.returned t' call' result') → Served history t i j k →
    Served history t' i' j' k → j = j'

/-- **The broker among any number of clients is one machine**, coordinators and logs together, in
every interleaving. -/
theorem runs_oneMachine {broker : BrokerConfig} {config : ShardConfig} [DecidableEq T]
    {history : List (BrokerEvent T n)} {net : BrokerNet T n}
    (h : Runs (system broker config) (startShards n) history net) :
    OneMachine config history net where
  refines := runs_refine h
  ended _ _ _ _ hat hatomic := returned_callEnd h hat hatomic
  distinct _ _ _ _ _ _ _ _ _ _ _ hspans hj hspans' hj' hk hk' :=
    Served.eq h hspans hj hspans' hj' hk hk'

/-- A call returns without having been answered in time. -/
def expires {T : Type} {n : ℕ} : BrokerEvent T n → Bool
  | .returned _ _ (.error .replyTimeout) => true
  | _ => false

/-- Two clients ask shard zero at once; the second does not wait for its answer, and joins its group
after it has returned. -/
def lateJoin : List (Label (Fin 2) (Fin 2) Call) :=
  [.invoke 0 (.initProducer [120]), .invoke 1 (.joinGroup [103] [109] [[116]]), .openChan 0,
    .openChan 1, .send 0, .send 1, .poll 1, .timeOut 1, .finish 1, .take 0, .apply 0, .answer 0,
    .receive 0, .finish 0, .take 0, .apply 0]

theorem runs_oneMachine_lateJoin :
    ∃ (history : List (BrokerEvent (Fin 2) 2)) (net : BrokerNet (Fin 2) 2),
      Runs (system oneTopicBroker oneTopic) (startShards 2) history net ∧
        history.countP succeeds = 1 ∧ history.countP expires = 1 ∧
        OneMachine oneTopic history net := by
  obtain ⟨history, net, hrun, hcheck⟩ :=
    exists_run (system oneTopicBroker oneTopic) (startShards 2) lateJoin
      (fun history _ => history.countP succeeds = 1 ∧ history.countP expires = 1)
      (by decide +kernel)
  exact ⟨history, net, hrun, hcheck.1, hcheck.2, runs_oneMachine hrun⟩

end CharlotteBroker.Runtime
