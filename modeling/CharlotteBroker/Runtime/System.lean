import CharlotteBroker.Lib.RpcHistory
import CharlotteBroker.Runtime.Calls

/-!
# The broker among many clients

The shards of a started broker and any number of client threads, as a system of bounded mailboxes
and reply channels (`system`). Every thread makes broker calls, one after the other; sends, shard
steps, replies and expired retry budgets of all of them interleave in any order.

* `viewAfter` replays the commands a history applied on the broker without shards.
* `runs_refine`: at every point of every run the shards show exactly that view, and every log lives
  on the shard that owns it.
* `applied_answer`: what a shard answers is what the view answers at that point.
-/

namespace CharlotteBroker.Runtime

open CharlotteBroker.Core Lib Lib.Rpc

variable {T : Type} {n : ℕ} [NeZero n]

variable {command : PartitionCommand} {init : Fin n → Shard} {result : PartitionResult}
  {shard : Fin n} {chan : ℕ}

abbrev BrokerEvent (T : Type) (n : ℕ) : Type :=
  Event T (Fin n) PartitionCommand PartitionResult Call (Except BrokerError Answer)

abbrev BrokerNet (T : Type) (n : ℕ) : Type :=
  Net T (Fin n) PartitionCommand PartitionResult Call (Except BrokerError Answer) Shard

/-- The shards' loops and the clients' programs. A mailbox's ring has one slot more than it can use,
and both retry loops make at least one attempt.
Source: `partition.rs`, `partition_task`; `broker.rs`, `send_with_retry`,
`send_coordination_with_retry`, `wait_reply`, `queue_capacity`. Kind: D -/
def system (broker : BrokerConfig) (config : ShardConfig) :
    Service (Fin n) PartitionCommand PartitionResult Call (Except BrokerError Answer) Shard where
  handle shard command := shard.handle config command
  program call := (call.program config.catalog).run
  capacity := broker.mailboxCapacity
  attempts := max broker.maxRetries 1

/-- The states the shards own. -/
def shardsOf (net : BrokerNet T n) : Fin n → Shard := fun shard => (net.servers shard).state

variable {broker : BrokerConfig} (config : ShardConfig)

/-- What one event does to the view: an applied command acts on it. -/
noncomputable def viewStep (view : View) : BrokerEvent T n → View
  | .applied shard _ command _ => (view.serve config shard command).1
  | _ => view

/-- The view after the applied commands of a history. -/
noncomputable def viewAfter (history : List (BrokerEvent T n)) : View :=
  history.foldl (viewStep config) (View.start config)

@[simp] theorem viewAfter_nil : viewAfter config ([] : List (BrokerEvent T n)) =
    View.start config :=
  rfl

@[simp] theorem viewAfter_snoc (history : List (BrokerEvent T n)) (event : BrokerEvent T n) :
    viewAfter config (history ++ [event]) = viewStep config (viewAfter config history) event := by
  simp [viewAfter]

/-- A log changes by log operations only. -/
theorem viewAfter_logs_append (before after : List (BrokerEvent T n)) (key : TopicPartition) :
    ∃ ops : List LogOp, (viewAfter config (before ++ after)).logs key =
      ((viewAfter config before).logs key).run ops := by
  induction after using List.reverseRecOn with
  | nil => exact ⟨[], by rw [List.append_nil]; rfl⟩
  | append_singleton after event ih =>
      obtain ⟨ops, hops⟩ := ih
      rw [← List.append_assoc, viewAfter_snoc]
      rcases event with _ | _ | _ | _ | _ | _ | ⟨shard, chan, command, result⟩ | _ | _ | _ | _ | _
      all_goals try exact ⟨ops, hops⟩
      obtain ⟨ops', -, -, hops'⟩ :=
        View.serve_logs config (viewAfter config (before ++ after)) shard command key
      exact ⟨ops ++ ops', by rw [viewStep, hops', hops, PartitionLog.run_append]⟩

theorem viewAfter_logs_take (history : List (BrokerEvent T n)) (key : TopicPartition) {i j : ℕ}
    (hij : i ≤ j) : ∃ ops : List LogOp, (viewAfter config (history.take j)).logs key =
      ((viewAfter config (history.take i)).logs key).run ops := by
  have hsplit : history.take j = history.take i ++ (history.take j).drop i := by
    conv_lhs => rw [← List.take_append_drop i (history.take j)]
    rw [List.take_take, Nat.min_eq_left hij]
  rw [hsplit]
  exact viewAfter_logs_append config _ _ key

theorem viewAfter_wellFormed (history : List (BrokerEvent T n)) (key : TopicPartition) :
    ((viewAfter config history).logs key).WellFormed := by
  obtain ⟨ops, hops⟩ := viewAfter_logs_append config [] history key
  rw [List.nil_append] at hops
  rw [hops]
  exact PartitionLog.run_wellFormed (PartitionLog.wellFormed_newLog _) ops

section Runs

variable {config} [DecidableEq T] {history : List (BrokerEvent T n)} {net : BrokerNet T n}

/-- The call a command was issued for, and its exchanges up to there. -/
theorem opened_by (h : Runs (system broker config) init history net) {j : ℕ} {t : T}
    (hat : At history j (.opened t chan shard command)) :
    ∃ call next i exchanges, Spans history t call i j ∧
      (call.program config.catalog).run.Follows exchanges (.call shard command next) ∧
      Explained history (Told history) t i exchanges j ∧ Complete history t i exchanges j := by
  obtain ⟨call, next, i, hspans, exchanges, hrest⟩ := h.opened hat
  exact ⟨call, next, i, exchanges, hspans, hrest⟩

/-- The exchanges of a call that returned. -/
theorem returned_by (h : Runs (system broker config) init history net) {j : ℕ} {t : T} {call : Call}
    {result : Except BrokerError Answer} (hat : At history j (.returned t call result)) :
    ∃ i exchanges, Spans history t call i j ∧
      (call.program (n := n) config.catalog).run.Follows exchanges (.ret result) ∧
      Explained history (Told history) t i exchanges j ∧ Complete history t i exchanges j := by
  obtain ⟨i, hspans, exchanges, hrest⟩ := h.returned hat
  exact ⟨i, exchanges, hspans, hrest⟩

/-- Every applied command was sent by some call, to that shard. -/
theorem applied_sent (h : Runs (system broker config) init history net) {k : ℕ}
    (hk : At history k (.applied shard chan command result)) :
    ∃ call : Call, call.Sends config.catalog shard command := by
  obtain ⟨j, t, -, hopened⟩ := h.applied_opened hk
  obtain ⟨call, next, i, exchanges, -, hfollows, -⟩ := opened_by h hopened
  exact ⟨call, ((program_sends config.catalog call).follows hfollows).1⟩

theorem applied_routed (h : Runs (system broker config) init history net) {k : ℕ}
    (hk : At history k (.applied shard chan command result)) : Routed shard command := by
  obtain ⟨call, hsends⟩ := applied_sent h hk
  exact hsends.routed

omit [DecidableEq T] in
/-- Replaying routed commands on the shards and on the view gives related states. -/
theorem replay_refines (hrouted : ∀ k shard chan command result,
      At history k (.applied shard chan command result) → Routed shard command) :
    Refines config (replay (system broker config) (startShards n) history)
      (viewAfter config history) := by
  induction history using List.reverseRecOn with
  | nil => exact refines_start config
  | append_singleton history event ih =>
      have hview := ih fun k shard chan command result hat =>
        hrouted k shard chan command result (hat.append _)
      rw [viewAfter_snoc, replay_snoc]
      rcases event with _ | _ | _ | _ | _ | _ | ⟨shard, chan, command, result⟩ | _ | _ | _ | _ | _
      all_goals try exact hview
      have hroute := hrouted _ shard chan command result (at_last history _)
      exact (serve_refines config hview hroute).1

/-- **At every point of every run the shards show the view.** -/
theorem runs_refine (h : Runs (system broker config) (startShards n) history net) :
    Refines config (shardsOf net) (viewAfter config history) := by
  have hshards : shardsOf net = replay (system broker config) (startShards n) history :=
    funext h.server_state
  rw [hshards]
  exact replay_refines fun _ _ _ _ _ hk => applied_routed h hk

/-- **A shard's answer is the view's answer** at the point the command is applied. -/
theorem applied_answer (h : Runs (system broker config) (startShards n) history net) {k : ℕ}
    (hk : At history k (.applied shard chan command result)) :
    result = ((viewAfter config (history.take k)).serve config shard command).2 := by
  rw [h.applied_result hk]
  have hview : Refines config (replay (system broker config) (startShards n) (history.take k))
      (viewAfter config (history.take k)) :=
    replay_refines fun _ _ _ _ _ hk' => applied_routed h hk'.of_take
  exact (serve_refines config hview (applied_routed h hk)).2

end Runs

end CharlotteBroker.Runtime
