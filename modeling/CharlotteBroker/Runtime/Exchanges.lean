import CharlotteBroker.Runtime.System

/-!
# The exchanges of transactional calls

What can be read off the history about a transactional append or a resolution that was applied:
which call sent it, and what that call had been told before.

* `follows_append`: a call sends a transactional append after its validation was accepted.
* `follows_resolve`: a call sends a resolution after its end was accepted, to the owner of one of
  the partitions enlisted then.
* `follows_end_ok`: a successful end had every enlisted partition's owner resolve.
-/

namespace CharlotteBroker.Runtime

open CharlotteBroker.Core Lib Lib.Rpc

variable {n : ℕ}

variable {α : Type}
  {next : Except Fault PartitionResult →
    Prog (Fin n) PartitionCommand PartitionResult (Except BrokerError Answer)}
  {program : BrokerM n α} {producerId : Int} {commit : Bool} {catalog : TopicCatalog}
  {partitions : List TopicPartition}

/-! ## Exchanges of the parts -/

section Programs

variable {exchanges : List (Exchange (Fin n) PartitionCommand PartitionResult)} {shard : Fin n}
  {command : PartitionCommand}

theorem follows_callShard_ok {shard' : Fin n} {command' : PartitionCommand}
    {result : PartitionResult}
    (h : (callShard shard' command').run.Follows exchanges (.ret (.ok result))) :
    ∃ chan, exchanges = [⟨chan, shard', command', .ok result⟩] := by
  rcases exchanges with _ | ⟨⟨chan, shard'', command'', reply⟩, rest⟩
  · cases (Prog.follows_nil _ _).mp h
  · obtain ⟨hshard, hcommand, hrest⟩ := h
    simp only at hshard hcommand
    subst hshard hcommand
    obtain ⟨rfl, hret⟩ := (Prog.follows_ret _ _ _).mp hrest
    rcases reply with fault | answer
    · cases hret
    · cases hret
      exact ⟨chan, rfl⟩

theorem follows_callShard_call {shard' : Fin n} {command' : PartitionCommand}
    {next : Except Fault PartitionResult →
      Prog (Fin n) PartitionCommand PartitionResult (Except BrokerError PartitionResult)}
    (h : (callShard shard' command').run.Follows exchanges (.call shard command next)) :
    exchanges = [] ∧ shard = shard' ∧ command = command' := by
  rcases exchanges with _ | ⟨exchange, rest⟩
  · cases (Prog.follows_nil _ _).mp h
    exact ⟨rfl, rfl, rfl⟩
  · cases ((Prog.follows_ret _ _ _).mp h.2.2).2

theorem follows_pure_ok {a b : α} (h : (pure a : BrokerM n α).run.Follows exchanges (.ret (.ok b))) :
    exchanges = [] ∧ b = a := by
  obtain ⟨rfl, hret⟩ := (Prog.follows_ret _ _ _).mp h
  cases hret
  exact ⟨rfl, rfl⟩

theorem not_follows_throw_ok {error : BrokerError} {b : α} :
    ¬ (throw error : BrokerM n α).run.Follows exchanges (.ret (.ok b)) := by
  intro h
  cases ((Prog.follows_ret _ _ _).mp h).2

theorem follows_map_call {β : Type} {f : α → β} {next : Except Fault PartitionResult →
      Prog (Fin n) PartitionCommand PartitionResult (Except BrokerError β)}
    (h : (f <$> program).run.Follows exchanges (.call shard command next)) :
    ∃ next', program.run.Follows exchanges (.call shard command next') := by
  rw [map_eq_pure_bind] at h
  rcases Prog.Follows.of_bind_ok_call h with hcall | ⟨first, second, answer, -, -, hrest⟩
  · exact hcall
  · cases ((Prog.follows_ret _ _ _).mp hrest).2

theorem follows_map_ok {β : Type} {f : α → β} {b : β}
    (h : (f <$> program).run.Follows exchanges (.ret (.ok b))) :
    ∃ a, program.run.Follows exchanges (.ret (.ok a)) := by
  rw [map_eq_pure_bind] at h
  obtain ⟨first, second, a, rfl, hprogram, hrest⟩ := Prog.Follows.of_bind_ok h
  obtain ⟨rfl, -⟩ := follows_pure_ok hrest
  rw [List.append_nil]
  exact ⟨a, hprogram⟩

theorem follows_applied_ok {result : CoordinationResult}
    (h : (applied (n := n) result).run.Follows exchanges (.ret (.ok ()))) :
    exchanges = [] ∧ result = .applied := by
  cases result with
  | applied => exact ⟨(follows_pure_ok h).1, rfl⟩
  | _ => exact absurd h not_follows_throw_ok

/-- The part of a method sends nothing: it looks at what it was given. -/
def Looks {α : Type} (program : BrokerM n α) : Prop := ∃ result, program.run = .ret result

theorem Looks.not_call (h : Looks program) {next : Except Fault PartitionResult →
      Prog (Fin n) PartitionCommand PartitionResult (Except BrokerError α)} :
    ¬ program.run.Follows exchanges (.call shard command next) := by
  obtain ⟨result, hrun⟩ := h
  rw [hrun, Prog.follows_ret]
  exact fun hcall => by cases hcall.2

theorem Looks.exchanges_eq (h : Looks program)
    {q : Prog (Fin n) PartitionCommand PartitionResult (Except BrokerError α)}
    (hfollows : program.run.Follows exchanges q) : exchanges = [] := by
  obtain ⟨result, hrun⟩ := h
  rw [hrun, Prog.follows_ret] at hfollows
  exact hfollows.1

theorem looks_applied (result : CoordinationResult) : Looks (applied (n := n) result) := by
  cases result <;> exact ⟨_, rfl⟩

theorem looks_checked (result : Except LogError Unit) : Looks (checked (n := n) result) := by
  rcases result with _ | _ <;> exact ⟨_, rfl⟩

theorem looks_producedOffset (result : PartitionResult) :
    Looks (producedOffset (n := n) result) := by
  cases result <;> exact ⟨_, rfl⟩

variable [NeZero n]

/-- A coordination request that succeeded was one exchange with shard zero. -/
theorem follows_coordinateCall_ok {request : CoordinationRequest} {result : CoordinationResult}
    (h : (coordinateCall (n := n) request).run.Follows exchanges (.ret (.ok result))) :
    ∃ chan, exchanges = [⟨chan, 0, .coordinate request, .ok (.coordination (.ok result))⟩] := by
  obtain ⟨first, second, answer, rfl, hcall, hrest⟩ := Prog.Follows.of_bind_ok h
  obtain ⟨chan, rfl⟩ := follows_callShard_ok hcall
  rcases answer with _ | _ | _ | _ | (error | value) | _ | _
  all_goals first
    | exact absurd hrest not_follows_throw_ok
    | skip
  obtain ⟨rfl, rfl⟩ := follows_pure_ok hrest
  exact ⟨chan, rfl⟩

/-- A coordination request stands at no other call than its own. -/
theorem follows_coordinateCall_call {request : CoordinationRequest}
    {next : Except Fault PartitionResult →
      Prog (Fin n) PartitionCommand PartitionResult (Except BrokerError CoordinationResult)}
    (h : (coordinateCall request).run.Follows exchanges (.call shard command next)) :
    exchanges = [] ∧ shard = 0 ∧ command = .coordinate request := by
  rcases Prog.Follows.of_bind_ok_call h with ⟨next', hcall⟩ | ⟨first, second, answer, -, -, hrest⟩
  · exact follows_callShard_call hcall
  · rcases answer with _ | _ | _ | _ | (error | value) | _ | _
    all_goals cases ((Prog.follows_ret _ _ _).mp hrest).2

/-- The first loop of an end stands at the owner of an enlisted partition. -/
theorem follows_resolvePartitions_call {next : Except Fault PartitionResult →
      Prog (Fin n) PartitionCommand PartitionResult (Except BrokerError Unit)}
    (h : (resolvePartitions producerId commit partitions).run.Follows exchanges
      (.call shard command next)) :
    command = .resolveTransaction producerId commit ∧
      ∃ key ∈ partitions, shard = shardIndex n key := by
  induction partitions generalizing exchanges with
  | nil => cases ((Prog.follows_ret _ _ _).mp h).2
  | cons key rest ih =>
      rcases Prog.Follows.of_bind_ok_call h with
        ⟨next', hcall⟩ | ⟨first, second, answer, -, -, hrest⟩
      · obtain ⟨-, rfl, rfl⟩ := follows_callShard_call hcall
        exact ⟨rfl, key, List.mem_cons_self .., rfl⟩
      · cases answer with
        | resolved =>
            obtain ⟨hcommand, key', hkey', hshard⟩ := ih hrest
            exact ⟨hcommand, key', List.mem_cons_of_mem _ hkey', hshard⟩
        | _ => cases ((Prog.follows_ret _ _ _).mp hrest).2

/-- The first loop of an end, when it succeeded, had every owner resolve. -/
theorem follows_resolvePartitions_ok
    (h : (resolvePartitions producerId commit partitions).run.Follows exchanges (.ret (.ok ())))
    {key : TopicPartition} (hkey : key ∈ partitions) :
    ∃ chan, ⟨chan, shardIndex n key, .resolveTransaction producerId commit, .ok .resolved⟩ ∈
      exchanges := by
  induction partitions generalizing exchanges with
  | nil => exact absurd hkey List.not_mem_nil
  | cons first rest ih =>
      obtain ⟨before, after, answer, rfl, hcall, hrest⟩ := Prog.Follows.of_bind_ok h
      obtain ⟨chan, rfl⟩ := follows_callShard_ok hcall
      cases answer with
      | resolved =>
          rcases List.mem_cons.mp hkey with rfl | hkey'
          · exact ⟨chan, by simp⟩
          · obtain ⟨chan', hmem⟩ := ih hrest hkey'
            exact ⟨chan', List.mem_append_right _ hmem⟩
      | _ => exact absurd hrest not_follows_throw_ok

/-! ## Exchanges of the calls -/

theorem follows_validate_ok {tid : Bytes} {producer : ProducerIdentity} {topic : Bytes}
    {partition : Int}
    (h : (validateTransactionalProduce (n := n) tid producer topic partition).run.Follows exchanges
      (.ret (.ok ()))) :
    ∃ chan, exchanges = [⟨chan, 0, .coordinate (.validateProduce tid producer topic partition),
      .ok (.coordination (.ok .applied))⟩] := by
  obtain ⟨first, second, answer, rfl, hcall, hrest⟩ := Prog.Follows.of_bind_ok h
  obtain ⟨rfl, rfl⟩ := follows_applied_ok hrest
  rw [List.append_nil]
  exact follows_coordinateCall_ok hcall

/-- An append is sent by a call whose validation was accepted. -/
theorem follows_append {call : Call} {topic : Bytes} {partition : Int} {records : List RecordData}
    (h : (call.program catalog).run.Follows exchanges
      (.call shard (.produceTransactional topic partition records producerId) next)) :
    ∃ tid producer chan, call = .produceTransactional tid producer topic partition records ∧
      producer.id = producerId ∧ shard = shardIndex n ⟨topic, partition⟩ ∧
      exchanges = [⟨chan, 0, .coordinate (.validateProduce tid producer topic partition),
        .ok (.coordination (.ok .applied))⟩] := by
  have hsends := ((program_sends catalog call).follows h).1
  cases call <;> simp [Call.Sends] at hsends
  case produceTransactional tid producer topic' partition' records' =>
    obtain ⟨rfl, rfl, rfl, rfl, rfl⟩ := hsends
    obtain ⟨next', hprogram⟩ := follows_map_call h
    rcases Prog.Follows.of_bind_ok_call hprogram with
      ⟨next'', hcall⟩ | ⟨first, second, ⟨⟩, rfl, hvalid, hrest⟩
    · -- the validation itself sends a coordination request only
      rcases Prog.Follows.of_bind_ok_call hcall with
        ⟨next₃, hcoordinate⟩ | ⟨_, _, answer, -, -, happlied⟩
      · cases (follows_coordinateCall_call hcoordinate).2.2
      · exact absurd happlied (looks_applied answer).not_call
    · obtain ⟨chan, rfl⟩ := follows_validate_ok hvalid
      rcases Prog.Follows.of_bind_ok_call hrest with
        ⟨next'', hchecked⟩ | ⟨none, second', ⟨⟩, rfl, hchecked, hcall⟩
      · exact absurd hchecked (looks_checked _).not_call
      · obtain rfl := (looks_checked _).exchanges_eq hchecked
        rcases Prog.Follows.of_bind_ok_call hcall with
          ⟨next₃, happend⟩ | ⟨_, _, answer, -, -, hproduced⟩
        · obtain ⟨rfl, -⟩ := follows_callShard_call happend
          exact ⟨tid, producer, chan, rfl, rfl, rfl, rfl⟩
        · exact absurd hproduced (looks_producedOffset answer).not_call

/-- The second loop of an end sends coordination requests only. -/
theorem not_follows_commitOffsets_resolve {offsets : List TransactionOffset}
    {next : Except Fault PartitionResult →
      Prog (Fin n) PartitionCommand PartitionResult (Except BrokerError Unit)} :
    ¬ (commitOffsets offsets).run.Follows exchanges
      (.call shard (.resolveTransaction producerId commit) next) := by
  intro h
  have hissues : Issues (n := n) (fun _ command => ∃ request, command = .coordinate request)
      (commitOffsets offsets) :=
    issues_commitOffsets (fun _ _ _ _ _ => ⟨_, rfl⟩) offsets
  obtain ⟨request, hcommand⟩ := (hissues.follows h).1
  cases hcommand

/-- A resolution is sent by a call whose end was accepted, to the owner of an enlisted
partition. -/
theorem follows_resolve {call : Call} (h : (call.program catalog).run.Follows exchanges
      (.call shard (.resolveTransaction producerId commit) next)) :
    ∃ tid producer completion chan rest, call = .endTransaction tid producer commit ∧
      producer.id = producerId ∧ (∃ key ∈ completion.partitions, shard = shardIndex n key) ∧
      exchanges = ⟨chan, 0, .coordinate (.endTransaction tid producer commit),
        .ok (.coordination (.ok (.transactionCompleted completion)))⟩ :: rest := by
  have hsends := ((program_sends catalog call).follows h).1
  cases call <;> simp [Call.Sends] at hsends
  case endTransaction tid producer commit' =>
    obtain ⟨rfl, rfl⟩ := hsends
    obtain ⟨next', hprogram⟩ := follows_map_call h
    rcases Prog.Follows.of_bind_ok_call hprogram with
      ⟨next'', hcoordinate⟩ | ⟨first, second, answer, rfl, hend, hrest⟩
    · cases (follows_coordinateCall_call hcoordinate).2.2
    · obtain ⟨chan, rfl⟩ := follows_coordinateCall_ok hend
      cases answer with
      | transactionCompleted completion =>
          refine ⟨tid, producer, completion, chan, second, rfl, rfl, ?_, rfl⟩
          rcases Prog.Follows.of_bind_ok_call hrest with
            ⟨next'', hresolve⟩ | ⟨_, second', ⟨⟩, -, -, hoffsets⟩
          · exact (follows_resolvePartitions_call hresolve).2
          · cases commit with
            | true => exact absurd hoffsets not_follows_commitOffsets_resolve
            | false => cases ((Prog.follows_ret _ _ _).mp hoffsets).2
      | _ => cases ((Prog.follows_ret _ _ _).mp hrest).2

/-- An end that succeeded had the owner of every enlisted partition resolve. -/
theorem follows_end_ok {tid : Bytes} {producer : ProducerIdentity} {answer : Answer}
    (h : ((Call.endTransaction tid producer commit).program (n := n) catalog).run.Follows exchanges
      (.ret (.ok answer))) :
    ∃ completion chan rest, exchanges = ⟨chan, 0, .coordinate (.endTransaction tid producer commit),
        .ok (.coordination (.ok (.transactionCompleted completion)))⟩ :: rest ∧
      ∀ key ∈ completion.partitions, ∃ chan',
        ⟨chan', shardIndex n key, .resolveTransaction producer.id commit, .ok .resolved⟩ ∈ rest := by
  obtain ⟨⟨⟩, hprogram⟩ := follows_map_ok h
  obtain ⟨first, second, result, rfl, hend, hrest⟩ := Prog.Follows.of_bind_ok hprogram
  obtain ⟨chan, rfl⟩ := follows_coordinateCall_ok hend
  cases result with
  | transactionCompleted completion =>
      refine ⟨completion, chan, second, rfl, ?_⟩
      obtain ⟨resolves, offsets, ⟨⟩, rfl, hresolves, -⟩ := Prog.Follows.of_bind_ok hrest
      intro key hkey
      obtain ⟨chan', hmem⟩ := follows_resolvePartitions_ok hresolves hkey
      exact ⟨chan', List.mem_append_left _ hmem⟩
  | _ => exact absurd hrest not_follows_throw_ok

end Programs

end CharlotteBroker.Runtime
