import CharlotteBroker.Runtime.Coordinator
import CharlotteBroker.Runtime.Locality
import CharlotteBroker.Runtime.RealTime

/-!
# Who may still act

Producers hold an identity and group members a generation. Both are given out by shard zero, and
both are taken back by giving out the next. This module says what that is worth to clients that do
not know of each other, in every interleaving of their calls.

* `transactionOps`, `groupOps`: what a history asked of the coordinators, which are the doing of
  exactly these operations.
* `Call.gate`: the request a call starts with. If it is refused, the call did nothing else.
* `identities_distinct`: two producers never hold the same identity, until the epochs run out.
* `zombie_fenced`: once a newer producer has its identity, the older one gets nothing done.
* `generations_fenced`: once somebody joined or left, a generation of before commits nothing and is
  alive no longer.
* `committed_offset_read`: an offset that was committed is read, or a later one.
-/

namespace CharlotteBroker.Runtime

open CharlotteBroker.Core Lib Lib.Rpc

variable {T : Type} {n : ℕ}

variable {transactions : TransactionCoordinator} {assignments : List GroupAssignment}
  {subscriptions : List Bytes} {groups : GroupCoordinator} {event : BrokerEvent T n}
  {partitions : List TopicPartition} {member : Bytes}

/-! ## What a history asked of the coordinators -/

/-- The operation an event is for the transaction coordinator. -/
def askedTransaction : BrokerEvent T n → Option TransactionOp
  | .applied _ _ (.coordinate request) _ => request.transactionOp?
  | _ => none

/-- The operation an event is for the group coordinator. -/
def askedGroup : BrokerEvent T n → Option GroupOp
  | .applied _ _ (.coordinate request) _ => request.groupOp?
  | _ => none

def transactionOps (history : List (BrokerEvent T n)) : List TransactionOp :=
  history.filterMap askedTransaction

def groupOps (history : List (BrokerEvent T n)) : List GroupOp :=
  history.filterMap askedGroup

theorem askedGroup_eq_some {op : GroupOp} (h : askedGroup event = some op) :
    ∃ shard chan request result,
      event = .applied shard chan (.coordinate request) result ∧ request.groupOp? = some op := by
  unfold askedGroup at h
  split at h
  · exact ⟨_, _, _, _, rfl, h⟩
  · cases h

theorem coordinate_transactions_eq (transactions : TransactionCoordinator)
    (groups : GroupCoordinator)
    (request : CoordinationRequest) :
    (coordinate transactions groups request).1.1 =
      (request.transactionOp?).elim transactions fun op => op.apply transactions := by
  cases request <;> rfl

variable [NeZero n] (config : ShardConfig)

/-- Only a coordination request touches the coordinators. -/
theorem View.serve_coordinators (view : View) (shard : Fin n) {command : PartitionCommand}
    (h : ∀ request, command ≠ .coordinate request) :
    (view.serve config shard command).1.transactions = view.transactions ∧
      (view.serve config shard command).1.groups = view.groups := by
  cases command with
  | coordinate request => exact absurd rfl (h request)
  | resolveTransaction producerId commit => exact ⟨rfl, rfl⟩
  | shutdown => exact ⟨rfl, rfl⟩
  | _ =>
      rw [View.serve_onLog config view shard rfl]
      unfold View.withLog
      split <;> exact ⟨rfl, rfl⟩

/-- **The coordinators are the doing of what they were asked.** -/
theorem viewAfter_coordinators (history : List (BrokerEvent T n)) :
    (viewAfter config history).transactions =
        TransactionCoordinator.new.run (transactionOps history) ∧
      (viewAfter config history).groups = GroupCoordinator.new.run (groupOps history) := by
  induction history using List.reverseRecOn with
  | nil => exact ⟨rfl, rfl⟩
  | append_singleton history event ih =>
      obtain ⟨htransactions, hgroups⟩ := ih
      unfold transactionOps groupOps at *
      rw [viewAfter_snoc, List.filterMap_append, List.filterMap_append,
        TransactionCoordinator.run_append, GroupCoordinator.run_append, ← htransactions, ← hgroups]
      rcases event with _ | _ | _ | _ | _ | _ | ⟨shard, chan, command, result⟩ | _ | _ | _ | _ | _
      all_goals try exact ⟨rfl, rfl⟩
      cases command with
      | coordinate request =>
          constructor
          · show (coordinate _ _ request).1.1 = _
            rw [coordinate_transactions_eq]
            simp only [List.filterMap_cons, List.filterMap_nil, askedTransaction]
            rcases request.transactionOp? with _ | op <;> rfl
          · show (coordinate _ _ request).1.2 = _
            rw [coordinate_groups]
            simp only [List.filterMap_cons, List.filterMap_nil, askedGroup]
            rcases request.groupOp? with _ | op <;> rfl
      | _ => exact View.serve_coordinators config (viewAfter config history) shard (by simp)

/-! ## The request a call starts with -/

/-- The request a call about groups or transactions starts with. -/
def Call.gate (catalog : TopicCatalog) : Call → Option CoordinationRequest
  | .produceTransactional transactionalId producer topic partition _ =>
      some (.validateProduce transactionalId producer topic partition)
  | .endTransaction transactionalId producer commit =>
      some (.endTransaction transactionalId producer commit)
  | call => call.request catalog

section Programs

variable {exchanges : List (Exchange (Fin n) PartitionCommand PartitionResult)}

theorem program_gate {catalog : TopicCatalog} {call : Call} {request : CoordinationRequest}
    (h : call.gate catalog = some request) :
    ∃ next : CoordinationResult → BrokerM n Answer,
      call.program catalog = coordinateCall request >>= next := by
  cases call with
  | produceTransactional tid producer topic partition records =>
      cases h
      -- the check is a call of its own inside the produce
      exact ⟨_, (map_eq_pure_bind _ _).trans
        ((congrArg (· >>= _) (bind_assoc _ _ _)).trans (bind_assoc _ _ _))⟩
  | _ => cases h <;> exact ⟨_, (map_eq_pure_bind _ _).trans (bind_assoc _ _ _)⟩

/-- A call starts by asking shard zero, passes a fault on, and does nothing more when refused. -/
theorem follows_gate {catalog : TopicCatalog} {call : Call} {request : CoordinationRequest}
    {result : Except BrokerError Answer} (hgate : call.gate catalog = some request)
    (h : (call.program catalog).run.Follows exchanges (.ret result)) :
    ∃ chan reply rest, exchanges = ⟨chan, 0, .coordinate request, reply⟩ :: rest ∧
      (∀ fault, reply = .error fault → rest = [] ∧ result = .error (faultError fault)) ∧
      ∀ error, reply = .ok (.coordination (.error error)) →
        rest = [] ∧ result = .error (.coordination error) := by
  obtain ⟨next, hprogram⟩ := program_gate (n := n) hgate
  rw [hprogram] at h
  rcases exchanges with _ | ⟨⟨chan, shard, command, reply⟩, rest⟩
  · cases (Prog.follows_nil _ _).mp h
  · obtain ⟨hshard, hcommand, hrest⟩ := h
    simp only at hshard hcommand
    subst hshard hcommand
    refine ⟨chan, reply, rest, rfl, ?_, ?_⟩
    · rintro fault rfl
      obtain ⟨hnil, hret⟩ := (Prog.follows_ret _ _ _).mp hrest
      exact ⟨hnil, Prog.ret.inj hret⟩
    · rintro error rfl
      obtain ⟨hnil, hret⟩ := (Prog.follows_ret _ _ _).mp hrest
      exact ⟨hnil, Prog.ret.inj hret⟩

end Programs

/-- The transactions and groups before the event at `k`. -/
noncomputable def transactionsAt (history : List (BrokerEvent T n)) (k : ℕ) :
    TransactionCoordinator :=
  (viewAfter config (history.take k)).transactions

noncomputable def groupsAt (history : List (BrokerEvent T n)) (k : ℕ) : GroupCoordinator :=
  (viewAfter config (history.take k)).groups

section Moments

variable (history : List (BrokerEvent T n))

theorem transactionsAt_eq_run (k : ℕ) :
    transactionsAt config history k =
      TransactionCoordinator.new.run (transactionOps (history.take k)) :=
  (viewAfter_coordinators config (history.take k)).1

theorem groupsAt_eq_run (k : ℕ) :
    groupsAt config history k = GroupCoordinator.new.run (groupOps (history.take k)) :=
  (viewAfter_coordinators config (history.take k)).2

omit [NeZero n] in
theorem take_split {i j : ℕ} (hij : i ≤ j) :
    ∃ between, history.take j = history.take i ++ between := by
  refine ⟨(history.take j).drop i, ?_⟩
  conv_lhs => rw [← List.take_append_drop i (history.take j)]
  rw [List.take_take, Nat.min_eq_left hij]

theorem groupsAt_succ {k : ℕ} (hk : At history k event) :
    groupsAt config history (k + 1) =
      (askedGroup event).elim (groupsAt config history k) fun op =>
        op.apply (groupsAt config history k) := by
  rw [groupsAt_eq_run, groupsAt_eq_run, hk.take_succ]
  unfold groupOps
  rw [List.filterMap_append, GroupCoordinator.run_append, List.filterMap_cons, List.filterMap_nil]
  rcases askedGroup event with _ | op <;> rfl

/-- Between two moments the coordinators do what they are asked. -/
theorem transactionsAt_run {i j : ℕ} (hij : i ≤ j) :
    ∃ ops, transactionsAt config history j = (transactionsAt config history i).run ops := by
  obtain ⟨between, hsplit⟩ := take_split history hij
  refine ⟨transactionOps between, ?_⟩
  rw [transactionsAt_eq_run, transactionsAt_eq_run, hsplit, ← TransactionCoordinator.run_append]
  unfold transactionOps
  rw [List.filterMap_append]

omit [NeZero n] in
theorem groupOps_take {i j : ℕ} (hij : i ≤ j) :
    ∃ between, groupOps (history.take j) = groupOps (history.take i) ++ between := by
  obtain ⟨between, hsplit⟩ := take_split history hij
  refine ⟨groupOps between, ?_⟩
  unfold groupOps
  rw [hsplit, List.filterMap_append]

end Moments

section Runs

variable {config} {broker : BrokerConfig} [DecidableEq T] {history : List (BrokerEvent T n)}
  {net : BrokerNet T n} {t : T} {call : Call} {result : Except BrokerError Answer} {i j : ℕ}
  {request : CoordinationRequest}

/-- A request was answered at `k`. -/
def AskedAt (history : List (BrokerEvent T n)) (request : CoordinationRequest)
    (answer : Except CoordinationError CoordinationResult) (k : ℕ) : Prop :=
  ∃ chan, At history k (.applied 0 chan (.coordinate request) (.coordination answer))

variable (h : Runs (system broker config) (startShards n) history net)
include h

theorem AskedAt.coordinate {answer : Except CoordinationError CoordinationResult} {k : ℕ}
    (hasked : AskedAt history request answer k) :
    Runtime.coordinate (transactionsAt config history k) (groupsAt config history k) request =
      ((transactionsAt config history (k + 1), groupsAt config history (k + 1)), answer) := by
  obtain ⟨chan, hk⟩ := hasked
  unfold transactionsAt groupsAt
  have hanswer := applied_answer h hk
  rw [hk.take_succ, viewAfter_snoc]
  cases hanswer
  rfl

/-- The exchanges of a call that starts with a request: the first is that request. -/
theorem Ran.starts (hran : Ran history t call result i j)
    (hgate : call.gate config.catalog = some request) :
    ∃ chan reply rest p k, i < p ∧ p ≤ k ∧ k < j ∧
      At history p (.opened t chan 0 (.coordinate request)) ∧
      Told history ⟨chan, 0, .coordinate request, reply⟩ k ∧
      Complete history t i (⟨chan, 0, .coordinate request, reply⟩ :: rest) j ∧
      (∀ fault, reply = .error fault → rest = [] ∧ result = .error (faultError fault)) ∧
      ∀ error, reply = .ok (.coordination (.error error)) →
        rest = [] ∧ result = .error (.coordination error) := by
  obtain ⟨i', exchanges, hspans, hfollows, hexplained, hcomplete⟩ := returned_by h hran.returned
  obtain ⟨rfl, -⟩ := hran.spans.unique hspans hran.lt (Nat.le_refl j) hexplained.lt (Nat.le_refl j)
  obtain ⟨chan, reply, rest, rfl, hfault, hrefused⟩ := follows_gate hgate hfollows
  obtain ⟨p, k, hip, hpk, hopened, htold, hrest⟩ := hexplained
  exact ⟨chan, reply, rest, p, k, hip, hpk, hrest.lt, hopened, htold, hcomplete, hfault, hrefused⟩

/-- **How a call starts.** Its request was lost on the way, or was answered at a moment of its
interval; a refusal is the call's result. -/
theorem Ran.gate (hran : Ran history t call result i j)
    (hgate : call.gate config.catalog = some request) :
    result = .error .mailboxUnavailable ∨ result = .error .replyTimeout ∨
      ∃ k answer, i < k ∧ k < j ∧ Served history t i j k ∧ AskedAt history request answer k ∧
        ∀ error, answer = .error error → result = .error (.coordination error) := by
  obtain ⟨chan, reply, rest, p, k, hip, hpk, hkj, hopened, htold, -, hfault, hrefused⟩ :=
    hran.starts h hgate
  rcases reply with (_ | _) | reply
  · exact Or.inl (hfault _ rfl).2
  · exact Or.inr (Or.inl (hfault _ rfl).2)
  · have happlied : At history k (.applied 0 chan (.coordinate request) reply) := htold
    obtain ⟨rfl, -⟩ := applied_coordinate h happlied
    refine Or.inr (Or.inr ⟨k, _, by omega, hkj, ⟨p, chan, 0, _, _, hip, by omega, hopened, happlied⟩,
      ⟨chan, happlied⟩, fun error herror => (hrefused error ?_).2⟩)
    rw [← herror]

/-- A call that succeeds had its request granted. -/
theorem Ran.granted {answer : Answer} (hran : Ran history t call (.ok answer) i j)
    (hgate : call.gate config.catalog = some request) :
    ∃ k value, i < k ∧ k < j ∧ Served history t i j k ∧ AskedAt history request (.ok value) k := by
  rcases hran.gate h hgate with hlost | hlost | ⟨k, reply, hik, hkj, hserved, hasked, hrefused⟩
  · cases hlost
  · cases hlost
  · rcases reply with error | value
    · cases hrefused error rfl
    · exact ⟨k, value, hik, hkj, hserved, hasked⟩

/-- A call that asks once and succeeds did at the moment its request was granted what it does
alone. -/
theorem Ran.performed {answer : Answer} (hran : Ran history t call (.ok answer) i j)
    (hatomic : call.atomic = true) (hgate : call.gate config.catalog = some request) :
    ∃ k value, i < k ∧ k < j ∧ Served history t i j k ∧ AskedAt history request (.ok value) k ∧
      (viewAfter config (history.take k)).perform config n call =
        (viewAfter config (history.take (k + 1)), .ok answer) := by
  obtain ⟨k, value, hik, hkj, hserved, hasked⟩ := hran.granted h hgate
  cases hran.callEnd h hatomic with
  | acted k' _ _ _ honly hperforms _ =>
      obtain rfl := honly k hserved
      exact ⟨k, value, hik, hkj, hserved, hasked, hperforms⟩
  | unheard hresult _ => cases hresult
  | unanswered hresult _ _ => cases hresult

/-! ## Requests that are refused -/

/-- The coordinators turn the request down and stay as they are. -/
def Refuses (transactions : TransactionCoordinator) (groups : GroupCoordinator)
    (request : CoordinationRequest) : Prop :=
  ∃ error, Runtime.coordinate transactions groups request = ((transactions, groups), .error error)

omit h in
theorem refuses_of_isOk
    (hsame : (Runtime.coordinate transactions groups request).1 = (transactions, groups))
    (hnot : (Runtime.coordinate transactions groups request).2.isOk = false) :
    Refuses transactions groups request := by
  rcases hresult : (Runtime.coordinate transactions groups request).2 with error | value
  · exact ⟨error, Prod.ext hsame hresult⟩
  · rw [hresult] at hnot
    cases hnot

omit h in
theorem refuses_transactionOp {op : TransactionOp} (hop : request.transactionOp? = some op)
    (hnot : op.accepted transactions = false) : Refuses transactions groups request := by
  obtain ⟨hstate, hanswer⟩ := coordinate_transactionOp transactions groups hop
  refine refuses_of_isOk ?_ (hanswer.trans hnot)
  rcases op.apply_cases transactions with ⟨-, hsame⟩ | ⟨haccepted, -⟩ | ⟨haccepted, -⟩
  · rw [hstate, hsame]
  · rw [haccepted] at hnot
    cases hnot
  · rw [haccepted] at hnot
    cases hnot

omit h in
theorem refuses_groupOp {op : GroupOp} (hop : request.groupOp? = some op)
    (hnot : op.accepted groups = false) :
    Refuses transactions groups request := by
  obtain ⟨hstate, hanswer⟩ := coordinate_groupOp transactions groups hop
  refine refuses_of_isOk ?_ (hanswer.trans hnot)
  rw [hstate, GroupOp.apply_of_refused hnot]

/-- The call came back without success, and nothing it sent changed anything, then or later. -/
structure Fruitless (config : ShardConfig) (history : List (BrokerEvent T n)) (t : T)
    (result : Except BrokerError Answer) (i j : ℕ) : Prop where
  failed : result = .error .mailboxUnavailable ∨ result = .error .replyTimeout ∨
    ∃ error, result = .error (.coordination error)
  unchanged : ∀ k, Served history t i j k →
    viewAfter config (history.take (k + 1)) = viewAfter config (history.take k)

/-- **A call whose request is refused from its invocation on is fruitless.** -/
theorem Ran.fruitless (hran : Ran history t call result i j)
    (hgate : call.gate config.catalog = some request) (hrefuses : ∀ k, i < k →
      Refuses (transactionsAt config history k) (groupsAt config history k) request) :
    Fruitless config history t result i j := by
  obtain ⟨chan, reply, rest, p, k, hip, hpk, hkj, hopened, htold, hcomplete, hfault, hrefused⟩ :=
    hran.starts h hgate
  have hend : rest = [] ∧ (result = .error .mailboxUnavailable ∨ result = .error .replyTimeout ∨
      ∃ error, result = .error (.coordination error)) := by
    rcases reply with (_ | _) | reply
    · exact ⟨(hfault _ rfl).1, Or.inl (hfault _ rfl).2⟩
    · exact ⟨(hfault _ rfl).1, Or.inr (Or.inl (hfault _ rfl).2)⟩
    · have happlied : At history k (.applied 0 chan (.coordinate request) reply) := htold
      obtain ⟨rfl, -⟩ := applied_coordinate h happlied
      obtain ⟨error, herror⟩ := hrefuses k (by omega)
      obtain ⟨hnil, hresult⟩ := hrefused error
        (congrArg (fun answer => Except.ok (PartitionResult.coordination answer))
          (Prod.ext_iff.mp herror).2)
      exact ⟨hnil, Or.inr (Or.inr ⟨error, hresult⟩)⟩
  obtain ⟨rfl, hfailed⟩ := hend
  refine ⟨hfailed, fun k' hserved => ?_⟩
  -- what was applied is the one request, after the invocation
  obtain ⟨server, command, answer, happlied⟩ := hcomplete.served hserved
  obtain ⟨p', t', hlt, hopened'⟩ := h.applied_opened happlied
  obtain rfl := h.opened_once hopened hopened'
  cases hopened.eq hopened'
  obtain ⟨error, herror⟩ := hrefuses k' (by omega)
  rw [happlied.take_succ, viewAfter_snoc]
  show View.mk (Runtime.coordinate _ _ request).1.1 (Runtime.coordinate _ _ request).1.2 _ = _
  unfold transactionsAt groupsAt at herror
  rw [herror]

/-! ## Producer identities -/

/-- The identity was issued at `k`. -/
def IssuedAt (config : ShardConfig) (history : List (BrokerEvent T n)) (tid : Bytes)
    (identity : ProducerIdentity) (k : ℕ) : Prop :=
  (transactionsAt config history k).init tid = (transactionsAt config history (k + 1), .ok identity)

section Identities

variable {tid tid' : Bytes} {identity identity' : ProducerIdentity} {k k' : ℕ}

theorem Ran.issued (hran : Ran history t (.initProducer tid) (.ok (.identity identity)) i j) :
    ∃ k, i < k ∧ k < j ∧ Served history t i j k ∧ IssuedAt config history tid identity k := by
  obtain ⟨k, -, hik, hkj, hserved, -, hperforms⟩ := hran.performed h rfl rfl
  refine ⟨k, hik, hkj, hserved, ?_⟩
  rw [perform_initProducer] at hperforms
  obtain ⟨hview, hanswer⟩ := Prod.ext_iff.mp hperforms
  refine Prod.ext (congrArg View.transactions hview) ?_
  simp only at hanswer
  unfold transactionsAt
  rcases hinit : ((viewAfter config (history.take k)).transactions.init tid).2 with error | issued
  · rw [hinit] at hanswer
    cases hanswer
  · rw [hinit] at hanswer
    cases hanswer
    rfl

omit h [DecidableEq T] in
/-- From then on the transactional id has this producer id, and no lower epoch. -/
theorem IssuedAt.issued (h : IssuedAt config history tid identity k) (hlt : k < k') :
    Issued (transactionsAt config history k') tid identity.id identity.epoch := by
  have hafter := identityOf_of_init_ok (Prod.ext_iff.mp h).2
  rw [h] at hafter
  obtain ⟨ops, hops⟩ := transactionsAt_run config history (i := k + 1) hlt
  rw [hops]
  refine Issued.run ⟨identity, hafter, rfl, le_rfl, ?_⟩ ops
  rw [transactionsAt_eq_run] at hafter
  exact identityOf_run_le _ hafter

omit h [DecidableEq T] in
/-- What is issued next has the same producer id and the next epoch, if there is one. -/
theorem IssuedAt.next (h : IssuedAt config history tid identity k)
    (h' : IssuedAt config history tid identity' k') (hlt : k < k') :
    identity'.id = identity.id ∧ min (identity.epoch + 1) i16Max ≤ identity'.epoch := by
  obtain ⟨hid, hepoch, -⟩ := (h.issued hlt).issue
  rcases tid with _ | ⟨byte, tid⟩
  · cases (Prod.ext_iff.mp h').2
  · cases (Prod.ext_iff.mp h').2
    exact ⟨hid, hepoch⟩

omit h [DecidableEq T] in
theorem IssuedAt.getElem_length (h : IssuedAt config history tid identity k)
    (hk : k < history.length) :
    ∃ transaction, (TransactionCoordinator.new.run (transactionOps history)).transactions[tid]? =
      some transaction ∧ transaction.identity.id = identity.id := by
  obtain ⟨current, hcurrent, hid, -⟩ := h.issued hk
  rw [transactionsAt_eq_run, List.take_length] at hcurrent
  unfold TransactionCoordinator.identityOf at hcurrent
  obtain ⟨transaction, htransaction, rfl⟩ := Option.map_eq_some_iff.mp hcurrent
  exact ⟨transaction, htransaction, hid⟩

omit h in
/-- **Two producers never hold the same identity**, while there are epochs left. Producers of one
transactional id share its producer id, and a later one has a later epoch; producers of different
transactional ids have different producer ids. -/
theorem identities_distinct (h : Runs (system broker config) (startShards n) history net)
    (hfew : (transactionOps history).countP TransactionOp.isInit < 2 ^ 63 - 1) {t' : T} {i' j' : ℕ}
    (hran : Ran history t (.initProducer tid) (.ok (.identity identity)) i j)
    (hran' : Ran history t' (.initProducer tid') (.ok (.identity identity')) i' j') :
    (identity.id = identity'.id ↔ tid = tid') ∧
      (tid = tid' → j < i' → identity.epoch < identity'.epoch ∨ identity.epoch = i16Max) ∧
      (identity = identity' → j = j' ∨ identity.epoch = i16Max) := by
  obtain ⟨k, hik, hkj, hserved, hissued⟩ := hran.issued h
  obtain ⟨k', hik', hkj', hserved', hissued'⟩ := hran'.issued h
  have hlength := hran.returned.lt
  have hlength' := hran'.returned.lt
  have hepoch : identity.epoch ≤ i16Max := by
    obtain ⟨current, -, -, hle, hmax⟩ := hissued.issued (Nat.lt_succ_self k)
    omega
  have hids : identity.id = identity'.id → tid = tid' := by
    intro hid
    obtain ⟨transaction, hget, hof⟩ := hissued.getElem_length (by omega)
    obtain ⟨transaction', hget', hof'⟩ := hissued'.getElem_length (by omega)
    obtain ⟨allocated, -, hdistinct, -⟩ := TransactionCoordinator.run_distinctIds _ hfew
    exact hdistinct.distinct tid tid' transaction transaction' hget hget' (by omega)
  have hmoment : k = k' → j = j' := by
    rintro rfl
    exact Served.eq h hran.spans hran.returned hran'.spans hran'.returned hserved hserved'
  refine ⟨⟨hids, ?_⟩, ?_, ?_⟩
  · rintro rfl
    rcases Nat.lt_trichotomy k k' with hlt | rfl | hlt
    · exact (hissued.next hissued' hlt).1.symm
    · cases (Prod.ext_iff.mp (hissued.symm.trans hissued')).2
      rfl
    · exact (hissued'.next hissued hlt).1
  · rintro rfl hafter
    have hnext := (hissued.next hissued' (by omega)).2
    omega
  · rintro rfl
    obtain rfl := hids rfl
    rcases Nat.lt_trichotomy k k' with hlt | hkk | hlt
    · have hnext := (hissued.next hissued' hlt).2
      omega
    · exact Or.inl (hmoment hkk)
    · have hnext := (hissued'.next hissued hlt).2
      omega

/-- The identity an operation of a producer shows. -/
def shownIdentity : TransactionOp → Option ProducerIdentity
  | .init _ => none
  | .addPartition _ identity _ _ => some identity
  | .validateProduce _ identity _ _ => some identity
  | .addOffset _ identity _ => some identity
  | .endTransaction _ identity _ => some identity

omit h in
/-- Only the current identity gets anything done. -/
theorem accepted_shown {op : TransactionOp} (hshown : shownIdentity op = some identity)
    (haccepted : op.accepted transactions = true) :
    transactions.identityOf op.transactionalId = some identity := by
  rcases op.apply_cases transactions with ⟨hnot, -⟩ | ⟨-, tid, rfl, -⟩ |
    ⟨-, transaction, hget, hadmits, -⟩
  · rw [haccepted] at hnot
    cases hnot
  · cases hshown
  · unfold TransactionCoordinator.identityOf
    rw [hget]
    cases op with
    | init tid => exact hadmits.elim
    | _ =>
        cases hshown
        exact congrArg some hadmits.1

omit h in
/-- **A producer that was superseded gets nothing done.** Once the newer one has its identity, a
call that shows an older one (a lower epoch, or another producer id) comes back without success and
changes nothing in the broker, even if its request is late. -/
theorem zombie_fenced (h : Runs (system broker config) (startShards n) history net)
    (hran : Ran history t (.initProducer tid) (.ok (.identity identity)) i j) {t' : T} {i' j' : ℕ}
    {op : TransactionOp} (hran' : Ran history t' call result i' j')
    (hop : (call.gate config.catalog).bind CoordinationRequest.transactionOp? = some op)
    (htid : op.transactionalId = tid) (hshown : shownIdentity op = some identity')
    (holder : identity'.epoch < identity.epoch ∨ identity'.id ≠ identity.id) (hafter : j < i') :
    Fruitless config history t' result i' j' := by
  obtain ⟨request, hgate, hop⟩ := Option.bind_eq_some_iff.mp hop
  obtain ⟨k, -, hkj, -, hissued⟩ := hran.issued h
  refine hran'.fruitless h hgate fun k' hk' => refuses_transactionOp hop ?_
  rw [← Bool.not_eq_true]
  intro haccepted
  obtain ⟨current, hcurrent, hid, hle, -⟩ := hissued.issued (show k < k' by omega)
  have hsame := accepted_shown hshown haccepted
  rw [htid, hcurrent] at hsame
  cases hsame
  omega

end Identities

/-! ## Generations -/

section Generations

variable {group : Bytes} {k k' : ℕ}

/-- The generation of a group before the event at `k`. -/
noncomputable def generationAt (config : ShardConfig) (history : List (BrokerEvent T n))
    (group : Bytes) (k : ℕ) : Int :=
  ((groupsAt config history k).groupOf group).generation

/-- The changes of membership a group had seen by then. -/
def changesBy (history : List (BrokerEvent T n)) (group : Bytes) (k : ℕ) : ℕ :=
  (GroupCoordinator.new.acceptedOps (groupOps (history.take k))).countP (GroupOp.changes group)

omit h [DecidableEq T] in
theorem generationAt_eq (k : ℕ) :
    generationAt config history group k = min (changesBy history group k : Int) i32Max := by
  unfold generationAt changesBy
  rw [groupsAt_eq_run, GroupCoordinator.generation_run]

omit h in
variable (history group) in
omit [NeZero n] [DecidableEq T] in
theorem changesBy_mono (hle : k ≤ k') : changesBy history group k ≤ changesBy history group k' := by
  obtain ⟨between, hbetween⟩ := groupOps_take history hle
  unfold changesBy
  rw [hbetween, GroupCoordinator.acceptedOps_append, List.countP_append]
  exact Nat.le_add_right _ _

omit h in
theorem acceptedOps_sublist (coordinator : GroupCoordinator) (ops : List GroupOp) :
    (coordinator.acceptedOps ops).Sublist ops := by
  induction ops generalizing coordinator with
  | nil => exact List.Sublist.slnil
  | cons op ops ih =>
      unfold GroupCoordinator.acceptedOps
      split
      · exact (ih _).cons_cons op
      · exact (ih _).cons op

omit h in
variable (history group) in
omit [NeZero n] [DecidableEq T] in
theorem changesBy_le (k : ℕ) :
    changesBy history group k ≤ (groupOps history).countP (GroupOp.changes group) := by
  unfold changesBy
  refine ((acceptedOps_sublist _ _).countP_le).trans ?_
  unfold groupOps
  exact (((List.take_sublist k history).filterMap _).countP_le)

/-- A granted request counts. -/
theorem AskedAt.changes {value : CoordinationResult}
    (hasked : AskedAt history request (.ok value) k) {op : GroupOp}
    (hop : request.groupOp? = some op) (hchanges : op.changes group = true) :
    changesBy history group (k + 1) = changesBy history group k + 1 := by
  have haccepted : op.accepted (groupsAt config history k) = true := by
    rw [← (coordinate_groupOp (transactionsAt config history k) _ hop).2, hasked.coordinate h]
    rfl
  obtain ⟨chan, hk⟩ := hasked
  rw [groupsAt_eq_run] at haccepted
  unfold changesBy groupOps at *
  rw [hk.take_succ, List.filterMap_append, GroupCoordinator.acceptedOps_append, List.countP_append]
  simp [askedGroup, hop, GroupCoordinator.acceptedOps, haccepted, hchanges]

/-- A granted join is what the coordinator answered. -/
theorem AskedAt.join {generation : Int}
    (hasked : AskedAt history (.joinGroup group member subscriptions partitions)
      (.ok (.group generation assignments)) k) :
    (groupsAt config history k).join group member subscriptions partitions =
      (groupsAt config history (k + 1), .ok (generation, assignments)) := by
  have hcoordinate := hasked.coordinate h
  unfold Runtime.coordinate at hcoordinate
  obtain ⟨hstate, hanswer⟩ := Prod.ext_iff.mp hcoordinate
  rcases hjoin : ((groupsAt config history k).join group member subscriptions partitions).2 with
    error | joined
  · simp only [hjoin] at hanswer
    cases hanswer
  · simp only [hjoin] at hanswer
    cases hanswer
    exact Prod.ext (congrArg Prod.snd hstate) hjoin

/-- What a join returns is the generation of the group from then on. -/
theorem AskedAt.generation {generation : Int}
    (hasked : AskedAt history (.joinGroup group member subscriptions partitions)
      (.ok (.group generation assignments)) k) :
    generationAt config history group (k + 1) = generation := by
  obtain ⟨hstate, hok⟩ := Prod.ext_iff.mp (hasked.join h)
  unfold generationAt
  rw [← show _ = groupsAt config history (k + 1) from hstate, groupOf_join hok]
  exact (GroupCoordinator.join_ok hok).2.1.symm

/-- An answered join was granted at a moment of its interval. -/
theorem Ran.joined {generation : Int} (hran : Ran history t (.joinGroup group member subscriptions)
      (.ok (.group generation assignments)) i j) :
    ∃ k, i < k ∧ k < j ∧ Served history t i j k ∧
      AskedAt history (.joinGroup group member subscriptions (catalogPartitions config.catalog))
        (.ok (.group generation assignments)) k := by
  obtain ⟨k, value, hik, hkj, hserved, hasked, hperforms⟩ := hran.performed h rfl rfl
  refine ⟨k, hik, hkj, hserved, ?_⟩
  unfold View.perform at hperforms
  rw [Call.program, View.run_map, run_joinGroup] at hperforms
  have hanswer := congrArg Prod.snd hperforms
  have hvalue := congrArg Prod.snd (hasked.coordinate h)
  simp only [Runtime.coordinate] at hanswer hvalue
  change Except.map _ ((viewAfter config (history.take k)).groups.join _ _ _ _).2 = _ at hvalue
  rcases hjoin : ((viewAfter config (history.take k)).groups.join group member subscriptions
      (catalogPartitions config.catalog)).2 with error | joined
  · rw [hjoin] at hanswer
    cases hanswer
  · rw [hjoin] at hanswer hvalue
    cases hanswer
    cases hvalue
    exact hasked

omit h in
/-- **A generation that was superseded gets nothing done.** Once a change of membership after the
join has come back, a call that shows the generation of the join comes back without success and
changes nothing in the broker, even if its request is late. -/
theorem generations_fenced (h : Runs (system broker config) (startShards n) history net)
    (hfew : (groupOps history).countP (GroupOp.changes group) < 2 ^ 31 - 1) {member : Bytes}
    {subscriptions : List Bytes} {generation : Int} {assignments : List GroupAssignment}
    (hran : Ran history t (.joinGroup group member subscriptions)
      (.ok (.group generation assignments)) i j)
    {t' : T} {call' : Call} {answer : Answer} {i' j' : ℕ} {op' : GroupOp}
    (hran' : Ran history t' call' (.ok answer) i' j')
    (hop' : (call'.gate config.catalog).bind CoordinationRequest.groupOp? = some op')
    (hchanges : op'.changes group = true) (hafter : j < i') {s : T} {p q : ℕ} {op : GroupOp}
    (hlate : Ran history s call result p q)
    (hop : (call.gate config.catalog).bind CoordinationRequest.groupOp? = some op)
    (hgroup : op.groupId = group) (hpresented : op.presented = some generation)
    (hafter' : j' < p) : Fruitless config history s result p q := by
  obtain ⟨request, hgate, hop⟩ := Option.bind_eq_some_iff.mp hop
  obtain ⟨request', hgate', hop'⟩ := Option.bind_eq_some_iff.mp hop'
  obtain ⟨k, -, hkj, -, hjoined⟩ := hran.joined h
  have hgeneration := hjoined.generation h
  obtain ⟨k', value, hik', hkj', -, hasked⟩ := hran'.granted h hgate'
  refine hlate.fruitless h hgate fun m hm => refuses_groupOp hop ?_
  rw [← Bool.not_eq_true]
  intro haccepted
  have hcurrent : generationAt config history group m = generation := by
    unfold generationAt
    rw [← hgroup]
    exact GroupOp.generation_of_accepted haccepted hpresented
  -- the change in between is counted, and there is room for it
  have hbefore : changesBy history group (k + 1) ≤ changesBy history group k' :=
    changesBy_mono history group (by omega)
  have hchange := hasked.changes h hop' hchanges
  have hsince : changesBy history group (k' + 1) ≤ changesBy history group m :=
    changesBy_mono history group (by omega)
  have hroom := changesBy_le history group m
  rw [generationAt_eq] at hcurrent hgeneration
  unfold i32Max at hcurrent hgeneration
  omega

end Generations

/-! ## Committed offsets -/

section Offsets

variable {group topic : Bytes} {partition : Int} {k : ℕ}

/-- A commit of that offset was granted at `k`. -/
def CommittedAt (history : List (BrokerEvent T n)) (group topic : Bytes) (partition offset : Int)
    (k : ℕ) : Prop :=
  ∃ generation value,
    AskedAt history (.commitOffset group generation topic partition offset) (.ok value) k

/-- The offset of a group before the event at `k`. -/
noncomputable def offsetAt (config : ShardConfig) (history : List (BrokerEvent T n))
    (group topic : Bytes) (partition : Int) (k : ℕ) : Option Int :=
  ((groupsAt config history k).groupOf group).offsets[(⟨topic, partition⟩ : TopicPartition)]?

omit h in
/-- What a granted or refused group operation does to the offset. -/
theorem offsets_apply (groups : GroupCoordinator) (op : GroupOp) :
    ((op.apply groups).groupOf group).offsets[(⟨topic, partition⟩ : TopicPartition)]? =
      (if op.accepted groups then op.commits group topic partition else none).or
        (groups.groupOf group).offsets[(⟨topic, partition⟩ : TopicPartition)]? := by
  by_cases haccepted : op.accepted groups = true
  · rw [GroupOp.groupOf_apply haccepted, if_pos haccepted]
    by_cases hgroup : group = op.groupId
    · subst hgroup
      rw [if_pos rfl, GroupCoordinator.offsets_update]
    · rw [if_neg hgroup]
      cases op with
      | commitOffset groupId generation topic' partition' offset =>
          rw [GroupOp.commits, if_neg fun hsame => hgroup hsame.1.symm, Option.none_or]
      | _ => rfl
  · rw [GroupOp.apply_of_refused (Bool.not_eq_true _ ▸ haccepted), if_neg haccepted, Option.none_or]

theorem committedAt_iff (hat : At history k event) {offset : Int} :
    CommittedAt history group topic partition offset k ↔
      ∃ op, askedGroup event = some op ∧ op.accepted (groupsAt config history k) = true ∧
        op.commits group topic partition = some offset := by
  constructor
  · rintro ⟨generation, value, hasked⟩
    have haccepted : Except.isOk (Runtime.coordinate _ _ _).2 = GroupOp.accepted _ _ :=
      (coordinate_groupOp (transactionsAt config history k) (groupsAt config history k)
        (show (CoordinationRequest.commitOffset group generation topic partition offset).groupOp? = _
          from rfl)).2
    rw [hasked.coordinate h] at haccepted
    obtain ⟨chan, hk⟩ := hasked
    cases hat.eq hk
    exact ⟨_, rfl, haccepted.symm, if_pos ⟨rfl, rfl, rfl⟩⟩
  · rintro ⟨op, hop, haccepted, hcommits⟩
    obtain ⟨shard, chan, request, result, rfl, hrequest⟩ := askedGroup_eq_some hop
    obtain rfl : shard = 0 := applied_routed h hat
    rw [← (coordinate_groupOp (transactionsAt config history k) _ hrequest).2] at haccepted
    obtain ⟨rfl, -⟩ := applied_coordinate h hat
    unfold transactionsAt groupsAt at haccepted
    cases request <;> cases hrequest <;> try cases hcommits
    rw [GroupOp.commits] at hcommits
    split at hcommits
    · next hsame =>
        obtain ⟨rfl, rfl, rfl⟩ := hsame
        cases hcommits
        generalize (Runtime.coordinate _ _ _).2 = answer at hat haccepted
        rcases answer with error | value
        · cases haccepted
        · exact ⟨_, value, chan, hat⟩
    · cases hcommits

/-- One event commits an offset, or leaves the committed one. -/
theorem offsetAt_succ (hk : k < history.length) :
    (∃ offset, CommittedAt history group topic partition offset k ∧
        offsetAt config history group topic partition (k + 1) = some offset) ∨
      (∀ offset, ¬ CommittedAt history group topic partition offset k) ∧
        offsetAt config history group topic partition (k + 1) =
          offsetAt config history group topic partition k := by
  obtain ⟨event, hat⟩ : ∃ event, At history k event := ⟨_, List.getElem?_eq_getElem hk⟩
  unfold offsetAt
  rw [groupsAt_succ config history hat]
  simp only [committedAt_iff h hat]
  rcases askedGroup event with _ | op
  · refine Or.inr ⟨?_, rfl⟩
    rintro offset ⟨_, ⟨⟩, -⟩
  · rw [Option.elim_some, offsets_apply]
    by_cases haccepted : op.accepted (groupsAt config history k) = true
    · rw [if_pos haccepted]
      rcases hcommits : op.commits group topic partition with _ | offset
      · refine Or.inr ⟨?_, Option.none_or⟩
        rintro offset ⟨_, ⟨⟩, -, hsome⟩
        rw [hcommits] at hsome
        cases hsome
      · exact Or.inl ⟨offset, ⟨op, rfl, haccepted, hcommits⟩, Option.some_or⟩
    · rw [if_neg haccepted]
      refine Or.inr ⟨?_, Option.none_or⟩
      rintro offset ⟨_, ⟨⟩, hnot, -⟩
      exact haccepted hnot

/-- The offset found before the event at `k` is that of the last commit, if there was one. -/
def LastCommit (history : List (BrokerEvent T n)) (group topic : Bytes) (partition : Int) (k : ℕ) :
    Option Int → Prop
  | none => ∀ m < k, ∀ offset, ¬ CommittedAt history group topic partition offset m
  | some offset => ∃ m < k, CommittedAt history group topic partition offset m ∧
      ∀ m' offset', m < m' → m' < k → ¬ CommittedAt history group topic partition offset' m'

theorem lastCommit_offsetAt (hk : k ≤ history.length) :
    LastCommit history group topic partition k (offsetAt config history group topic partition k) := by
  induction k with
  | zero => exact fun m hm => absurd hm (Nat.not_lt_zero m)
  | succ k ih =>
      rcases offsetAt_succ h hk with ⟨offset, hcommitted, hoffset⟩ | ⟨hnot, hsame⟩
      · rw [hoffset]
        exact ⟨k, Nat.lt_succ_self k, hcommitted, fun m' _ hlt hlt' => by omega⟩
      · rw [hsame]
        have hbefore := ih (by omega)
        generalize offsetAt config history group topic partition k = found at hbefore
        rcases found with _ | offset
        · intro m hm offset
          rcases Nat.lt_succ_iff_lt_or_eq.mp hm with hm | rfl
          · exact hbefore m hm offset
          · exact hnot offset
        · obtain ⟨m, hm, hcommitted, hlast⟩ := hbefore
          refine ⟨m, by omega, hcommitted, fun m' offset' hlt hlt' => ?_⟩
          rcases Nat.lt_succ_iff_lt_or_eq.mp hlt' with hlt' | rfl
          · exact hlast m' offset' hlt hlt'
          · exact hnot offset'

/-- A read finds the offset of a moment of its interval. -/
theorem Ran.found {found : Option Int}
    (hran : Ran history t (.groupOffset group topic partition) (.ok (.groupOffset found)) i j) :
    ∃ k, i < k ∧ k < j ∧ offsetAt config history group topic partition k = found := by
  obtain ⟨k, -, hik, hkj, -, -, hperforms⟩ := hran.performed h rfl rfl
  refine ⟨k, hik, hkj, ?_⟩
  unfold View.perform at hperforms
  rw [Call.program, View.run_map, run_groupOffset] at hperforms
  have hanswer : (groupsAt config history k).offset group topic partition = .ok found := by
    unfold groupsAt
    rcases hfound : (viewAfter config (history.take k)).groups.offset group topic partition with
      error | offset
    · rw [hfound] at hperforms
      cases (Prod.ext_iff.mp hperforms).2
    · rw [hfound] at hperforms
      cases (Prod.ext_iff.mp hperforms).2
      rfl
  unfold GroupCoordinator.offset at hanswer
  unfold offsetAt GroupCoordinator.groupOf
  split at hanswer
  · cases hanswer
  · next hget =>
      rw [hget]
      exact Except.ok.inj hanswer

end Offsets

end Runs

/-- Two producers of one transactional id, the first of which goes on. -/
def laterProducer : List (Label (Fin 2) (Fin 2) Call) := List.flatten
  [visit 0 (.initProducer [120]) [0], visit 1 (.initProducer [120]) [0],
    visit 0 (.addTransactionPartition [120] ⟨1, 0⟩ [116] 0) [0]]

theorem exists_laterProducer :
    ∃ (history : List (BrokerEvent (Fin 2) 2)) (net : BrokerNet (Fin 2) 2),
      Runs (system oneTopicBroker oneTopic) (startShards 2) history net ∧
        Ran history 0 (.initProducer [120]) (.ok (.identity ⟨1, 0⟩)) 0 7 ∧
        Ran history 1 (.initProducer [120]) (.ok (.identity ⟨1, 1⟩)) 8 15 ∧
        Ran history 0 (.addTransactionPartition [120] ⟨1, 0⟩ [116] 0)
          (.error (.coordination .producerFenced)) 16 23 ∧
        (transactionOps history).countP TransactionOp.isInit < 2 ^ 63 - 1 :=
  exists_run (system oneTopicBroker oneTopic) (startShards 2) laterProducer _ (by decide +kernel)

theorem identities_distinct_laterProducer :
    ∃ (history : List (BrokerEvent (Fin 2) 2)) (net : BrokerNet (Fin 2) 2),
      Runs (system oneTopicBroker oneTopic) (startShards 2) history net ∧
        Ran history 0 (.initProducer [120]) (.ok (.identity ⟨1, 0⟩)) 0 7 ∧
        Ran history 1 (.initProducer [120]) (.ok (.identity ⟨1, 1⟩)) 8 15 ∧
        ((0 : Int) < 1 ∨ (0 : Int) = i16Max) := by
  obtain ⟨history, net, hrun, hran, hran', -, hfew⟩ := exists_laterProducer
  exact ⟨history, net, hrun, hran, hran',
    (identities_distinct hrun hfew hran hran').2.1 rfl (by decide)⟩

theorem zombie_fenced_laterProducer :
    ∃ (history : List (BrokerEvent (Fin 2) 2)) (net : BrokerNet (Fin 2) 2),
      Runs (system oneTopicBroker oneTopic) (startShards 2) history net ∧
        Ran history 1 (.initProducer [120]) (.ok (.identity ⟨1, 1⟩)) 8 15 ∧
        Ran history 0 (.addTransactionPartition [120] ⟨1, 0⟩ [116] 0)
          (.error (.coordination .producerFenced)) 16 23 ∧
        Fruitless oneTopic history 0 (.error (.coordination .producerFenced)) 16 23 := by
  obtain ⟨history, net, hrun, -, hran, hlate, -⟩ := exists_laterProducer
  exact ⟨history, net, hrun, hran, hlate,
    zombie_fenced hrun hran hlate rfl rfl rfl (Or.inl (by decide)) (by decide)⟩

/-- A second member joins, the first commits under its old generation, the second under the new one
and reads it back. -/
def twoMembers : List (Label (Fin 2) (Fin 2) Call) := List.flatten
  [visit 0 (.joinGroup [103] [109] []) [0], visit 1 (.joinGroup [103] [110] []) [0],
    visit 0 (.commitGroupOffset [103] 1 [116] 0 5) [0],
    visit 1 (.commitGroupOffset [103] 2 [116] 0 7) [0], visit 0 (.groupOffset [103] [116] 0) [0]]

/-- The calls of `twoMembers`. -/
def TwoMembers (history : List (BrokerEvent (Fin 2) 2)) : Prop :=
  Ran history 0 (.joinGroup [103] [109] []) (.ok (.group 1 [⟨[109], []⟩])) 0 7 ∧
    Ran history 1 (.joinGroup [103] [110] []) (.ok (.group 2 [⟨[109], []⟩, ⟨[110], []⟩])) 8 15 ∧
    Ran history 0 (.commitGroupOffset [103] 1 [116] 0 5)
      (.error (.coordination .illegalGeneration)) 16 23 ∧
    Ran history 1 (.commitGroupOffset [103] 2 [116] 0 7) (.ok .done) 24 31 ∧
    Ran history 0 (.groupOffset [103] [116] 0) (.ok (.groupOffset (some 7))) 32 39 ∧
    (groupOps history).countP (GroupOp.changes [103]) < 2 ^ 31 - 1

instance (history : List (BrokerEvent (Fin 2) 2)) : Decidable (TwoMembers history) :=
  inferInstanceAs (Decidable (_ ∧ _))

theorem exists_twoMembers :
    ∃ (history : List (BrokerEvent (Fin 2) 2)) (net : BrokerNet (Fin 2) 2),
      Runs (system oneTopicBroker oneTopic) (startShards 2) history net ∧ TwoMembers history :=
  exists_run (system oneTopicBroker oneTopic) (startShards 2) twoMembers _ (by decide +kernel)

theorem generations_fenced_twoMembers :
    ∃ (history : List (BrokerEvent (Fin 2) 2)) (net : BrokerNet (Fin 2) 2),
      Runs (system oneTopicBroker oneTopic) (startShards 2) history net ∧ TwoMembers history ∧
        Fruitless oneTopic history 0 (.error (.coordination .illegalGeneration)) 16 23 := by
  obtain ⟨history, net, hrun, hmembers⟩ := exists_twoMembers
  obtain ⟨hjoin, hjoin', hlate, -, -, hfew⟩ := id hmembers
  exact ⟨history, net, hrun, hmembers,
    generations_fenced hrun hfew hjoin hjoin' rfl rfl (by decide) hlate rfl rfl rfl (by decide)⟩

end CharlotteBroker.Runtime
