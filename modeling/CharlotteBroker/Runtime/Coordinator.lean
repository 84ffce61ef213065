import CharlotteBroker.Runtime.Exchanges

/-!
# The coordinator's entry of one transactional id, along a run

Any number of clients ask shard zero about their transactional ids, in any order. What becomes of
the entry of one id can be read off the requests that name it.

* `Asks`, `Closes`: the events at which the coordinator is asked about an id, and those at which it
  closes the id's transaction, by an accepted end or a new initialisation.
* `entry_of_quiet`: while nobody asks about the id, its entry stays as it is.
* `enlisted_of_open`: while the transaction is not closed, an enlisted partition stays enlisted.
* `ended_entry`: an accepted end was of an ongoing transaction, and leaves an empty one.
-/

namespace CharlotteBroker.Runtime

open CharlotteBroker.Core Lib Lib.Rpc TransactionCoordinator

/-- The request is about this transactional id. -/
def CoordinationRequest.names (tid : Bytes) : CoordinationRequest → Bool
  | .initProducer transactionalId => transactionalId == tid
  | .addPartition transactionalId _ _ _ => transactionalId == tid
  | .validateProduce transactionalId _ _ _ => transactionalId == tid
  | .endTransaction transactionalId _ _ => transactionalId == tid
  | .addOffset transactionalId _ _ => transactionalId == tid
  | _ => false

/-- The request, if accepted, closes the transaction open under this transactional id. -/
def CoordinationRequest.closes (tid : Bytes) : CoordinationRequest → Bool
  | .initProducer transactionalId => transactionalId == tid
  | .endTransaction transactionalId _ _ => transactionalId == tid
  | _ => false

/-- **What a request leaves of the transaction coordinator**: either all of it, or all but the entry
of an id it names, which it closes or which keeps its producer and what was enlisted. -/
theorem coordinate_transactions (transactions : TransactionCoordinator) (groups : GroupCoordinator)
    (request : CoordinationRequest) :
    (coordinate transactions groups request).1.1 = transactions ∨
      ∃ tid transaction, request.names tid = true ∧
        (coordinate transactions groups request).1.1.transactions =
          transactions.transactions.insert tid transaction ∧
        (request.closes tid = true ∧ (coordinate transactions groups request).2.isOk = true ∨
          ∃ old, transactions.transactions[tid]? = some old ∧
            transaction.identity = old.identity ∧
            ∀ key ∈ old.partitions, key ∈ transaction.partitions) := by
  cases request with
  | initProducer tid =>
      rcases hresult : (transactions.init tid).2 with error | issued
      · exact Or.inl (init_error hresult)
      · obtain ⟨-, hstate⟩ := init_ok hresult
        have haccepted : (coordinate transactions groups (.initProducer tid)).2.isOk = true := by
          simp [coordinate, hresult, Except.map, Except.isOk, Except.toBool]
        exact Or.inr ⟨tid, _, beq_self_eq_true tid,
          congrArg TransactionCoordinator.transactions hstate,
          Or.inl ⟨beq_self_eq_true tid, haccepted⟩⟩
  | addPartition tid producer topic partition =>
      rcases hresult : (transactions.addPartition tid producer topic partition).2 with error | ⟨⟩
      · exact Or.inl (addPartition_error hresult)
      · obtain ⟨old, hold, -, hstate⟩ := addPartition_ok hresult
        refine Or.inr ⟨tid, _, beq_self_eq_true tid,
          congrArg TransactionCoordinator.transactions hstate, Or.inr ⟨old, hold, rfl, ?_⟩⟩
        intro key hkey
        exact (mem_insert_iff_eq_or _ _ _).mpr (Or.inr hkey)
  | endTransaction tid producer commit =>
      rcases hresult : (transactions.endTransaction tid producer commit).2 with error | completion
      · exact Or.inl (endTransaction_error hresult)
      · obtain ⟨old, -, -, -, -, hstate⟩ := endTransaction_ok hresult
        have haccepted :
            (coordinate transactions groups (.endTransaction tid producer commit)).2.isOk =
              true := by
          simp [coordinate, hresult, Except.map, Except.isOk, Except.toBool]
        exact Or.inr ⟨tid, _, beq_self_eq_true tid,
          congrArg TransactionCoordinator.transactions hstate,
          Or.inl ⟨beq_self_eq_true tid, haccepted⟩⟩
  | addOffset tid producer offset =>
      rcases hresult : (transactions.addOffset tid producer offset).2 with error | ⟨⟩
      · exact Or.inl (addOffset_error hresult)
      · obtain ⟨-, old, hold, -, -, hstate⟩ := addOffset_ok hresult
        exact Or.inr ⟨tid, _, beq_self_eq_true tid,
          congrArg TransactionCoordinator.transactions hstate,
          Or.inr ⟨old, hold, rfl, fun _ hkey => hkey⟩⟩
  | _ => exact Or.inl rfl

/-! ## Events about one transactional id -/

variable {T : Type} {n : ℕ}

/-- The coordinator is asked about the transactional id. -/
def Asks (tid : Bytes) : BrokerEvent T n → Prop
  | .applied _ _ (.coordinate request) _ => request.names tid = true
  | _ => False

/-- The coordinator closes the transaction open under the transactional id. -/
def Closes (tid : Bytes) : BrokerEvent T n → Prop
  | .applied _ _ (.coordinate request) (.coordination result) =>
      request.closes tid = true ∧ result.isOk = true
  | _ => False

instance (tid : Bytes) : DecidablePred (Asks tid : BrokerEvent T n → Prop)
  | .applied _ _ (.coordinate request) _ => inferInstanceAs (Decidable (request.names tid = true))
  | .applied _ _ (.produce ..) _ | .applied _ _ (.produceTransactional ..) _
  | .applied _ _ (.fetch ..) _ | .applied _ _ (.listOffset ..) _ | .applied _ _ .shutdown _
  | .applied _ _ (.resolveTransaction ..) _ => isFalse id
  | .invoked .. | .opened .. | .sent .. | .refused .. | .gaveUp .. | .took ..
  | .answered .. | .polled .. | .received .. | .timedOut .. | .returned .. => isFalse id

instance (tid : Bytes) : DecidablePred (Closes tid : BrokerEvent T n → Prop)
  | .applied _ _ (.coordinate request) (.coordination result) =>
      inferInstanceAs (Decidable (request.closes tid = true ∧ result.isOk = true))
  | .applied _ _ (.coordinate _) (.produced ..) | .applied _ _ (.coordinate _) (.fetched ..)
  | .applied _ _ (.coordinate _) (.offset ..) | .applied _ _ (.coordinate _) (.failed ..)
  | .applied _ _ (.coordinate _) .resolved | .applied _ _ (.coordinate _) .stopped => isFalse id
  | .applied _ _ (.produce ..) _ | .applied _ _ (.produceTransactional ..) _
  | .applied _ _ (.fetch ..) _ | .applied _ _ (.listOffset ..) _ | .applied _ _ .shutdown _
  | .applied _ _ (.resolveTransaction ..) _ => isFalse id
  | .invoked .. | .opened .. | .sent .. | .refused .. | .gaveUp .. | .took ..
  | .answered .. | .polled .. | .received .. | .timedOut .. | .returned .. => isFalse id

variable [NeZero n] (config : ShardConfig)

/-- What one event leaves of the transaction coordinator. -/
theorem viewStep_transactions (view : View) (event : BrokerEvent T n) :
    (viewStep config view event).transactions = view.transactions ∨
      ∃ shard chan request result, event = .applied shard chan (.coordinate request) result ∧
        (viewStep config view event).transactions =
          (coordinate view.transactions view.groups request).1.1 := by
  rcases event with _ | _ | _ | _ | _ | _ | ⟨shard, chan, command, result⟩ | _ | _ | _ | _ | _
  all_goals try exact Or.inl rfl
  cases command with
  | coordinate request => exact Or.inr ⟨shard, chan, request, result, rfl, rfl⟩
  | shutdown | resolveTransaction => exact Or.inl rfl
  | _ => exact Or.inl (View.serve_transactions config view shard (by simp [PartitionCommand.onLog]))

/-- **A property of the view that every event between two positions keeps.** -/
theorem viewAfter_between {history : List (BrokerEvent T n)} {P : View → Prop} {i j : ℕ}
    (hij : i < j) (hj : j ≤ history.length)
    (hstart : P (viewAfter config (history.take (i + 1))))
    (hstep : ∀ k event, i < k → k < j → At history k event → P (viewAfter config (history.take k)) →
      P (viewStep config (viewAfter config (history.take k)) event)) :
    P (viewAfter config (history.take j)) := by
  induction j, hij using Nat.le_induction with
  | base => exact hstart
  | succ j hij ih =>
      have hat : At history j history[j] := List.getElem?_eq_getElem hj
      have hbefore := ih (Nat.le_of_succ_le hj) fun k event hik hkj =>
        hstep k event hik (Nat.lt_succ_of_lt hkj)
      rw [hat.take_succ, viewAfter_snoc]
      exact hstep j _ hij (Nat.lt_succ_self j) hat hbefore

/-- The coordinator's entry of the transactional id before the event at position `k`. -/
noncomputable def entryAt (history : List (BrokerEvent T n)) (k : ℕ) (tid : Bytes) :
    Option Transaction :=
  (viewAfter config (history.take k)).transactions.transactions[tid]?

section Runs

variable {config} {broker : BrokerConfig} {history : List (BrokerEvent T n)} {net : BrokerNet T n}
  {tid : Bytes}

theorem viewStep_entry {view : View} {event : BrokerEvent T n} (h : ¬ Asks tid event) :
    (viewStep config view event).transactions.transactions[tid]? =
      view.transactions.transactions[tid]? := by
  rcases viewStep_transactions config view event with
    hsame | ⟨shard, chan, request, result, rfl, hnew⟩
  · rw [hsame]
  · rcases coordinate_transactions view.transactions view.groups request with
      hkept | ⟨tid', transaction, hnames, hinsert, -⟩
    · rw [hnew, hkept]
    · rw [hnew, hinsert, getElem?_insert_eq_ite, if_neg]
      rintro rfl
      exact h hnames

/-- **While nobody asks about the id, its entry stays.** -/
theorem entry_of_quiet {i j : ℕ} (hij : i < j) (hj : j ≤ history.length)
    (hquiet : Between history i j fun event => ¬ Asks tid event) :
    entryAt config history j tid = entryAt config history (i + 1) tid := by
  refine @viewAfter_between T n _ config history
    (fun view => view.transactions.transactions[tid]? = entryAt config history (i + 1) tid)
    i j hij hj rfl ?_
  intro k event hik hkj hat hentry
  rw [viewStep_entry (hquiet k event hik hkj hat)]
  exact hentry

/-- The producer has the partition enlisted in the transaction open under the id. -/
def Enlisted (view : View) (tid : Bytes) (producer : ProducerIdentity) (key : TopicPartition) :
    Prop :=
  ∃ transaction, view.transactions.transactions[tid]? = some transaction ∧
    transaction.identity = producer ∧ key ∈ transaction.partitions

variable [DecidableEq T]

variable (h : Runs (system broker config) (startShards n) history net)
include h

/-- What the coordinator answered, and what became of it. -/
theorem applied_coordinate {k : ℕ} {shard : Fin n} {chan : ℕ} {request : CoordinationRequest}
    {result : PartitionResult}
    (hk : At history k (.applied shard chan (.coordinate request) result)) :
    result = .coordination (coordinate (viewAfter config (history.take k)).transactions
        (viewAfter config (history.take k)).groups request).2 ∧
      (viewAfter config (history.take (k + 1))).transactions =
        (coordinate (viewAfter config (history.take k)).transactions
          (viewAfter config (history.take k)).groups request).1.1 := by
  rw [hk.take_succ, viewAfter_snoc, applied_answer h hk]
  exact ⟨rfl, rfl⟩

/-- **While the transaction is not closed, an enlisted partition stays enlisted.** -/
theorem enlisted_of_open {i j : ℕ} (hij : i < j) (hj : j ≤ history.length)
    (hopen : Between history i j fun event => ¬ Closes tid event) {producer : ProducerIdentity}
    {key : TopicPartition}
    (henlisted : Enlisted (viewAfter config (history.take (i + 1))) tid producer key) :
    Enlisted (viewAfter config (history.take j)) tid producer key := by
  refine @viewAfter_between T n _ config history (fun view => Enlisted view tid producer key) i j
    hij hj henlisted ?_
  rintro k event hik hkj hat ⟨transaction, hentry, hidentity, hkey⟩
  rcases viewStep_transactions config (viewAfter config (history.take k)) event with
    hsame | ⟨shard, chan, request, result, rfl, hnew⟩
  · exact ⟨transaction, by rw [hsame, hentry], hidentity, hkey⟩
  · obtain ⟨hresult, -⟩ := applied_coordinate h hat
    rcases coordinate_transactions (viewAfter config (history.take k)).transactions
        (viewAfter config (history.take k)).groups request with
      hkept | ⟨tid', transaction', hnames, hinsert, hcases⟩
    · exact ⟨transaction, by rw [hnew, hkept, hentry], hidentity, hkey⟩
    · rcases eq_or_ne tid tid' with rfl | hne
      · refine ⟨transaction', by rw [hnew, hinsert, getElem?_insert_eq_ite, if_pos rfl], ?_⟩
        rcases hcases with ⟨hcloses, hok⟩ | ⟨old, hold, hsame, hkeeps⟩
        · refine absurd ?_ (hopen k _ hik hkj hat)
          rw [hresult]
          exact ⟨hcloses, hok⟩
        · cases hentry.symm.trans hold
          exact ⟨hsame.trans hidentity, hkeeps key hkey⟩
      · exact ⟨transaction, by rw [hnew, hinsert, getElem?_insert_eq_ite, if_neg hne, hentry],
          hidentity, hkey⟩

/-- The end of a transaction, as the coordinator accepts it. -/
abbrev accepted (tid : Bytes) (producer : ProducerIdentity) (commit : Bool)
    (completion : TransactionCompletion) (chan : ℕ) : BrokerEvent T n :=
  .applied 0 chan (.coordinate (.endTransaction tid producer commit))
    (.coordination (.ok (.transactionCompleted completion)))

/-- **An accepted end** was of an ongoing transaction, and leaves an empty one. -/
theorem ended_entry {k chan : ℕ} {producer : ProducerIdentity} {commit : Bool}
    {completion : TransactionCompletion}
    (hk : At history k (accepted tid producer commit completion chan)) :
    ∃ transaction, entryAt config history k tid = some transaction ∧
      transaction.identity = producer ∧
      completion.partitions = transaction.partitions.toList ∧
      entryAt config history (k + 1) tid = some ⟨producer, .empty, ∅, []⟩ := by
  obtain ⟨hresult, hnew⟩ := applied_coordinate h hk
  rcases hend : ((viewAfter config (history.take k)).transactions.endTransaction tid producer
      commit).2 with error | completed
  · simp [coordinate, hend, Except.map] at hresult
  · simp only [coordinate, hend, Except.map, PartitionResult.coordination.injEq, Except.ok.injEq,
      CoordinationResult.transactionCompleted.injEq] at hresult
    obtain ⟨transaction, hget, hidentity, -, hcompleted, hstate⟩ := endTransaction_ok hend
    refine ⟨transaction, hget, hidentity, by rw [hresult, hcompleted], ?_⟩
    unfold entryAt
    rw [hnew]
    show ((viewAfter config (history.take k)).transactions.endTransaction tid producer
      commit).1.transactions[tid]? = _
    rw [hstate, getElem?_insert_eq_ite, if_pos rfl, hidentity]

/-- A validated produce is one into an enlisted partition. -/
theorem validated_enlisted {k chan : ℕ} {producer : ProducerIdentity} {topic : Bytes}
    {partition : Int}
    (hk : At history k (.applied 0 chan (.coordinate (.validateProduce tid producer topic partition))
      (.coordination (.ok .applied)))) :
    Enlisted (viewAfter config (history.take (k + 1))) tid producer ⟨topic, partition⟩ := by
  obtain ⟨hresult, hnew⟩ := applied_coordinate h hk
  rcases hvalid : (viewAfter config (history.take k)).transactions.validateProduce tid producer
      topic partition with error | ⟨⟩
  · simp [coordinate, hvalid, Except.map] at hresult
  · obtain ⟨transaction, hget, hidentity, -, hmem⟩ := validateProduce_ok hvalid
    exact ⟨transaction, by rw [hnew]; exact hget, hidentity, hmem⟩

/-- An end is refused while the entry is that of an empty transaction. -/
theorem end_refused {k chan : ℕ} {shard : Fin n} {producer : ProducerIdentity} {commit : Bool}
    {result : PartitionResult}
    (hk : At history k (.applied shard chan (.coordinate (.endTransaction tid producer commit))
      result)) (hentry : entryAt config history k tid = some ⟨producer, .empty, ∅, []⟩) :
    result = .coordination (.error .invalidTransactionState) := by
  obtain ⟨hresult, -⟩ := applied_coordinate h hk
  have hrefuses := endTransaction_refuses commit hentry (by simp)
  simp only at hrefuses
  rw [hresult]
  simp [coordinate, hrefuses, Except.map]

end Runs

end CharlotteBroker.Runtime
