import CharlotteBroker.Runtime.RealTime

/-!
# From producers to consumers

What the log of a partition holds, among any number of clients, and what a client that reads along
receives of it.

* `storedIn`: the records the applied commands stored, in the order of their moments.
* `logAt_tracks`: these have the offsets 0, 1, 2, ..., and the log is what retention left of them.
* `provenance`: every one was sent by a call for this partition; a call stores its records once at
  most, and an acknowledged call once.
* `Polling`: a client that fetches from where it left off, and goes on after failures.
* `delivered_exactly_once`: it receives the stored records from its first position on, each once, in
  order.
-/

namespace CharlotteBroker.Runtime

open CharlotteBroker.Core Lib Lib.Rpc

variable {command : PartitionCommand} {call : Call}

/-- The records an applied command stored under `key`. -/
def storedBy (key : TopicPartition) (command : PartitionCommand) (result : PartitionResult) :
    List Record :=
  match command.appends, result with
  | some (key', records, _), .produced base => if key' = key then assignOffsets base records else []
  | _, _ => []

variable {T : Type} {n : ℕ}

/-- The records stored under `key` in a history, in the order in which they were. -/
def storedIn (history : List (BrokerEvent T n)) (key : TopicPartition) : List Record :=
  history.flatMap fun event =>
    match event with
    | .applied _ _ command result => storedBy key command result
    | _ => []

variable [NeZero n] (config : ShardConfig)

/-! ## The log of a partition -/

theorem storedBy_of_not_appends (h : command.appends = none) (key : TopicPartition)
    (result : PartitionResult) : storedBy key command result = [] := by
  unfold storedBy
  rw [h]

/-- An append stores under its own partition what the log accepts. -/
theorem storedBy_answer {key key' : TopicPartition} {records : List RecordData}
    {transaction : Option Int} (h : command.appends = some (key', records, transaction))
    (done : Except LogError Int) :
    storedBy key command (answer .produced done) =
      if key' = key then acceptedAt records done else [] := by
  unfold storedBy
  rw [h]
  rcases done with error | base
  · exact (ite_self _).symm
  · rfl

/-- What is no append gives the log nothing. -/
theorem acceptedBy_of_not_appends (h : command.appends = none) {key : TopicPartition}
    (log : PartitionLog) {ops : List LogOp} (hops : ∀ op ∈ ops, command.Does key op) :
    acceptedBy log ops = [] := by
  induction ops generalizing log with
  | nil => rfl
  | cons op ops ih =>
      have hop := hops op List.mem_cons_self
      have hrest := ih (op.apply log) fun op hop => hops op (List.mem_cons_of_mem _ hop)
      rw [acceptedBy, hrest, List.append_nil]
      cases command with
      | resolveTransaction producerId commit =>
          cases hop
          rfl
      | produce topic partition records => cases h
      | produceTransactional topic partition records producerId => cases h
      | _ => exact hop.elim

/-- One command extends what the log has been given by what it stores. -/
theorem View.serve_tracks (view : View) (shard : Fin n) (command : PartitionCommand)
    (key : TopicPartition) {stored : List Record} (h : Tracks (view.logs key) stored) :
    Tracks ((view.serve config shard command).1.logs key)
      (stored ++ storedBy key command (view.serve config shard command).2) := by
  rcases happends : command.appends with _ | ⟨key', records, transaction⟩
  · obtain ⟨ops, -, hdoes, hops⟩ := View.serve_logs config view shard command key
    have hrun := h.run ops
    rwa [← hops, acceptedBy_of_not_appends happends _ hdoes,
      ← storedBy_of_not_appends happends key (view.serve config shard command).2] at hrun
  · rw [View.serve_onLog config view shard (PartitionCommand.onLog_appends happends)]
    unfold View.withLog
    rcases config.catalog.checkPartition key'.topic key'.partition with error | ⟨⟩
    · have hnil : storedBy key command (.failed error) = [] := by
        unfold storedBy
        rw [happends]
      simp only [hnil, List.append_nil]
      exact h
    · simp only [storedBy_answer happends]
      rcases eq_or_ne key' key with rfl | hne
      · simp only [Function.update_self, if_pos]
        rcases transaction with _ | producerId
        · exact h.apply (.appendData records)
        · exact h.apply (.appendTransactional records producerId)
      · simp only [Function.update_of_ne hne.symm, if_neg hne, List.append_nil]
        exact h

omit [NeZero n] in
theorem storedIn_snoc (history : List (BrokerEvent T n)) (event : BrokerEvent T n)
    (key : TopicPartition) :
    storedIn (history ++ [event]) key = storedIn history key ++
      match event with
      | .applied _ _ command result => storedBy key command result
      | _ => [] := by
  unfold storedIn
  rw [List.flatMap_append, List.flatMap_singleton]

section Runs

variable {config} {broker : BrokerConfig} [DecidableEq T] {history : List (BrokerEvent T n)}
  {net : BrokerNet T n}

omit [DecidableEq T] in
/-- A history whose answers are the view's gives the log what its commands stored. -/
theorem tracks_of_answers (hanswers : ∀ k shard chan command result,
      At history k (.applied shard chan command result) →
        result = ((viewAfter config (history.take k)).serve config shard command).2)
    (key : TopicPartition) :
    Tracks ((viewAfter config history).logs key) (storedIn history key) := by
  induction history using List.reverseRecOn with
  | nil => exact tracks_newLog _
  | append_singleton history event ih =>
      have htracks := ih fun k shard chan command result hk => by
        have hanswer := hanswers k shard chan command result (hk.append _)
        rwa [List.take_append_of_le_length (Nat.le_of_lt hk.lt)] at hanswer
      rw [viewAfter_snoc, storedIn_snoc]
      rcases event with _ | _ | _ | _ | _ | _ | ⟨shard, chan, command, result⟩ | _ | _ | _ | _ | _
      all_goals try exact (List.append_nil (storedIn history key)).symm ▸ htracks
      have hanswer := hanswers history.length shard chan command result (at_last history _)
      rw [List.take_left' rfl] at hanswer
      subst hanswer
      exact View.serve_tracks config (viewAfter config history) shard command key htracks

/-- **What a partition has been given.** At every moment the records stored under it have the
offsets 0, 1, 2, ..., the next one the log's watermark, and the log holds them from its start offset
on. -/
theorem logAt_tracks (h : Runs (system broker config) (startShards n) history net)
    (key : TopicPartition) (k : ℕ) :
    Tracks (logAt config history key k) (storedIn (history.take k) key) := by
  refine tracks_of_answers (fun k' shard chan command result hk' => ?_) key
  have hlt := hk'.lt
  rw [List.length_take] at hlt
  rw [List.take_take, Nat.min_eq_left (by omega)]
  exact applied_answer h hk'.of_take

end Runs

/-! ## Where the records come from -/

/-- The call of `t` under way since `i` had its records stored at `k`, from offset `base` on. -/
def Stores (history : List (BrokerEvent T n)) (key : TopicPartition) (records : List RecordData)
    (base : Int) (t : T) (i m k : ℕ) : Prop :=
  ∃ p chan command transaction, i < p ∧ p < m ∧
    At history p (.opened t chan (shardIndex n key) command) ∧
    At history k (.applied (shardIndex n key) chan command (.produced base)) ∧
    command.appends = some (key, records, transaction)

/-- Where the records of a partition come from. -/
structure Provenance (history : List (BrokerEvent T n)) (key : TopicPartition) : Prop where
  /-- The records stored have the offsets 0, 1, 2, ..., and the log holds what retention left. -/
  tracks : Tracks ((viewAfter config history).logs key) (storedIn history key)
  /-- What is stored was sent by a call for this partition, made before. -/
  sound : ∀ k shard chan command result, At history k (.applied shard chan command result) →
    storedBy key command result ≠ [] →
    ∃ t call i p records transaction base, Spans history t call i p ∧ p < k ∧
      call.appends = some (key, records, transaction) ∧
      Stores history key records base t i (p + 1) k ∧
      storedBy key command result = assignOffsets base records
  /-- A call stores its records once at most. -/
  once : ∀ t call i m records records' base base' k k', Spans history t call i m →
    Stores history key records base t i m k → Stores history key records' base' t i m k' → k = k'
  /-- An acknowledged call stored its records, from the offset it was told. -/
  acknowledged : ∀ t call answer i j records transaction, Ran history t call (.ok answer) i j →
    call.appends = some (key, records, transaction) →
    ∃ base k, answer = .offset base ∧ i < k ∧ k < j ∧ Stores history key records base t i j k

/-- An append is sent by a produce with these records for this partition, to the owner. -/
theorem Call.Sends.appends {catalog : TopicCatalog} {shard : Fin n}
    (h : call.Sends catalog shard command) {key : TopicPartition} {records : List RecordData}
    {transaction : Option Int} (hcommand : command.appends = some (key, records, transaction)) :
    call.appends = some (key, records, transaction) ∧ shard = shardIndex n key := by
  cases call with
  | produce topic partition records' =>
      obtain ⟨rfl, rfl⟩ := h
      cases hcommand
      exact ⟨rfl, rfl⟩
  | fetchWithIsolation topic partition offset maxRecords maxBytes readCommitted =>
      obtain ⟨rfl, rfl⟩ := h
      cases hcommand
  | listOffset topic partition earliest =>
      obtain ⟨rfl, rfl⟩ := h
      cases hcommand
  | produceTransactional tid producer topic partition records' =>
      rcases h with ⟨rfl, rfl⟩ | ⟨rfl, rfl⟩
      · cases hcommand
      · cases hcommand
        exact ⟨rfl, rfl⟩
  | endTransaction tid producer commit =>
      rcases h with ⟨rfl, rfl⟩ | rfl | ⟨-, rfl, groupId, generation, topic, partition, offset, rfl⟩ <;>
        cases hcommand
  | _ =>
      obtain ⟨rfl, request, -, rfl⟩ := h
      cases hcommand

/-- A call whose next command is an append has sent no append before. -/
theorem follows_appends {catalog : TopicCatalog} {shard : Fin n}
    {exchanges : List (Exchange (Fin n) PartitionCommand PartitionResult)}
    {next : Except Fault PartitionResult →
      Prog (Fin n) PartitionCommand PartitionResult (Except BrokerError Answer)}
    (h : (call.program catalog).run.Follows exchanges (.call shard command next))
    (hcommand : command.appends ≠ none) : ∀ e ∈ exchanges, e.command.appends = none := by
  cases command with
  | produce topic partition records =>
      have hsends := ((program_sends catalog call).follows h).1
      have hatomic : call.atomic = true := by
        cases call <;> simp [Call.Sends] at hsends
        rfl
      rw [(program_once catalog hatomic).follows_call h]
      exact fun e he => absurd he List.not_mem_nil
  | produceTransactional topic partition records producerId =>
      obtain ⟨tid, producer, chan, -, -, -, rfl⟩ := follows_append h
      intro e he
      rw [List.mem_singleton.mp he]
      rfl
  | _ => exact absurd rfl hcommand

section Runs

variable {config} {broker : BrokerConfig} [DecidableEq T] {history : List (BrokerEvent T n)}
  {net : BrokerNet T n} {key : TopicPartition}

variable (h : Runs (system broker config) (startShards n) history net)
include h

/-- A stored record was sent by a call for its partition. -/
theorem stored_sound {k chan : ℕ} {shard : Fin n} {result : PartitionResult}
    (hk : At history k (.applied shard chan command result))
    (hstored : storedBy key command result ≠ []) :
    ∃ t call i p records transaction base, Spans history t call i p ∧ p < k ∧
      call.appends = some (key, records, transaction) ∧
      Stores history key records base t i (p + 1) k ∧
      storedBy key command result = assignOffsets base records := by
  -- only an append to this very partition that was answered with an offset stores something
  obtain ⟨records, transaction, base, hcommand, rfl⟩ : ∃ records transaction base,
      command.appends = some (key, records, transaction) ∧ result = .produced base := by
    unfold storedBy at hstored
    rcases happends : command.appends with _ | ⟨key', records, transaction⟩
    · simp [happends] at hstored
    · cases result with
      | produced base =>
          rw [happends] at hstored
          rcases eq_or_ne key' key with rfl | hne
          · exact ⟨records, transaction, base, rfl, rfl⟩
          · exact absurd (if_neg hne) hstored
      | _ => simp [happends] at hstored
  obtain ⟨p, t, hpk, hopened⟩ := h.applied_opened hk
  obtain ⟨call, next, i, exchanges, hspans, hfollows, hexplained, -⟩ := opened_by h hopened
  obtain ⟨hcall, rfl⟩ := ((program_sends config.catalog call).follows hfollows).1.appends hcommand
  refine ⟨t, call, i, p, records, transaction, base, hspans, hpk, hcall,
    ⟨p, chan, command, transaction, hexplained.lt, Nat.lt_succ_self p, hopened, hk, hcommand⟩, ?_⟩
  unfold storedBy
  rw [hcommand]
  exact if_pos rfl

/-- Of two appends of one call, neither was sent before the other. -/
theorem Stores.not_lt {t : T} {i m p p' chan chan' : ℕ} {shard shard' : Fin n}
    {command' : PartitionCommand} (hspans : Spans history t call i m) (hip : i < p) (hpm : p' < m)
    (hopened : At history p (.opened t chan shard command))
    (hopened' : At history p' (.opened t chan' shard' command')) (hcommand : command.appends ≠ none)
    (hcommand' : command'.appends ≠ none) : ¬ p < p' := by
  intro hlt
  obtain ⟨call', next, i', exchanges, hspans', hfollows, hexplained, hcomplete⟩ :=
    opened_by h hopened'
  obtain ⟨rfl, rfl⟩ :=
    hspans.unique hspans' (by omega) (Nat.le_of_lt hpm) hexplained.lt (Nat.le_refl p')
  obtain ⟨e, he, rfl⟩ := hcomplete p chan shard command hip hlt hopened
  obtain ⟨q, -, -, -, -, hq, -⟩ := hexplained.mem he
  obtain rfl := h.opened_once hopened hq
  cases hopened.eq hq
  exact hcommand (follows_appends hfollows hcommand' e he)

/-- A call stores its records once at most. -/
theorem Stores.once {t : T} {i m k k' : ℕ} {records records' : List RecordData} {base base' : Int}
    (hspans : Spans history t call i m) (hk : Stores history key records base t i m k)
    (hk' : Stores history key records' base' t i m k') : k = k' := by
  obtain ⟨p, chan, command, transaction, hip, hpm, hopened, happlied, hcommand⟩ := hk
  obtain ⟨p', chan', command', transaction', hip', hpm', hopened', happlied', hcommand'⟩ := hk'
  have hne : command.appends ≠ none := by simp [hcommand]
  have hne' : command'.appends ≠ none := by simp [hcommand']
  have hle := Stores.not_lt h hspans hip hpm' hopened hopened' hne hne'
  have hge := Stores.not_lt h hspans hip' hpm hopened' hopened hne' hne
  obtain rfl : p = p' := by omega
  cases hopened.eq hopened'
  exact h.applied_once happlied happlied'

omit h

/-- **Where the records of a partition come from**, among any number of clients. -/
theorem provenance (h : Runs (system broker config) (startShards n) history net)
    (key : TopicPartition) : Provenance config history key where
  tracks := tracks_of_answers (fun _ _ _ _ _ hk => applied_answer h hk) key
  sound _ _ _ _ _ hk hstored := stored_sound h hk hstored
  once _ _ _ _ _ _ _ _ _ _ hspans hk hk' := Stores.once h hspans hk hk'
  acknowledged t call answer i j records transaction hran hcall := by
    obtain ⟨base, p, k, chan, command, hanswer, hip, hpk, hkj, hcommand, hopened, happlied⟩ :=
      hran.applied_append h hcall
    exact ⟨base, k, hanswer, by omega, hkj, p, chan, command, transaction, hip, by omega, hopened,
      happlied, hcommand⟩

end Runs

/-! ## Reading along -/

/-- One fetch of a reader, and how it ended. -/
structure Poll (T : Type) where
  client : T
  maxRecords : ℕ
  maxBytes : ℕ
  result : Except BrokerError Answer
  invoked : ℕ
  returned : ℕ

/-- The records a fetch brought. -/
def Poll.records (poll : Poll T) : List Record :=
  match poll.result with
  | .ok (.window window) => window.records
  | _ => []

/-- The position after the fetch: behind the last record, or where it was. -/
def Poll.advance (poll : Poll T) (position : Int) : Int :=
  Consumer.advance position poll.records

/-- A reader of `key` that fetches from `position`, one call after the other, each from where the
ones before left it. A fetch that fails is made again, or given up. -/
def Polling (history : List (BrokerEvent T n)) (key : TopicPartition) :
    ℕ → Int → List (Poll T) → Prop
  | _, _, [] => True
  | m, position, poll :: polls =>
      m ≤ poll.invoked ∧
        Ran history poll.client (.fetchWithIsolation key.topic key.partition position
          poll.maxRecords poll.maxBytes false) poll.result poll.invoked poll.returned ∧
        Polling history key poll.returned (poll.advance position) polls

/-- Where the reader is after its fetches. -/
def positionAfter (position : Int) (polls : List (Poll T)) : Int :=
  polls.foldl (fun position poll => poll.advance position) position

/-- What the reader has received. -/
def receivedBy (polls : List (Poll T)) : List Record := polls.flatMap Poll.records

/-- The records are those stored with the offsets from `first` to `last`, all of them, in order. -/
structure ReadsAlong (stored : List Record) (first last : Int) (records : List Record) : Prop where
  offsets : OffsetsFrom first records
  last_eq : last = first + records.length
  records_eq : records = recordsBetween first last stored

theorem readsAlong_nil (stored : List Record) (first : Int) : ReadsAlong stored first first [] where
  offsets i h := absurd h (Nat.not_lt_zero i)
  last_eq := (Int.add_zero first).symm
  records_eq := by
    refine (List.filter_eq_nil_iff.mpr fun record _ => ?_).symm
    rw [Bool.and_eq_true, decide_eq_true_eq, decide_eq_true_eq]
    omega

/-- What is read in two goes. -/
theorem ReadsAlong.trans {stored xs ys : List Record} {first middle last : Int}
    (hstored : OffsetsFrom 0 stored) (hx : ReadsAlong stored first middle xs)
    (hy : ReadsAlong stored middle last ys) : ReadsAlong stored first last (xs ++ ys) := by
  rcases xs with _ | ⟨record, rest⟩
  · obtain rfl : middle = first := by rw [hx.last_eq]; exact Int.add_zero first
    exact hy
  · -- something was read, so the first offset is one of a stored record
    have hmem : record ∈ recordsBetween first middle stored := hx.records_eq ▸ List.mem_cons_self
    have hnonneg := (hstored.bounds (List.mem_of_mem_filter hmem)).1
    have hfirst : record.offset = first := by
      have := hx.offsets 0 (by simp)
      simpa using this
    have hlen := hx.last_eq
    have hlen' := hy.last_eq
    refine ⟨hx.offsets.append (hlen ▸ hy.offsets), ?_, ?_⟩
    · rw [hlen', hlen, List.length_append]
      omega
    · have hxs := hx.records_eq
      have hys := hy.records_eq
      rw [hstored.recordsBetween_eq (by omega)] at hxs hys
      have hsplit : (last - first).toNat = (middle - first).toNat + (last - middle).toNat := by
        omega
      have hat : first.toNat + (middle - first).toNat = middle.toNat := by omega
      rw [hstored.recordsBetween_eq (by omega), hsplit, List.take_add, List.drop_drop, hat, ← hxs,
        ← hys]

section Runs

variable {config} {broker : BrokerConfig} [DecidableEq T] {history : List (BrokerEvent T n)}
  {net : BrokerNet T n} {key : TopicPartition}

omit [DecidableEq T] [NeZero n] in
theorem storedIn_take (history : List (BrokerEvent T n)) (key : TopicPartition) (k : ℕ) :
    storedIn (history.take k) key <+: storedIn history key := by
  conv_rhs => rw [← List.take_append_drop k history]
  unfold storedIn
  rw [List.flatMap_append]
  exact List.prefix_append _ _

theorem storedIn_offsets (h : Runs (system broker config) (startShards n) history net)
    (key : TopicPartition) : OffsetsFrom 0 (storedIn history key) :=
  (tracks_of_answers (fun _ _ _ _ _ hk => applied_answer h hk) key).offsets

/-- One fetch reads on in what is stored, and brings something if there is something. -/
theorem Poll.reads (h : Runs (system broker config) (startShards n) history net) {poll : Poll T}
    {position : Int}
    (hran : Ran history poll.client (.fetchWithIsolation key.topic key.partition position
      poll.maxRecords poll.maxBytes false) poll.result poll.invoked poll.returned) :
    ReadsAlong (storedIn history key) position (poll.advance position) poll.records ∧
      ∀ window, poll.result = .ok (.window window) → 0 < poll.maxRecords →
        position < window.highWatermark → poll.records ≠ [] := by
  obtain ⟨client, maxRecords, maxBytes, result, invoked, returned⟩ := poll
  rcases result with error | answer
  · exact ⟨readsAlong_nil _ _, fun window hwindow => by cases hwindow⟩
  · obtain ⟨k, window, -, -, hanswer, -, hfetch⟩ := Ran.fetched_ok h hran
    subst hanswer
    -- the fetch read what was stored by then
    have htracks := logAt_tracks h key k
    obtain ⟨hin, hrecords⟩ := htracks.fetch hfetch
    obtain ⟨more, hmore⟩ := storedIn_take history key k
    have hlen := htracks.length
    have hstart := hin.1
    have hnext := hin.2
    have hnonneg := htracks.wellFormed.nonneg
    have hread : window.records =
        ((storedIn (history.take k) key).drop position.toNat).take window.records.length := by
      conv_lhs => rw [hrecords, takeWithin_eq_take, ← hrecords]
    have hcount := congrArg List.length hread
    rw [List.length_take, List.length_drop] at hcount
    have hoffsets : OffsetsFrom position window.records := by
      have hfrom := (htracks.offsets.drop position.toNat).take window.records.length
      rwa [← hread, Int.toNat_of_nonneg (by omega), Int.zero_add] at hfrom
    have hadvance : Consumer.advance position window.records =
        position + window.records.length := advance_eq hoffsets
    refine ⟨⟨hoffsets, hadvance, ?_⟩, ?_⟩
    · show window.records =
        recordsBetween position (Consumer.advance position window.records) (storedIn history key)
      rw [hadvance, (storedIn_offsets h key).recordsBetween_eq (by omega), ← hmore,
        List.drop_append_of_le_length (by omega), List.take_append_of_le_length]
      · rw [show (position + window.records.length - position).toNat = window.records.length by
          omega]
        exact hread
      · rw [List.length_drop]
        omega
    · intro window' hwindow hmax hbelow
      cases hwindow
      show window.records ≠ []
      intro hnil
      have hhead := @head?_takeWithin _ recordSize maxRecords maxBytes
        ((storedIn (history.take k) key).drop position.toNat) hmax
      rw [← hrecords, hnil, List.head?_nil, eq_comm, List.head?_eq_none_iff, List.drop_eq_nil_iff]
        at hhead
      have hmark : window.highWatermark = (logAt config history key k).nextOffset :=
        (PartitionLog.fetchInner_reports hfetch).2
      omega

/-- **A reader receives every record once.** A client that fetches along a partition, from any
position, however its fetches and those of others fail or overlap with producers, receives the
records stored from there to where it is now: every one, once, in order. A fetch below the watermark
that succeeds brings at least one. -/
theorem delivered_exactly_once (h : Runs (system broker config) (startShards n) history net)
    {m : ℕ} {first : Int} {polls : List (Poll T)} (hpolls : Polling history key m first polls) :
    ReadsAlong (storedIn history key) first (positionAfter first polls) (receivedBy polls) ∧
      ∀ before poll after window, polls = before ++ poll :: after →
        poll.result = .ok (.window window) → 0 < poll.maxRecords →
        positionAfter first before < window.highWatermark → poll.records ≠ [] := by
  induction polls generalizing m first with
  | nil => exact ⟨readsAlong_nil _ _, fun before poll after _ hsplit => by simp at hsplit⟩
  | cons poll polls ih =>
      obtain ⟨-, hran, hrest⟩ := hpolls
      obtain ⟨hreads, hprogress⟩ := Poll.reads h hran
      obtain ⟨hreads', hprogress'⟩ := ih hrest
      refine ⟨hreads.trans (storedIn_offsets h key) hreads', ?_⟩
      intro before poll' after window hsplit hwindow hmax hbelow
      rcases before with _ | ⟨poll'', before⟩
      · cases hsplit
        exact hprogress window hwindow hmax hbelow
      · cases hsplit
        exact hprogress' before poll' after window rfl hwindow hmax hbelow

end Runs

/-- One client writes two records, another reads along: the first before its write is acknowledged,
then a fetch that times out, then the second. -/
def readingAlong : List (Label (Fin 2) (Fin 2) Call) := List.flatten
  [[.invoke 0 (.produce [116] 0 [⟨5, none, some [107]⟩]), .openChan 0, .send 0, .take 1, .apply 1,
      .answer 1],
    visit 1 (.fetchWithIsolation [116] 0 0 1 64 false) [1],
    [.invoke 1 (.fetchWithIsolation [116] 0 1 1 64 false), .openChan 1, .send 1, .poll 1, .timeOut 1,
      .finish 1, .take 1, .apply 1, .answer 1, .receive 0, .finish 0],
    visit 0 (.produce [116] 0 [⟨6, none, none⟩]) [1],
    visit 1 (.fetchWithIsolation [116] 0 1 1 64 false) [1]]

/-- The three fetches of `readingAlong`. -/
def threePolls : List (Poll (Fin 2)) :=
  [⟨1, 1, 64, .ok (.window ⟨1, 1, [⟨0, 5, none, some [107]⟩]⟩), 6, 13⟩,
    ⟨1, 1, 64, .error .replyTimeout, 14, 19⟩,
    ⟨1, 1, 64, .ok (.window ⟨2, 2, [⟨1, 6, none, none⟩]⟩), 33, 40⟩]

instance decidablePolling [DecidableEq T] (history : List (BrokerEvent T n))
    (key : TopicPartition) : (m : ℕ) → (position : Int) → (polls : List (Poll T)) →
      Decidable (Polling history key m position polls)
  | _, _, [] => isTrue trivial
  | _, position, poll :: polls =>
      have := decidablePolling history key poll.returned (poll.advance position) polls
      inferInstanceAs (Decidable (_ ∧ _ ∧ _))

theorem exists_readingAlong :
    ∃ (history : List (BrokerEvent (Fin 2) 2)) (net : BrokerNet (Fin 2) 2),
      Runs (system oneTopicBroker oneTopic) (startShards 2) history net ∧
        Polling history ⟨[116], 0⟩ 0 0 threePolls :=
  exists_run (system oneTopicBroker oneTopic) (startShards 2) readingAlong
    (fun history _ => Polling history ⟨[116], 0⟩ 0 0 threePolls) (by decide +kernel)

theorem provenance_readingAlong :
    ∃ (history : List (BrokerEvent (Fin 2) 2)) (net : BrokerNet (Fin 2) 2),
      Runs (system oneTopicBroker oneTopic) (startShards 2) history net ∧
        Polling history ⟨[116], 0⟩ 0 0 threePolls ∧ Provenance oneTopic history ⟨[116], 0⟩ := by
  obtain ⟨history, net, hrun, hpolls⟩ := exists_readingAlong
  exact ⟨history, net, hrun, hpolls, provenance hrun _⟩

theorem delivered_exactly_once_readingAlong :
    ∃ (history : List (BrokerEvent (Fin 2) 2)) (net : BrokerNet (Fin 2) 2),
      Runs (system oneTopicBroker oneTopic) (startShards 2) history net ∧
        Polling history ⟨[116], 0⟩ 0 0 threePolls ∧
        ReadsAlong (storedIn history ⟨[116], 0⟩) 0 2
          [⟨0, 5, none, some [107]⟩, ⟨1, 6, none, none⟩] := by
  obtain ⟨history, net, hrun, hpolls⟩ := exists_readingAlong
  exact ⟨history, net, hrun, hpolls, (delivered_exactly_once hrun hpolls).1⟩

end CharlotteBroker.Runtime
