import CharlotteBroker.Core.LogFetch

/-!
# A consumer of one partition

A read-uncommitted consumer fetches at its position and moves to one past the last record it was
given, while the log takes appends, resolutions and evictions in between.

* `Consumer` is the log, the consumer's position, what it received, and the whole history of
  accepted records, which the log itself forgets at its front.
* `Tracks` joins the two: the stored records are the history from the start offset on.
* A fetch at a position reads on in the history from there (`Tracks.visible`), so what the
  consumer holds is always one stretch of the history (`Consumer.Inv.step`).

`consumer_exactly_once` is the result: every record once, in order, whatever happens in between.
-/

namespace CharlotteBroker.Core

open Lib

variable {xs history : List Record} {log : PartitionLog} {base first : Int}

/-! ## Consecutive offsets -/

theorem OffsetsFrom.append {ys : List Record} (hx : OffsetsFrom base xs)
    (hy : OffsetsFrom (base + xs.length) ys) : OffsetsFrom base (xs ++ ys) := by
  intro i hi
  rw [List.length_append] at hi
  rw [List.getElem_append]
  split
  · next hlt => exact hx i hlt
  · next hge =>
      rw [hy (i - xs.length) (by omega)]
      omega

theorem OffsetsFrom.drop (h : OffsetsFrom base xs) (n : ℕ) :
    OffsetsFrom (base + n) (xs.drop n) := by
  intro i hi
  rw [List.length_drop] at hi
  rw [List.getElem_drop, h (n + i) (by omega)]
  omega

theorem OffsetsFrom.take {base : Int} {xs : List Record} (h : OffsetsFrom base xs) (n : ℕ) :
    OffsetsFrom base (xs.take n) := by
  intro i hi
  rw [List.length_take] at hi
  rw [List.getElem_take, h i (by omega)]

theorem OffsetsFrom.tail {x : Record} (h : OffsetsFrom base (x :: xs)) :
    OffsetsFrom (base + 1) xs :=
  h.drop 1

/-- Reading from an offset on is dropping what lies below it. -/
theorem OffsetsFrom.filter_le (h : OffsetsFrom base xs) {offset : Int} (hle : base ≤ offset) :
    xs.filter (fun record => decide (offset ≤ record.offset)) = xs.drop (offset - base).toNat := by
  induction xs generalizing base with
  | nil => simp
  | cons x xs ih =>
      have hx : x.offset = base := by simpa using h 0 (Nat.zero_lt_succ _)
      rcases eq_or_lt_of_le hle with heq | hlt
      · have hall : ∀ record ∈ x :: xs, decide (offset ≤ record.offset) = true := by
          intro record hr
          have hbounds := h.bounds hr
          rw [decide_eq_true_eq]
          omega
        have hzero : (offset - base).toNat = 0 := by omega
        rw [hzero, List.drop_zero, List.filter_eq_self.mpr hall]
      · have hskip : decide (offset ≤ x.offset) = false := by
          rw [decide_eq_false_iff_not]
          omega
        have hsucc : (offset - base).toNat = (offset - (base + 1)).toNat + 1 := by omega
        rw [List.filter_cons, hskip, hsucc, List.drop_succ_cons, ← ih h.tail (by omega)]
        rfl

/-- Reading up to an offset is taking what lies below it. -/
theorem OffsetsFrom.filter_lt (h : OffsetsFrom base xs) (offset : Int) :
    xs.filter (fun record => decide (record.offset < offset)) = xs.take (offset - base).toNat := by
  induction xs generalizing base with
  | nil => simp
  | cons x xs ih =>
      have hx : x.offset = base := by simpa using h 0 (Nat.zero_lt_succ _)
      by_cases hlt : base < offset
      · have hkeep : decide (x.offset < offset) = true := by
          rw [decide_eq_true_eq]
          omega
        have hsucc : (offset - base).toNat = (offset - (base + 1)).toNat + 1 := by omega
        rw [List.filter_cons, hkeep, hsucc, List.take_succ_cons, ← ih h.tail]
        rfl
      · have hnone : ∀ record ∈ x :: xs, ¬ decide (record.offset < offset) = true := by
          intro record hr
          have hbounds := h.bounds hr
          rw [decide_eq_true_eq]
          omega
        have hzero : (offset - base).toNat = 0 := by omega
        rw [hzero, List.take_zero, List.filter_eq_nil_iff.mpr hnone]

/-- The records at the offsets from `low` up to `high`. -/
def recordsBetween (low high : Int) (records : List Record) : List Record :=
  records.filter fun record => decide (low ≤ record.offset) && decide (record.offset < high)

theorem OffsetsFrom.recordsBetween_eq (h : OffsetsFrom 0 xs) {low high : Int} (hlow : 0 ≤ low) :
    recordsBetween low high xs = (xs.drop low.toNat).take (high - low).toNat := by
  have hdrop := h.filter_le hlow
  rw [Int.sub_zero] at hdrop
  have hfrom : OffsetsFrom low (xs.drop low.toNat) := by
    have := h.drop low.toNat
    rwa [Int.toNat_of_nonneg hlow, Int.zero_add] at this
  unfold recordsBetween
  rw [← hfrom.filter_lt high, ← hdrop, List.filter_filter]
  exact List.filter_congr fun record _ => Bool.and_comm _ _

/-! ## The log and its history -/

/-- The history holds every accepted record at its offset, and the log still stores it from the
start offset on. -/
structure Tracks (log : PartitionLog) (history : List Record) : Prop where
  wellFormed : log.WellFormed
  offsets : OffsetsFrom 0 history
  length : (history.length : Int) = log.nextOffset
  stored : log.batches.flatMap StoredBatch.records = history.drop log.startOffset.toNat

theorem tracks_newLog (partitionMaxBytes : Option ℕ) : Tracks (newLog partitionMaxBytes) [] := by
  refine ⟨PartitionLog.wellFormed_newLog partitionMaxBytes, ?_, ?_, ?_⟩
  · exact fun i hi => absurd hi (Nat.not_lt_zero i)
  · cases partitionMaxBytes <;> rfl
  · cases partitionMaxBytes <;> rfl

/-- A stretch of batches holds one record for each offset it spans. -/
theorem contiguous_length {start stop : Int} {xs : List StoredBatch}
    (h : Contiguous start xs stop) :
    ((xs.flatMap StoredBatch.records).length : Int) = stop - start := by
  induction xs generalizing start with
  | nil =>
      have heq : start = stop := h
      simp [heq]
  | cons batch xs ih =>
      have hrest := ih h.2
      have hbase := h.1
      unfold StoredBatch.endOffset at hrest
      rw [List.flatMap_cons, List.length_append]
      push_cast
      omega

theorem flatMap_effect (op : LogOp) (batches : List StoredBatch) :
    (batches.map op.effect).flatMap StoredBatch.records =
      batches.flatMap StoredBatch.records := by
  rw [List.flatMap_map]
  exact congrArg (fun f => batches.flatMap f) (funext op.effect_records)

/-- An accepted append continues the history, and the high watermark follows it. -/
theorem accepted_spec (hlog : log.WellFormed) (op : LogOp) :
    OffsetsFrom log.nextOffset (op.accepted log) ∧
      (op.apply log).nextOffset = log.nextOffset + (op.accepted log).length := by
  have happend : ∀ (inputs : List RecordData) (transaction : Option Int) (state : BatchState),
      OffsetsFrom log.nextOffset
          (acceptedAt inputs (log.appendBatch inputs transaction state).2) ∧
        (log.appendBatch inputs transaction state).1.nextOffset =
          log.nextOffset +
            (acceptedAt inputs (log.appendBatch inputs transaction state).2).length := by
    intro inputs transaction state
    by_cases h : Appendable inputs
    · obtain ⟨log', dropped, heq, -, -, hnext, -⟩ :=
        PartitionLog.appendBatch_of_appendable h hlog.retained transaction state
      rw [heq]
      refine ⟨offsetsFrom_assignOffsets log.nextOffset inputs, ?_⟩
      rw [hnext, acceptedAt, length_assignOffsets]
    · obtain ⟨error, heq⟩ :=
        PartitionLog.appendBatch_of_not_appendable h log transaction state
      rw [heq]
      exact ⟨fun i hi => absurd hi (Nat.not_lt_zero i), (Int.add_zero _).symm⟩
  cases op with
  | append inputs => exact happend inputs _ _
  | appendData records => exact happend records _ _
  | appendTransactional records producerId => exact happend records _ _
  | commitTransaction producerId commit =>
      exact ⟨fun i hi => absurd hi (Nat.not_lt_zero i), (Int.add_zero _).symm⟩

/-- **One operation** extends the history by what it accepted and keeps the rest. -/
theorem Tracks.apply {log : PartitionLog} {history : List Record} (h : Tracks log history)
    (op : LogOp) : Tracks (op.apply log) (history ++ op.accepted log) := by
  have hlog := h.wellFormed
  have hwf := LogOp.apply_wellFormed hlog op
  obtain ⟨hoff, hnext⟩ := accepted_spec hlog op
  refine ⟨hwf, ?_, ?_, ?_⟩
  · apply h.offsets.append
    rw [Int.zero_add, h.length]
    exact hoff
  · rw [List.length_append, Nat.cast_add, h.length, hnext]
  · -- the stored batches are the old ones and the accepted one, less the dropped stretch
    obtain ⟨added, dropped, hsplit, hdropped, hadded⟩ := LogOp.apply_batches hlog op
    have hflat := congrArg (List.flatMap StoredBatch.records) hsplit
    rw [List.flatMap_append, List.flatMap_append, flatMap_effect, hadded, h.stored] at hflat
    have hcount := contiguous_length hdropped
    have hstart := hlog.nonneg
    have hle := hlog.startOffset_le
    have hlen := h.length
    have hsum : (op.apply log).startOffset.toNat =
        log.startOffset.toNat + (dropped.flatMap StoredBatch.records).length := by omega
    rw [hsum, ← List.drop_drop, List.drop_append_of_le_length (by omega), hflat,
      List.drop_left]

/-- The records accepted along a run of operations. -/
def acceptedBy : PartitionLog → List LogOp → List Record
  | _, [] => []
  | log, op :: ops => op.accepted log ++ acceptedBy (op.apply log) ops

theorem Tracks.run (h : Tracks log history) (ops : List LogOp) :
    Tracks (log.run ops) (history ++ acceptedBy log ops) := by
  induction ops generalizing log history with
  | nil =>
      rw [acceptedBy, List.append_nil]
      exact h
  | cons op ops ih =>
      rw [acceptedBy, ← List.append_assoc]
      exact ih (h.apply op)

/-- **Reading the log is reading the history.** What an offset in range shows a read-uncommitted
reader is the history from that offset on. -/
theorem Tracks.visible (h : Tracks log history) {offset : Int} (hin : log.InRange offset) :
    log.visible false offset = history.drop offset.toNat := by
  have hshown : ∀ batch : StoredBatch, batch.shown false offset =
      batch.records.filter fun record => decide (offset ≤ record.offset) := fun _ => rfl
  have hnonneg := h.wellFormed.nonneg
  have hfrom : OffsetsFrom log.startOffset (history.drop log.startOffset.toNat) := by
    have := h.offsets.drop log.startOffset.toNat
    rwa [Int.toNat_of_nonneg hnonneg, Int.zero_add] at this
  unfold PartitionLog.visible visibleIn
  rw [funext hshown, ← List.filter_flatMap, h.stored, hfrom.filter_le hin.1, List.drop_drop]
  congr 1
  have := hin.1
  omega

/-! ## The consumer -/

/-- A step of a run: an operation on the log, or a fetch of the consumer at its position. -/
inductive ConsumerStep
  | operate (op : LogOp)
  | fetch (maxRecords maxBytes : ℕ)
  deriving DecidableEq, Repr

/-- A log with its history, and a consumer of it. -/
structure Consumer where
  log : PartitionLog
  history : List Record
  position : Int
  received : List Record
  deriving DecidableEq, Repr

namespace Consumer

/-- The consumer that joins a log after the operations `before`, at offset `first`. -/
def start (partitionMaxBytes : Option ℕ) (before : List LogOp) (first : Int) : Consumer :=
  ⟨(newLog partitionMaxBytes).run before, acceptedBy (newLog partitionMaxBytes) before, first, []⟩

/-- The position after a fetch: one past the last returned record. -/
def advance (position : Int) (records : List Record) : Int :=
  match records.getLast? with
  | some record => record.offset + 1
  | none => position

/-- One step, up to a refused fetch. -/
def step (consumer : Consumer) : ConsumerStep → Except LogError Consumer
  | .operate op =>
      .ok { consumer with
        log := op.apply consumer.log
        history := consumer.history ++ op.accepted consumer.log }
  | .fetch maxRecords maxBytes => do
      let window ← consumer.log.fetch consumer.position maxRecords maxBytes
      .ok { consumer with
        position := advance consumer.position window.records
        received := consumer.received ++ window.records }

/-- A run of steps in which no fetch is refused. -/
def run (consumer : Consumer) (steps : List ConsumerStep) : Except LogError Consumer :=
  steps.foldlM step consumer

/-- What a consumer that started at `first` holds. -/
structure Inv (first : Int) (consumer : Consumer) : Prop where
  tracks : Tracks consumer.log consumer.history
  nonneg : 0 ≤ first
  first_le : first ≤ consumer.position
  position_le : consumer.position ≤ consumer.log.nextOffset
  received : consumer.received =
    (consumer.history.drop first.toNat).take (consumer.position - first).toNat

end Consumer

/-- The fetch of a consumer reads on in the history from its position. -/
theorem Tracks.fetch (h : Tracks log history) {position : Int} {maxRecords maxBytes : ℕ}
    {window : FetchWindow} (hfetch : log.fetch position maxRecords maxBytes = .ok window) :
    log.InRange position ∧
      window.records = takeWithin recordSize maxRecords maxBytes (history.drop position.toNat) := by
  unfold PartitionLog.fetch at hfetch
  rw [PartitionLog.fetchInner_eq h.wellFormed] at hfetch
  split at hfetch
  · next hin =>
      cases hfetch
      exact ⟨hin, by rw [h.visible hin]⟩
  · cases hfetch

/-- The consumer moves on by as many offsets as it was given records. -/
theorem advance_eq {position : Int} {records : List Record} (h : OffsetsFrom position records) :
    Consumer.advance position records = position + records.length := by
  unfold Consumer.advance
  rcases hlast : records.getLast? with _ | record
  · rw [List.getLast?_eq_none_iff] at hlast
    simp [hlast]
  · obtain ⟨front, rfl⟩ := List.getLast?_eq_some_iff.mp hlast
    have hoff := h front.length (by simp)
    simp only [List.getElem_concat_length, List.length_append, List.length_singleton] at hoff ⊢
    rw [hoff]
    omega

namespace Consumer

/-- **One step** keeps what the consumer holds a stretch of the history. -/
theorem Inv.step {consumer consumer' : Consumer} (h : consumer.Inv first) {s : ConsumerStep}
    (hstep : consumer.step s = .ok consumer') : consumer'.Inv first := by
  obtain ⟨htracks, hnonneg, hfirst, hpos, hreceived⟩ := h
  have hlen := htracks.length
  cases s with
  | operate op =>
      cases hstep
      have hgrow := LogOp.nextOffset_le_apply htracks.wellFormed op
      refine ⟨htracks.apply op, hnonneg, hfirst, le_trans hpos hgrow, ?_⟩
      -- the new records lie behind everything received so far
      show consumer.received =
        ((consumer.history ++ op.accepted consumer.log).drop first.toNat).take
          (consumer.position - first).toNat
      rw [hreceived, List.drop_append_of_le_length (by omega), List.take_append_of_le_length]
      rw [List.length_drop]
      omega
  | fetch maxRecords maxBytes =>
      rcases hfetch : consumer.log.fetch consumer.position maxRecords maxBytes with _ | window
      · simp [Consumer.step, hfetch, bind, Except.bind] at hstep
      · obtain ⟨hin, hrecords⟩ := htracks.fetch hfetch
        have heq : consumer' =
            { consumer with
              position := advance consumer.position window.records
              received := consumer.received ++ window.records } := by
          simpa [Consumer.step, hfetch, bind, Except.bind] using hstep.symm
        have hread : window.records =
            (consumer.history.drop consumer.position.toNat).take window.records.length := by
          conv_lhs => rw [hrecords, takeWithin_eq_take, ← hrecords]
        have hcount := congrArg List.length hread
        rw [List.length_take, List.length_drop] at hcount
        have hoff : OffsetsFrom consumer.position window.records := by
          have hfrom := (htracks.offsets.drop consumer.position.toNat).take window.records.length
          rwa [← hread, Int.toNat_of_nonneg (by omega), Int.zero_add] at hfrom
        have hadvance := advance_eq hoff
        rw [heq]
        refine ⟨htracks, hnonneg, ?_, ?_, ?_⟩
        · show first ≤ advance consumer.position window.records
          omega
        · show advance consumer.position window.records ≤ consumer.log.nextOffset
          omega
        · show consumer.received ++ window.records = (consumer.history.drop first.toNat).take
            (advance consumer.position window.records - first).toNat
          have hsplit : (advance consumer.position window.records - first).toNat =
              (consumer.position - first).toNat + window.records.length := by omega
          have hat : first.toNat + (consumer.position - first).toNat =
              consumer.position.toNat := by omega
          rw [hsplit, List.take_add, List.drop_drop, hat, ← hread, ← hreceived]

/-- **Every run** keeps it. -/
theorem Inv.run {consumer consumer' : Consumer} (h : consumer.Inv first) {steps : List ConsumerStep}
    (hrun : consumer.run steps = .ok consumer') :
    consumer'.Inv first := by
  induction steps generalizing consumer with
  | nil =>
      cases hrun
      exact h
  | cons s steps ih =>
      unfold Consumer.run at hrun
      rw [List.foldlM_cons] at hrun
      rcases hs : consumer.step s with _ | next
      · rw [hs] at hrun
        cases hrun
      · rw [hs] at hrun
        exact ih (h.step hs) hrun

/-- A fetch below the high watermark returns something. -/
theorem Inv.fetch_ne_nil {consumer : Consumer} (h : consumer.Inv first)
    (hbelow : consumer.position < consumer.log.highWatermark) {maxRecords maxBytes : ℕ}
    (hmax : 0 < maxRecords) {window : FetchWindow}
    (hfetch : consumer.log.fetch consumer.position maxRecords maxBytes = .ok window) :
    window.records ≠ [] := by
  obtain ⟨-, hrecords⟩ := h.tracks.fetch hfetch
  have hlen := h.tracks.length
  have hpos := le_trans h.nonneg h.first_le
  unfold PartitionLog.highWatermark at hbelow
  have hread : 0 < (takeWithin recordSize maxRecords maxBytes
      (consumer.history.drop consumer.position.toNat)).length := by
    rw [lt_length_takeWithin_iff, List.length_drop]
    exact ⟨by omega, hmax, Or.inl rfl⟩
  rw [hrecords]
  exact List.ne_nil_of_length_pos hread

end Consumer

/-- What a consumer that started at `first` was given: the accepted records at the offsets from
`first` up to its position, one for each offset, in order. -/
structure Consumer.ExactlyOnce (first : Int) (consumer : Consumer) : Prop where
  first_le : first ≤ consumer.position
  received : consumer.received = recordsBetween first consumer.position consumer.history
  offsets : OffsetsFrom first consumer.received
  length : (consumer.received.length : Int) = consumer.position - first

theorem Consumer.Inv.exactlyOnce {consumer : Consumer} (h : consumer.Inv first) :
    consumer.ExactlyOnce first := by
  obtain ⟨htracks, hnonneg, hfirst, hpos, hreceived⟩ := h
  have hlen := htracks.length
  refine ⟨hfirst, ?_, ?_, ?_⟩
  · rw [hreceived, htracks.offsets.recordsBetween_eq hnonneg]
  · rw [hreceived]
    have hfrom := (htracks.offsets.drop first.toNat).take (consumer.position - first).toNat
    rwa [Int.toNat_of_nonneg hnonneg, Int.zero_add] at hfrom
  · rw [hreceived, List.length_take, List.length_drop]
    omega

/-- **Every record exactly once and in order.** A consumer that starts at an offset a log can be
read at, and is never refused, has received exactly the records appended from there up to its
position, and its next fetch below the high watermark returns at least one record. -/
theorem consumer_exactly_once (partitionMaxBytes : Option ℕ) (before : List LogOp) (first : Int)
    (hfirst : ((newLog partitionMaxBytes).run before).InRange first) (steps : List ConsumerStep)
    (consumer : Consumer)
    (hrun : (Consumer.start partitionMaxBytes before first).run steps = .ok consumer) :
    consumer.ExactlyOnce first ∧
      ∀ maxRecords maxBytes window, 0 < maxRecords →
        consumer.position < consumer.log.highWatermark →
        consumer.log.fetch consumer.position maxRecords maxBytes = .ok window →
        window.records ≠ [] := by
  have htracks := (tracks_newLog partitionMaxBytes).run before
  have hnonneg := le_trans htracks.wellFormed.nonneg hfirst.1
  have hstart : (Consumer.start partitionMaxBytes before first).Inv first := by
    refine ⟨htracks, hnonneg, le_rfl, hfirst.2, ?_⟩
    simp [Consumer.start]
  have hinv := hstart.run hrun
  refine ⟨hinv.exactlyOnce, ?_⟩
  intro maxRecords maxBytes window hmax hbelow hfetch
  exact hinv.fetch_ne_nil hbelow hmax hfetch

/-- A log of three records, at its byte budget. -/
def fullLog : List LogOp :=
  [.append [⟨5, none, some [1]⟩], .append [⟨6, some [2], none⟩, ⟨7, none, some []⟩]]

/-- A consumer that reads one record, is overtaken by an eviction and a transaction that aborts,
and reads the rest. -/
def overtaken : List ConsumerStep :=
  [.fetch 1 0, .operate (.appendTransactional [⟨8, none, none⟩] 3),
    .operate (.commitTransaction 3 false), .fetch 9 1000]

theorem consumer_exactly_once_overtaken :
    ∃ consumer, (Consumer.start (some 100) fullLog 0).run overtaken = .ok consumer ∧
      consumer.log.startOffset = 1 ∧ consumer.position = 4 ∧ consumer.ExactlyOnce 0 := by
  refine ⟨_, rfl, by decide, by decide, ?_⟩
  exact (consumer_exactly_once (some 100) fullLog 0 (by decide) overtaken _ rfl).1

end CharlotteBroker.Core
