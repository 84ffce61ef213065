import CharlotteBroker.Core.LogInvariant
import CharlotteBroker.Lib.Budget

/-!
# What a fetch returns

`fetchInner` jumps in by binary search and runs two nested loops under two budgets. The loops are
one pass over what the batches from the entry point on show (`PartitionLog.readable`). On a
well-formed log the entry point goes too, and fetching is a plain definition
(`PartitionLog.fetchInner_eq`): the records at or above the requested offset that the isolation
level shows (`PartitionLog.visible`), cut to the longest prefix within both budgets
(`Lib.takeWithin`).

The two steps are the loops (`scanBatches_records`: scanning from any batch on is `takeWithinFrom`
over what those batches show) and the entry point (`visibleIn_drop_batchIndexFor`: the batches the
search skips show nothing at or above the offset).
-/

namespace CharlotteBroker.Core

open Lib

variable {log : PartitionLog} {batch : StoredBatch} {readCommitted : Bool}

/-- The records a batch shows to a reader at `offset`. -/
def StoredBatch.shown (readCommitted : Bool) (offset : Int) (batch : StoredBatch) : List Record :=
  if batch.hiddenFrom readCommitted then []
  else batch.records.filter fun record => decide (offset ≤ record.offset)

/-- The records a list of batches shows to a reader at `offset`, in log order. -/
def visibleIn (readCommitted : Bool) (offset : Int) (batches : List StoredBatch) : List Record :=
  batches.flatMap (StoredBatch.shown readCommitted offset)

/-- The records a log shows to a reader at `offset`. -/
def PartitionLog.visible (log : PartitionLog) (readCommitted : Bool) (offset : Int) :
    List Record :=
  visibleIn readCommitted offset log.batches

theorem mem_shown {offset : Int} {record : Record} :
    record ∈ batch.shown readCommitted offset ↔
      batch.hiddenFrom readCommitted = false ∧ record ∈ batch.records ∧
        offset ≤ record.offset := by
  unfold StoredBatch.shown
  cases hh : batch.hiddenFrom readCommitted <;> simp [List.mem_filter]

theorem mem_visible {offset : Int} {record : Record} :
    record ∈ log.visible readCommitted offset ↔
      ∃ batch ∈ log.batches, batch.hiddenFrom readCommitted = false ∧ record ∈ batch.records ∧
        offset ≤ record.offset := by
  unfold PartitionLog.visible visibleIn
  simp only [List.mem_flatMap, mem_shown]

/-! ## The loops -/

/-- What the loops still read, from accumulators `scanned` on. -/
def remaining (args : FetchArgs) (scanned : Scanned) (shown : List Record) : List Record :=
  takeWithinFrom recordSize args.maxRecords args.maxBytes scanned.records.length scanned.bytes shown

/-- The inner loop, followed by the outer one over `rest`, reads what the rest of the batch and
then the rest of the batches show. -/
theorem scanBatch_records (args : FetchArgs) (batch : StoredBatch) (rest : List StoredBatch)
    (hrest : ∀ scanned, (scanBatches args rest scanned).records =
      scanned.records ++ remaining args scanned (visibleIn args.readCommitted args.offset rest))
    (records : List Record) (scanned : Scanned) :
    (match scanBatch args batch records scanned with
      | .next scanned => scanBatches args rest scanned
      | .stop scanned => scanned).records =
      scanned.records ++ remaining args scanned
        (StoredBatch.shown args.readCommitted args.offset { batch with records := records } ++
          visibleIn args.readCommitted args.offset rest) := by
  induction records generalizing scanned with
  | nil =>
      have hnil : StoredBatch.shown args.readCommitted args.offset
          { batch with records := [] } = [] := by
        unfold StoredBatch.shown
        split <;> rfl
      rw [hnil, List.nil_append]
      exact hrest scanned
  | cons record records ih =>
      have hhid : ∀ rs, StoredBatch.hiddenFrom args.readCommitted { batch with records := rs } =
          batch.hiddenFrom args.readCommitted := fun _ => rfl
      unfold scanBatch
      by_cases hlow : record.offset < args.offset
      · rw [if_pos hlow, ih]
        have hskip : decide (args.offset ≤ record.offset) = false := by simpa using hlow
        simp only [StoredBatch.shown, hhid, List.filter_cons, hskip, Bool.false_eq_true, if_false]
      · rw [if_neg hlow]
        by_cases hhidden : batch.hiddenFrom args.readCommitted = true
        · rw [if_pos hhidden, ih]
          simp only [StoredBatch.shown, hhid, hhidden, if_true]
        · rw [if_neg hhidden]
          have hkeep : decide (args.offset ≤ record.offset) = true := by simpa using hlow
          have hshown : StoredBatch.shown args.readCommitted args.offset
              { batch with records := record :: records } =
              record :: StoredBatch.shown args.readCommitted args.offset
                { batch with records := records } := by
            simp only [StoredBatch.shown, hhid, hhidden, List.filter_cons, hkeep, if_true]
            rfl
          rw [hshown, List.cons_append]
          by_cases hcount : scanned.records.length = args.maxRecords
          · rw [if_pos hcount]
            simp only [remaining, takeWithinFrom, hcount, if_true, List.append_nil]
          · rw [if_neg hcount]
            by_cases hbytes : (!scanned.records.isEmpty &&
                decide (scanned.bytes + recordSize record > args.maxBytes)) = true
            · rw [if_pos hbytes]
              have hover : scanned.records.length ≠ 0 ∧
                  args.maxBytes < scanned.bytes + recordSize record := by
                simpa using hbytes
              simp only [remaining, takeWithinFrom, hcount, hover, if_false, ne_eq,
                not_false_eq_true, and_self, if_true, List.append_nil]
            · rw [if_neg hbytes, ih]
              have hfits : ¬ (scanned.records.length ≠ 0 ∧
                  args.maxBytes < scanned.bytes + recordSize record) := by
                intro hover
                apply hbytes
                simpa using hover
              simp only [remaining, takeWithinFrom]
              rw [if_neg hcount, if_neg hfits, List.length_append, List.append_assoc]
              rfl

/-- **The loops are one pass.** Scanning a list of batches appends the admitted prefix of what
the batches show. -/
theorem scanBatches_records (args : FetchArgs) (batches : List StoredBatch) (scanned : Scanned) :
    (scanBatches args batches scanned).records =
      scanned.records ++ remaining args scanned
        (visibleIn args.readCommitted args.offset batches) := by
  induction batches generalizing scanned with
  | nil => simp [scanBatches, visibleIn, remaining, takeWithinFrom]
  | cons batch rest ih =>
      have h := scanBatch_records args batch rest ih batch.records scanned
      unfold scanBatches
      exact h

/-! ## The entry point -/

/-- A batch that ends at or below the offset shows nothing there. -/
theorem shown_eq_nil (hbatch : batch.WellFormed) {offset : Int} (hend : batch.endOffset ≤ offset) :
    batch.shown readCommitted offset = [] := by
  rw [List.eq_nil_iff_forall_not_mem]
  intro record hr
  obtain ⟨-, hmem, hle⟩ := mem_shown.mp hr
  have hlt := (hbatch.offsets.bounds hmem).2
  unfold StoredBatch.endOffset at hend
  omega

/-- The test of the binary search is true on a prefix of the batches. -/
theorem downClosed_baseOffset_le (hlog : log.WellFormed) (offset : Int) :
    DownClosed (fun middle => (log.batches[middle]?).any fun batch => batch.baseOffset ≤ offset)
      log.batches.length := by
  intro i j hij hj hpj
  rcases Nat.lt_or_eq_of_le hij with hlt | rfl
  · have hi : i < log.batches.length := by omega
    have hpair := List.pairwise_iff_getElem.mp (contiguous_pairwise hlog.contiguous) i j hi hj hlt
    have hbi := (hlog.batches _ (List.getElem_mem hi)).lt_endOffset
    simp only [List.getElem?_eq_getElem hi, List.getElem?_eq_getElem hj, Option.any_some,
      decide_eq_true_eq] at hpj ⊢
    omega
  · exact hpj

/-- The batches below the entry point of a fetch end at or below its offset. -/
theorem endOffset_le_of_lt_batchIndexFor (hlog : log.WellFormed) {offset : Int} {j : ℕ}
    (hj : j < log.batchIndexFor offset) (hlen : j < log.batches.length) :
    log.batches[j].endOffset ≤ offset := by
  unfold PartitionLog.batchIndexFor at hj
  have hp := downClosed_baseOffset_le hlog offset
  have hsucc := lt_bisect hp (i := j + 1) (by omega)
  rcases hget : log.batches[j + 1]? with _ | next
  · rw [hget] at hsucc
    cases hsucc
  · obtain ⟨hlen', hnext⟩ := List.getElem?_eq_some_iff.mp hget
    rw [hget] at hsucc
    have hle : next.baseOffset ≤ offset := by simpa using hsucc
    have hpair := List.pairwise_iff_getElem.mp (contiguous_pairwise hlog.contiguous) j (j + 1)
      hlen hlen' (Nat.lt_succ_self j)
    rw [hnext] at hpair
    exact le_trans hpair hle

/-- **The search loses nothing.** The batches skipped by the binary search show nothing at or
above the offset. -/
theorem visibleIn_drop_batchIndexFor (hlog : log.WellFormed) (readCommitted : Bool) (offset : Int) :
    visibleIn readCommitted offset (log.batches.drop (log.batchIndexFor offset)) =
      log.visible readCommitted offset := by
  set k := log.batchIndexFor offset with hk
  have hskip : visibleIn readCommitted offset (log.batches.take k) = [] := by
    unfold visibleIn
    rw [List.flatMap_eq_nil_iff]
    intro batch hb
    obtain ⟨j, hj, rfl⟩ := List.mem_iff_getElem.mp hb
    rw [List.length_take] at hj
    have hjl : j < log.batches.length := by omega
    rw [List.getElem_take]
    apply shown_eq_nil (hlog.batches _ (List.getElem_mem hjl))
    exact endOffset_le_of_lt_batchIndexFor hlog (by omega) hjl
  have hsplit : log.visible readCommitted offset =
      visibleIn readCommitted offset (log.batches.take k) ++
        visibleIn readCommitted offset (log.batches.drop k) := by
    unfold PartitionLog.visible visibleIn
    rw [← List.flatMap_append, List.take_append_drop]
  rw [hsplit, hskip, List.nil_append]

/-- At the high watermark there is nothing to see. -/
theorem visible_nextOffset (hlog : log.WellFormed) (readCommitted : Bool) :
    log.visible readCommitted log.nextOffset = [] := by
  rw [List.eq_nil_iff_forall_not_mem]
  intro record hr
  obtain ⟨batch, hb, -, hmem, hle⟩ := mem_visible.mp hr
  have hlt := ((hlog.batches batch hb).offsets.bounds hmem).2
  have hend := (hlog.mem_bounds hb).2
  unfold StoredBatch.endOffset at hend
  omega

/-- The offset is one the log can be read at. -/
def PartitionLog.InRange (log : PartitionLog) (offset : Int) : Prop :=
  log.startOffset ≤ offset ∧ offset ≤ log.nextOffset

instance (log : PartitionLog) (offset : Int) : Decidable (log.InRange offset) :=
  inferInstanceAs (Decidable (_ ∧ _))

/-- What a fetch reads of a log: from the entry point on, within both budgets. -/
def PartitionLog.readable (log : PartitionLog) (args : FetchArgs) : List Record :=
  if 0 < args.maxRecords ∧ args.offset < log.nextOffset then
    takeWithin recordSize args.maxRecords args.maxBytes
      (visibleIn args.readCommitted args.offset (log.batches.drop (log.batchIndexFor args.offset)))
  else []

/-- **Fetch without the loops.** On any log a fetch fails exactly outside
`[startOffset, nextOffset]`. -/
theorem PartitionLog.fetchInner_eq_readable (log : PartitionLog) (args : FetchArgs) :
    log.fetchInner args =
      if log.InRange args.offset then
        .ok ⟨log.nextOffset, log.lastStableOffset, log.readable args⟩
      else .error .offsetOutOfRange := by
  have houtside : (args.offset < log.startOffset || args.offset > log.nextOffset) =
      !decide (log.InRange args.offset) := by
    unfold InRange
    grind
  have hrecords : (if args.maxRecords > 0 && args.offset < log.nextOffset then
        scanBatches args (log.batches.drop (log.batchIndexFor args.offset)) ⟨[], 0⟩
      else ⟨[], 0⟩).records = log.readable args := by
    unfold readable
    by_cases hread : 0 < args.maxRecords ∧ args.offset < log.nextOffset
    · rw [if_pos hread, if_pos (by simpa using hread)]
      exact scanBatches_records args _ _
    · rw [if_neg hread, if_neg (by simpa using hread)]
  unfold fetchInner
  simp only [houtside, hrecords]
  by_cases hrange : log.InRange args.offset
  · simp [hrange]
  · simp [hrange]

/-- On a well-formed log the entry point loses nothing, and there is nothing at the end. -/
theorem PartitionLog.readable_eq (hlog : log.WellFormed) {args : FetchArgs}
    (hnext : args.offset ≤ log.nextOffset) :
    log.readable args = takeWithin recordSize args.maxRecords args.maxBytes
      (log.visible args.readCommitted args.offset) := by
  unfold readable
  split
  · rw [visibleIn_drop_batchIndexFor hlog]
  · next hread =>
      by_cases hzero : args.maxRecords = 0
      · have hle := length_takeWithin_le recordSize args.maxRecords args.maxBytes
          (log.visible args.readCommitted args.offset)
        rw [hzero] at hle ⊢
        exact (List.length_eq_zero_iff.mp (Nat.le_zero.mp hle)).symm
      · have hend : args.offset = log.nextOffset := by omega
        rw [hend, visible_nextOffset hlog]
        rfl

/-- **Fetch without the search.** On a well-formed log a fetch fails exactly outside
`[startOffset, nextOffset]`, and otherwise returns the longest prefix of the visible records
within both budgets. -/
theorem PartitionLog.fetchInner_eq (hlog : log.WellFormed) (args : FetchArgs) :
    log.fetchInner args =
      if log.InRange args.offset then
        .ok
          { highWatermark := log.nextOffset
            lastStableOffset := log.lastStableOffset
            records := takeWithin recordSize args.maxRecords args.maxBytes
              (log.visible args.readCommitted args.offset) }
      else .error .offsetOutOfRange := by
  rw [fetchInner_eq_readable]
  split
  · next hrange => rw [readable_eq hlog hrange.2]
  · rfl

/-! ## The plain definition -/

/-- Records of the batch are returned to a reader at this isolation level. -/
def StoredBatch.returnedTo (readCommitted : Bool) (batch : StoredBatch) : Bool :=
  !readCommitted || batch.transaction.isNone || batch.state == .committed

/-- All stored records, over all batches in order, that a fetch may return: those at or above the
requested offset, under `readCommitted` only those of plain and of committed batches. -/
def PartitionLog.candidates (log : PartitionLog) (args : FetchArgs) : List Record :=
  ((log.batches.filter (StoredBatch.returnedTo args.readCommitted)).flatMap
    StoredBatch.records).filter fun record => decide (args.offset ≤ record.offset)

/-- A batch a resolution is still awaited for. -/
def StoredBatch.isPending (batch : StoredBatch) : Bool :=
  batch.transaction.isSome && batch.state == .pending

/-- `offset` is the base offset of the first pending transactional batch, or the high watermark if
there is none. -/
inductive PartitionLog.IsLastStable (log : PartitionLog) : Int → Prop
  | pending {before after : List StoredBatch} {batch : StoredBatch}
      (split : log.batches = before ++ batch :: after) (pending : batch.isPending = true)
      (first : ∀ earlier ∈ before, earlier.isPending = false) : log.IsLastStable batch.baseOffset
  | none (resolved : ∀ batch ∈ log.batches, batch.isPending = false) :
      log.IsLastStable log.highWatermark

theorem PartitionLog.isLastStable (log : PartitionLog) :
    log.IsLastStable log.lastStableOffset := by
  rcases hfind : log.batches.find? fun batch =>
      batch.transaction.isSome && batch.state == .pending with _ | first
  · have hlso : log.lastStableOffset = log.highWatermark := by
      rw [PartitionLog.lastStableOffset, hfind]
      rfl
    rw [hlso]
    refine .none fun batch hb => ?_
    simpa [StoredBatch.isPending] using List.find?_eq_none.mp hfind batch hb
  · obtain ⟨hpending, before, after, hsplit, hbefore⟩ := List.find?_eq_some_iff_append.mp hfind
    have hlso : log.lastStableOffset = first.baseOffset := by
      rw [PartitionLog.lastStableOffset, hfind]
    rw [hlso]
    refine .pending hsplit hpending fun earlier hearlier => ?_
    have hnot := hbefore earlier hearlier
    rwa [Bool.not_eq_true'] at hnot

theorem StoredBatch.hiddenFrom_eq_not (readCommitted : Bool) (batch : StoredBatch) :
    batch.hiddenFrom readCommitted = !batch.returnedTo readCommitted := by
  unfold StoredBatch.hiddenFrom StoredBatch.returnedTo
  cases readCommitted <;> cases batch.transaction <;> cases batch.state <;> rfl

theorem PartitionLog.visible_eq_candidates (log : PartitionLog) (args : FetchArgs) :
    log.visible args.readCommitted args.offset = log.candidates args := by
  unfold PartitionLog.visible PartitionLog.candidates visibleIn
  induction log.batches with
  | nil => rfl
  | cons batch rest ih =>
      rw [List.flatMap_cons, ih]
      unfold StoredBatch.shown
      rw [StoredBatch.hiddenFrom_eq_not]
      cases hreturned : batch.returnedTo args.readCommitted
      · rw [List.filter_cons_of_neg (by simp [hreturned])]
        rfl
      · rw [List.filter_cons_of_pos hreturned, List.flatMap_cons, List.filter_append]
        rfl

/-- **Fetch is its plain definition.** On every reachable log a fetch fails with
`offsetOutOfRange` exactly outside `[startOffset, highWatermark]`; inside it returns the longest
prefix of the candidate records within both budgets, the high watermark, and the base offset of the
first pending transactional batch. -/
theorem fetchInner_plain (limit : Option ℕ) (ops : List LogOp) (args : FetchArgs) :
    let log := (newLog limit).run ops
    (log.fetchInner args = .error .offsetOutOfRange ↔
      args.offset < log.startOffset ∨ log.highWatermark < args.offset) ∧
    (log.startOffset ≤ args.offset ∧ args.offset ≤ log.highWatermark →
      ∃ window, log.fetchInner args = .ok window ∧
        IsLongest
          (fun records => records <+: log.candidates args ∧ records.length ≤ args.maxRecords ∧
            (records.length ≤ 1 ∨ (records.map recordSize).sum ≤ args.maxBytes))
          window.records ∧
        window.highWatermark = log.nextOffset ∧ log.IsLastStable window.lastStableOffset) := by
  intro log
  have hlog : log.WellFormed := PartitionLog.run_wellFormed
    (PartitionLog.wellFormed_newLog limit) ops
  rw [PartitionLog.fetchInner_eq hlog args, log.visible_eq_candidates args]
  constructor
  · by_cases hrange : log.InRange args.offset
    · rw [if_pos hrange]
      obtain ⟨hstart, hnext⟩ := hrange
      simp only [reduceCtorEq, false_iff, not_or, Int.not_lt]
      exact ⟨hstart, hnext⟩
    · rw [if_neg hrange]
      simp only [true_iff]
      unfold PartitionLog.InRange at hrange
      unfold PartitionLog.highWatermark
      omega
  · intro hrange
    have hin : log.InRange args.offset := hrange
    rw [if_pos hin]
    exact ⟨_, rfl, takeWithin_longest _, rfl, log.isLastStable⟩

/-! ## Order and position of the visible records -/

/-- The visible records are in strictly increasing offset order. -/
theorem visible_pairwise (hlog : log.WellFormed) (readCommitted : Bool) (offset : Int) :
    (log.visible readCommitted offset).Pairwise fun a b => a.offset < b.offset := by
  unfold PartitionLog.visible visibleIn
  rw [List.pairwise_flatMap]
  constructor
  · intro batch hb
    unfold StoredBatch.shown
    split
    · exact List.Pairwise.nil
    · apply List.Pairwise.filter
      rw [List.pairwise_iff_getElem]
      intro i j hi hj hij
      have hoff := (hlog.batches batch hb).offsets
      rw [hoff i hi, hoff j hj]
      omega
  · refine List.Pairwise.imp_of_mem ?_ (contiguous_pairwise hlog.contiguous)
    intro a b ha hb hab x hx y hy
    have hxlt := ((hlog.batches a ha).offsets.bounds (mem_shown.mp hx).2.1).2
    have hyge := ((hlog.batches b hb).offsets.bounds (mem_shown.mp hy).2.1).1
    unfold StoredBatch.endOffset at hab
    omega

/-- A visible record is the first one visible at its own offset. -/
theorem head?_visible (hlog : log.WellFormed) (hb : batch ∈ log.batches)
    (hshow : batch.hiddenFrom readCommitted = false) {record : Record}
    (hr : record ∈ batch.records) :
    (log.visible readCommitted record.offset).head? = some record := by
  have hmem : record ∈ log.visible readCommitted record.offset :=
    mem_visible.mpr ⟨batch, hb, hshow, hr, le_rfl⟩
  have hsorted := visible_pairwise hlog readCommitted record.offset
  rcases hv : log.visible readCommitted record.offset with _ | ⟨first, rest⟩
  · rw [hv] at hmem
    exact absurd hmem List.not_mem_nil
  · have hfirst : record.offset ≤ first.offset := by
      have hin : first ∈ log.visible readCommitted record.offset := by
        rw [hv]
        exact List.mem_cons_self
      obtain ⟨-, -, -, -, hle⟩ := mem_visible.mp hin
      exact hle
    rw [hv] at hmem hsorted
    rcases List.mem_cons.mp hmem with heq | hlater
    · rw [heq]
      rfl
    · have hlt := (List.pairwise_cons.mp hsorted).1 record hlater
      omega

/-- Every stored record's offset can be read at. -/
theorem PartitionLog.WellFormed.inRange (hlog : log.WellFormed) (hb : batch ∈ log.batches)
    {record : Record} (hr : record ∈ batch.records) : log.InRange record.offset := by
  have hbounds := hlog.mem_bounds hb
  have hoff := (hlog.batches batch hb).offsets.bounds hr
  unfold StoredBatch.endOffset at hbounds
  exact ⟨by omega, by omega⟩

end CharlotteBroker.Core
