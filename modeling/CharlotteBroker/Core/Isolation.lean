import CharlotteBroker.Core.LogFetch

/-!
# Transactional isolation at one log

What a read-committed reader may rely on, over every sequence of log operations.

* **Resolution is not final** (`resolutionFinal_iff`). A resolution writes its outcome into every
  batch of the producer, resolved ones included. A resolved batch keeps its outcome along a run
  exactly when no resolution of the run meets a retained batch of its producer that an earlier
  resolution gave the other outcome.
* **A read-committed window does not stop at the last stable offset** (`stopsAtStable_iff`). The
  fetch skips pending batches and goes on; the window stays below the last stable offset exactly
  when nothing visible lies beyond a pending batch or a budget runs out first.

Both rest on `fetchInner_eq` (a fetch is a prefix of the visible records) and on `LogOp.mem_apply`
(what one operation can do to a batch).
-/

namespace CharlotteBroker.Core

open Lib

variable {log : PartitionLog} {batch : StoredBatch} {producerId : Int}

/-! ## What a reader sees of one batch -/

/-- Read-committed fetches return the record: the fetch at its offset returns it first, and no
window that spans its offset leaves it out. -/
structure PartitionLog.Shows (log : PartitionLog) (record : Record) : Prop where
  first : ∀ maxRecords > 0, ∀ maxBytes, ∃ window,
    log.fetchWithIsolation record.offset maxRecords maxBytes true = .ok window ∧
      window.records.head? = some record
  spanned : ∀ offset maxRecords maxBytes window,
    log.fetchWithIsolation offset maxRecords maxBytes true = .ok window →
      offset ≤ record.offset → (∃ later ∈ window.records, record.offset ≤ later.offset) →
        record ∈ window.records

/-- No read-committed fetch returns the record. -/
def PartitionLog.Hides (log : PartitionLog) (record : Record) : Prop :=
  ∀ offset maxRecords maxBytes window,
    log.fetchWithIsolation offset maxRecords maxBytes true = .ok window → record ∉ window.records

/-- The records of a successful fetch are the admitted prefix of the visible ones. -/
theorem PartitionLog.fetchWithIsolation_ok (hlog : log.WellFormed) {offset : Int}
    {maxRecords maxBytes : ℕ} {readCommitted : Bool} {window : FetchWindow}
    (h : log.fetchWithIsolation offset maxRecords maxBytes readCommitted = .ok window) :
    log.InRange offset ∧ window.lastStableOffset = log.lastStableOffset ∧
      window.records =
        takeWithin recordSize maxRecords maxBytes (log.visible readCommitted offset) := by
  unfold PartitionLog.fetchWithIsolation at h
  rw [PartitionLog.fetchInner_eq hlog] at h
  by_cases hrange : log.InRange offset
  · rw [if_pos hrange] at h
    cases h
    exact ⟨hrange, rfl, rfl⟩
  · rw [if_neg hrange] at h
    cases h

/-- Every record of a batch that is not hidden is returned to read-committed readers. -/
theorem PartitionLog.WellFormed.shows (hlog : log.WellFormed) (hb : batch ∈ log.batches)
    (hshow : batch.hiddenFrom true = false) {record : Record} (hr : record ∈ batch.records) :
    log.Shows record := by
  refine ⟨?_, ?_⟩
  · intro maxRecords hpos maxBytes
    refine ⟨⟨log.nextOffset, log.lastStableOffset,
      takeWithin recordSize maxRecords maxBytes (log.visible true record.offset)⟩, ?_, ?_⟩
    · unfold PartitionLog.fetchWithIsolation
      rw [PartitionLog.fetchInner_eq hlog, if_pos (hlog.inRange hb hr)]
    · show (takeWithin _ _ _ _).head? = _
      rw [head?_takeWithin hpos, head?_visible hlog hb hshow hr]
  · rintro offset maxRecords maxBytes window h hle ⟨later, hlater, hspan⟩
    obtain ⟨-, -, hrecords⟩ := PartitionLog.fetchWithIsolation_ok hlog h
    have hmem : record ∈ log.visible true offset := mem_visible.mpr ⟨batch, hb, hshow, hr, hle⟩
    have hsorted := visible_pairwise hlog true offset
    -- the record's position is not after that of `later`, which the prefix reaches
    rw [hrecords] at hlater ⊢
    obtain ⟨rest, hrest⟩ :=
      @takeWithin_prefix_of _ recordSize maxRecords maxBytes (log.visible true offset)
    rw [← hrest] at hmem hsorted
    rcases List.mem_append.mp hmem with hin | hout
    · exact hin
    · have hlt := (List.pairwise_append.mp hsorted).2.2 later hlater record hout
      omega

/-- No record of a hidden batch is returned to read-committed readers. -/
theorem PartitionLog.WellFormed.hides (hlog : log.WellFormed) (hb : batch ∈ log.batches)
    (hhide : batch.hiddenFrom true = true) {record : Record} (hr : record ∈ batch.records) :
    log.Hides record := by
  intro offset maxRecords maxBytes window h hin
  obtain ⟨-, -, hrecords⟩ := PartitionLog.fetchWithIsolation_ok hlog h
  rw [hrecords] at hin
  obtain ⟨other, hother, hshow, hr', -⟩ := mem_visible.mp (mem_of_mem_takeWithin hin)
  -- a record determines its batch, since batches hold disjoint offset ranges
  have heq : other = batch := hlog.eq_of_record hother hb hr' hr
  rw [heq, hhide] at hshow
  cases hshow

/-- No operation but a commit of its producer shows a hidden transactional batch. -/
theorem LogOp.effect_hidden {op : LogOp} (hop : op ≠ .commitTransaction producerId true)
    (htx : batch.transaction = some producerId) (hhide : batch.state ≠ .committed) :
    (op.effect batch).state ≠ .committed := by
  rcases op with _ | _ | _ | ⟨producerId', commit⟩
  · exact hhide
  · exact hhide
  · exact hhide
  · by_cases hsame : batch.transaction = some producerId'
    · obtain rfl : producerId' = producerId := Option.some.inj (hsame.symm.trans htx)
      rcases commit with _ | _
      · rw [LogOp.effect, resolve_of_eq false hsame]
        exact fun h => by cases h
      · exact absurd rfl hop
    · rw [LogOp.effect, resolve_of_ne commit hsame]
      exact hhide

theorem foldl_effect_hidden {ops : List LogOp} (hops : .commitTransaction producerId true ∉ ops)
    (htx : batch.transaction = some producerId) (hhide : batch.state ≠ .committed) :
    (ops.foldl (fun stored op => op.effect stored) batch).hiddenFrom true = true := by
  induction ops generalizing batch with
  | nil => simp [StoredBatch.hiddenFrom, htx, hhide]
  | cons op ops ih =>
      rw [List.mem_cons, not_or] at hops
      refine ih hops.2 ?_ (LogOp.effect_hidden (Ne.symm hops.1) htx hhide)
      rw [LogOp.effect_transaction, htx]

/-- **Hidden until the commit.** Whatever happens to the log but a commit of the producer, no
read-committed fetch returns a record of its hidden batch. -/
theorem PartitionLog.WellFormed.hides_until_commit (hlog : log.WellFormed)
    (hb : batch ∈ log.batches) (htx : batch.transaction = some producerId)
    (hhide : batch.state ≠ .committed) {later : List LogOp}
    (hlater : .commitTransaction producerId true ∉ later) {record : Record}
    (hr : record ∈ batch.records) : (log.run later).Hides record := by
  have hrun := PartitionLog.run_wellFormed hlog later
  intro offset maxRecords maxBytes window h hin
  obtain ⟨-, -, hrecords⟩ := PartitionLog.fetchWithIsolation_ok hrun h
  rw [hrecords] at hin
  obtain ⟨other, hother, hshow, hr', -⟩ := mem_visible.mp (mem_of_mem_takeWithin hin)
  -- the batch that returned it was stored before, so it is this one with the later effects
  have hlt : other.baseOffset < log.nextOffset := by
    have hbound := hlog.record_lt hb hr
    have hbase := (hrun.record_bounds hother hr').1
    omega
  obtain ⟨old, hold, rfl⟩ := mem_run_old hlog hother hlt
  rw [foldl_effect_records] at hr'
  obtain rfl : old = batch := hlog.eq_of_record hold hb hr' hr
  rw [foldl_effect_hidden hlater htx hhide] at hshow
  cases hshow

/-! ## Resolution is not final -/

/-- The batch at `baseOffset`, if it is still retained, has the outcome `commit`, and
read-committed readers see it accordingly. -/
structure PartitionLog.Settled (log : PartitionLog) (baseOffset : Int) (commit : Bool) :
    Prop where
  state : ∀ batch ∈ log.batches, batch.baseOffset = baseOffset → batch.state = outcome commit
  shows : commit = true → ∀ batch ∈ log.batches, batch.baseOffset = baseOffset →
    ∀ record ∈ batch.records, log.Shows record
  hides : commit = false → ∀ batch ∈ log.batches, batch.baseOffset = baseOffset →
    ∀ record ∈ batch.records, log.Hides record

/-- Along the run of `ops` from `log`, whatever batch a resolution moves out of `pending` has
that outcome in every later state of the run. -/
def ResolutionFinal (log : PartitionLog) (ops : List LogOp) : Prop :=
  ∀ before producerId commit later after,
    ops = before ++ .commitTransaction producerId commit :: (later ++ after) →
      ∀ batch ∈ (log.run before).batches, batch.transaction = some producerId →
        batch.state = .pending →
          (log.run (before ++ .commitTransaction producerId commit :: later)).Settled
            batch.baseOffset commit

/-- No resolution of the run meets a retained batch of its producer that already has the other
outcome. -/
def NoOppositeOutcome (log : PartitionLog) (ops : List LogOp) : Prop :=
  ∀ before producerId commit after,
    ops = before ++ .commitTransaction producerId commit :: after →
      ∀ batch ∈ (log.run before).batches, batch.transaction = some producerId →
        batch.state = .pending ∨ batch.state = outcome commit

/-- A transactional batch is settled once it has the outcome. -/
theorem PartitionLog.WellFormed.settled (hlog : log.WellFormed) {baseOffset : Int} {commit : Bool}
    (h : ∀ batch ∈ log.batches, batch.baseOffset = baseOffset →
      batch.transaction = some producerId ∧ batch.state = outcome commit) :
    log.Settled baseOffset commit := by
  refine ⟨fun batch hb hbase => (h batch hb hbase).2, ?_, ?_⟩
  · rintro rfl batch hb hbase record hr
    refine hlog.shows hb ?_ hr
    simp [StoredBatch.hiddenFrom, (h batch hb hbase).2, outcome]
  · rintro rfl batch hb hbase record hr
    refine hlog.hides hb ?_ hr
    simp [StoredBatch.hiddenFrom, h batch hb hbase, outcome]

/-- **Where an outcome comes from.** Along a run from an empty log, a transactional batch that is
no longer pending was pending at some earlier resolution of its producer. -/
theorem pending_at_resolution (partitionMaxBytes : Option ℕ) (ops : List LogOp)
    (hb : batch ∈ ((newLog partitionMaxBytes).run ops).batches)
    (htx : batch.transaction = some producerId) (hresolved : batch.state ≠ .pending) :
    ∃ before commit after,
      ops = before ++ .commitTransaction producerId commit :: after ∧
        ∃ old ∈ ((newLog partitionMaxBytes).run before).batches,
          old.baseOffset = batch.baseOffset ∧ old.transaction = some producerId ∧
            old.state = .pending := by
  induction ops using List.reverseRecOn generalizing batch with
  | nil =>
      have hnil : (newLog partitionMaxBytes).batches = [] := by
        cases partitionMaxBytes <;> rfl
      rw [PartitionLog.run_nil, hnil] at hb
      cases hb
  | append_singleton ops op ih =>
      rw [PartitionLog.run_append] at hb
      have hwf := PartitionLog.run_wellFormed (PartitionLog.wellFormed_newLog partitionMaxBytes) ops
      rcases LogOp.mem_apply hwf hb with ⟨old, hold, rfl⟩ | ⟨-, hnew⟩
      · rw [LogOp.effect_transaction] at htx
        by_cases hp : old.state = .pending
        · -- the last operation resolved it
          rcases op with _ | _ | _ | ⟨producerId', commit⟩
          · exact absurd hp hresolved
          · exact absurd hp hresolved
          · exact absurd hp hresolved
          · have heq : producerId' = producerId := by
              by_contra hne
              apply hresolved
              have : old.transaction ≠ some producerId' := by
                rw [htx]
                simpa using fun h => hne h.symm
              rw [LogOp.effect, resolve_of_ne commit this, hp]
            subst heq
            exact ⟨ops, commit, [], rfl, old, hold, by rw [LogOp.effect_baseOffset], htx, hp⟩
        · obtain ⟨before, commit, after, hops, first, hfirst, hbase, htx', hp'⟩ :=
            ih hold htx hp
          refine ⟨before, commit, after ++ [op], ?_, first, hfirst, ?_, htx', hp'⟩
          · rw [hops, List.append_assoc, List.cons_append]
          · rw [hbase, LogOp.effect_baseOffset]
      · exact absurd (hnew producerId htx).1 hresolved

/-- **One step keeps an outcome** if it is not a resolution of the same producer with the other
one. -/
theorem LogOp.apply_keeps_outcome (hlog : log.WellFormed) {op : LogOp} {baseOffset : Int}
    {commit : Bool} (hlt : baseOffset < log.nextOffset)
    (hop : ∀ commit', op = .commitTransaction producerId commit' →
      ∀ batch ∈ log.batches, batch.transaction = some producerId →
        batch.state = .pending ∨ batch.state = outcome commit')
    (h : ∀ batch ∈ log.batches, batch.baseOffset = baseOffset →
      batch.transaction = some producerId ∧ batch.state = outcome commit) :
    ∀ batch ∈ (op.apply log).batches, batch.baseOffset = baseOffset →
      batch.transaction = some producerId ∧ batch.state = outcome commit := by
  intro batch hb hbase
  rcases LogOp.mem_apply hlog hb with ⟨old, hold, rfl⟩ | ⟨hnew, -⟩
  · rw [LogOp.effect_baseOffset] at hbase
    obtain ⟨htx, hstate⟩ := h old hold hbase
    refine ⟨by rw [LogOp.effect_transaction, htx], ?_⟩
    rcases op with _ | _ | _ | ⟨producerId', commit'⟩
    · exact hstate
    · exact hstate
    · exact hstate
    · by_cases heq : producerId' = producerId
      · subst heq
        rcases hop commit' rfl old hold htx with hp | hsame
        · rw [hstate] at hp
          exact absurd hp (outcome_ne_pending commit)
        · rw [LogOp.effect, resolve_of_eq commit' htx, ← hstate, hsame]
      · have hne : old.transaction ≠ some producerId' := by
          rw [htx]
          simpa using fun h => heq h.symm
        rw [LogOp.effect, resolve_of_ne commit' hne, hstate]
  · omega

/-- **A whole run keeps an outcome**: the step lemma along the operations after a resolution. -/
theorem outcome_kept {partitionMaxBytes : Option ℕ} {before later after : List LogOp}
    {commit : Bool} (hno : NoOppositeOutcome (newLog partitionMaxBytes)
      (before ++ .commitTransaction producerId commit :: (later ++ after))) {resolved : StoredBatch}
    (hb : resolved ∈ ((newLog partitionMaxBytes).run before).batches)
    (htx : resolved.transaction = some producerId) :
    ∀ batch ∈ ((newLog partitionMaxBytes).run
        (before ++ .commitTransaction producerId commit :: later)).batches,
      batch.baseOffset = resolved.baseOffset →
        batch.transaction = some producerId ∧ batch.state = outcome commit := by
  have hwf := fun ops =>
    PartitionLog.run_wellFormed (PartitionLog.wellFormed_newLog partitionMaxBytes) ops
  have hlt : resolved.baseOffset < ((newLog partitionMaxBytes).run before).nextOffset :=
    (hwf before).baseOffset_lt hb
  induction later using List.reverseRecOn generalizing after with
  | nil =>
      intro batch hbatch hbase
      rw [PartitionLog.run_append] at hbatch
      obtain ⟨old, hold, rfl⟩ := List.mem_map.mp hbatch
      have heq : old = resolved := (hwf before).eq_of_baseOffset hold hb (by simpa using hbase)
      subst heq
      exact ⟨by simpa using htx, by rw [resolve_of_eq commit htx]⟩
  | append_singleton later op ih =>
      have hno' : NoOppositeOutcome (newLog partitionMaxBytes)
          (before ++ .commitTransaction producerId commit :: (later ++ (op :: after))) := by
        rw [List.append_cons later op after]
        exact hno
      have hsplit : before ++ LogOp.commitTransaction producerId commit :: (later ++ [op]) =
          (before ++ LogOp.commitTransaction producerId commit :: later) ++ [op] := by simp
      rw [hsplit, PartitionLog.run_append]
      refine LogOp.apply_keeps_outcome (hwf _) ?_ ?_ (ih hno')
      · exact lt_of_lt_of_le hlt (nextOffset_le_run (PartitionLog.wellFormed_newLog _) _ _)
      · rintro commit' rfl
        refine hno' _ producerId commit' after ?_
        simp

/-- **Resolution is final exactly without opposite outcomes.** Along every run from an empty log,
each batch a resolution moved out of `pending` keeps its outcome and its visibility as long as it
is retained, exactly when no resolution of the run meets a retained batch of its producer that
already has the other outcome. -/
theorem resolutionFinal_iff (partitionMaxBytes : Option ℕ) (ops : List LogOp) :
    ResolutionFinal (newLog partitionMaxBytes) ops ↔
      NoOppositeOutcome (newLog partitionMaxBytes) ops := by
  constructor
  · rintro hfinal before producerId commit after rfl batch hb htx
    by_contra hcon
    rw [not_or] at hcon
    obtain ⟨before', commit', mid, rfl, old, hold, hbase, htx', hpending⟩ :=
      pending_at_resolution partitionMaxBytes before hb htx hcon.1
    -- its first outcome, before the offending resolution and after it
    have hfirst : batch.state = outcome commit' :=
      (hfinal before' producerId commit' mid
        (.commitTransaction producerId commit :: after) (by simp) old hold htx' hpending).state
        batch hb hbase.symm
    have hsecond : (batch.resolve producerId commit).state = outcome commit' := by
      refine (hfinal before' producerId commit' (mid ++ [.commitTransaction producerId commit])
        after (by simp) old hold htx' hpending).state _ ?_ (by simpa using hbase.symm)
      rw [← List.cons_append, ← List.append_assoc, PartitionLog.run_append]
      exact List.mem_map_of_mem hb
    rw [resolve_of_eq commit htx] at hsecond
    exact hcon.2 (hfirst.trans hsecond.symm)
  · rintro hno before producerId commit later after rfl batch hb htx -
    refine PartitionLog.WellFormed.settled ?_ (outcome_kept hno hb htx)
    exact PartitionLog.run_wellFormed (PartitionLog.wellFormed_newLog partitionMaxBytes) _

/-- A transaction that commits, and a later one of the same producer that aborts. -/
def commitThenAbort : List LogOp :=
  [.appendTransactional [⟨1, none, some [107]⟩] 7, .commitTransaction 7 true,
    .appendTransactional [⟨2, none, some [108]⟩] 7, .commitTransaction 7 false]

/-- The second transaction's abort hides the batch the first one committed. -/
theorem not_resolutionFinal_commitThenAbort :
    ¬ ResolutionFinal PartitionLog.new commitThenAbort := by
  intro hfinal
  have h := (hfinal [.appendTransactional [⟨1, none, some [107]⟩] 7] 7 true
    [.appendTransactional [⟨2, none, some [108]⟩] 7, .commitTransaction 7 false] [] rfl
    ⟨0, [⟨0, 1, none, some [107]⟩], some 7, .pending⟩ (by decide) rfl rfl).state
    ⟨0, [⟨0, 1, none, some [107]⟩], some 7, .aborted⟩ (by decide) rfl
  revert h
  decide

/-! ## The last stable offset -/

/-- Every batch that may still commit starts above the offset. -/
def PartitionLog.belowPending (log : PartitionLog) (offset : Int) : Bool :=
  log.batches.all fun batch => batch.state != .pending || decide (offset < batch.baseOffset)

theorem PartitionLog.belowPending_iff {offset : Int} :
    log.belowPending offset = true ↔
      ∀ batch ∈ log.batches, batch.state = .pending → offset < batch.baseOffset := by
  unfold PartitionLog.belowPending
  rw [List.all_eq_true]
  refine forall₂_congr fun batch _ => ?_
  by_cases hp : batch.state = .pending <;> simp [hp]

/-- The last stable offset separates the offsets of the log that lie below every pending batch
from the others. -/
theorem PartitionLog.WellFormed.lt_lastStableOffset_iff (hlog : log.WellFormed) {offset : Int}
    (hlt : offset < log.nextOffset) :
    offset < log.lastStableOffset ↔ log.belowPending offset = true := by
  rw [PartitionLog.belowPending_iff]
  have hsome : ∀ batch ∈ log.batches, batch.state = .pending → batch.transaction.isSome := by
    intro batch hb hp
    rcases htx : batch.transaction with _ | producerId
    · have := (hlog.batches batch hb).plain htx
      rw [hp] at this
      cases this
    · rfl
  rcases hfind : log.batches.find? fun batch =>
      batch.transaction.isSome && batch.state == .pending with _ | first
  · have hlso : log.lastStableOffset = log.nextOffset := by
      rw [PartitionLog.lastStableOffset, hfind]
    rw [hlso]
    refine ⟨fun _ batch hb hp => ?_, fun _ => hlt⟩
    have := List.find?_eq_none.mp hfind batch hb
    simp [hsome batch hb hp, hp] at this
  · obtain ⟨hfirst, before, after, hsplit, hbefore⟩ := List.find?_eq_some_iff_append.mp hfind
    rw [Bool.and_eq_true, beq_iff_eq] at hfirst
    have hlso : log.lastStableOffset = first.baseOffset := by
      rw [PartitionLog.lastStableOffset, hfind]
    rw [hlso]
    refine ⟨fun hoff batch hb hp => ?_, fun hall => hall first (by simp [hsplit]) hfirst.2⟩
    have hsorted := contiguous_pairwise hlog.contiguous
    have hfirstlt := (hlog.batches first (by simp [hsplit])).lt_endOffset
    rw [hsplit] at hb hsorted
    -- the first pending batch starts lowest
    rcases List.mem_append.mp hb with hpre | hcons
    · have := hbefore batch hpre
      simp [hsome batch (by simp [hsplit, hpre]) hp, hp] at this
    · rcases List.mem_cons.mp hcons with rfl | hlater
      · exact hoff
      · have hle := (List.pairwise_cons.mp (List.pairwise_append.mp hsorted).2.1).1 batch hlater
        omega

/-- If a read-committed fetch succeeds, its window lies below the last stable offset, and a
consumer that goes on after any of its records has not moved past a pending batch. -/
def PartitionLog.StopsAtStable (log : PartitionLog) (offset : Int) (maxRecords maxBytes : ℕ) :
    Prop :=
  ∀ window, log.fetchWithIsolation offset maxRecords maxBytes true = .ok window →
    ∀ record ∈ window.records, record.offset < window.lastStableOffset ∧
      ∀ batch ∈ log.batches, batch.state = .pending → record.offset + 1 ≤ batch.baseOffset

/-- The visible records from `offset` on that lie below every pending batch. -/
def PartitionLog.stablePart (log : PartitionLog) (offset : Int) : List Record :=
  (log.visible true offset).filter fun record => log.belowPending record.offset

/-- The fetch cannot get to a visible record that lies beyond a pending batch: the offset cannot
be read at, there is no such record, or one of the budgets ends the window before the first. -/
def PartitionLog.EndsBeforePending (log : PartitionLog) (offset : Int)
    (maxRecords maxBytes : ℕ) : Prop :=
  ¬ log.InRange offset ∨
    (log.visible true offset).length ≤ (log.stablePart offset).length ∨
    maxRecords ≤ (log.stablePart offset).length ∨
    (log.stablePart offset).length ≠ 0 ∧
      maxBytes < (((log.visible true offset).take
        ((log.stablePart offset).length + 1)).map recordSize).sum

/-- **Where a read-committed window ends.** In every log reached by operations from an empty one,
a read-committed fetch stays below the last stable offset exactly when it cannot get to a visible
record beyond a pending batch. -/
theorem stopsAtStable_iff (partitionMaxBytes : Option ℕ) (ops : List LogOp) (offset : Int)
    (maxRecords maxBytes : ℕ) :
    ((newLog partitionMaxBytes).run ops).StopsAtStable offset maxRecords maxBytes ↔
      ((newLog partitionMaxBytes).run ops).EndsBeforePending offset maxRecords maxBytes := by
  set log := (newLog partitionMaxBytes).run ops with hlogdef
  have hlog : log.WellFormed := PartitionLog.run_wellFormed (PartitionLog.wellFormed_newLog _) ops
  by_cases hrange : log.InRange offset
  · have hfetch : log.fetchWithIsolation offset maxRecords maxBytes true =
        .ok ⟨log.nextOffset, log.lastStableOffset,
          takeWithin recordSize maxRecords maxBytes (log.visible true offset)⟩ := by
      unfold PartitionLog.fetchWithIsolation
      rw [PartitionLog.fetchInner_eq hlog, if_pos hrange]
    have hdown : (log.visible true offset).Pairwise fun a b =>
        log.belowPending b.offset = true → log.belowPending a.offset = true := by
      refine (visible_pairwise hlog true offset).imp fun {a b} hab hb => ?_
      rw [PartitionLog.belowPending_iff] at hb ⊢
      intro batch hbatch hp
      exact lt_trans hab (hb batch hbatch hp)
    have hiff : log.StopsAtStable offset maxRecords maxBytes ↔
        ∀ record ∈ takeWithin recordSize maxRecords maxBytes (log.visible true offset),
          log.belowPending record.offset = true := by
      unfold PartitionLog.StopsAtStable
      rw [hfetch]
      constructor
      · intro h record hr
        rw [PartitionLog.belowPending_iff]
        exact (h _ rfl record hr).2
      · rintro h window hw record hr
        cases hw
        obtain ⟨batch, hb, -, hrec, -⟩ := mem_visible.mp (mem_of_mem_takeWithin hr)
        have hlt := hlog.record_lt hb hrec
        have hbelow := h record hr
        exact ⟨(hlog.lt_lastStableOffset_iff hlt).mpr hbelow,
          PartitionLog.belowPending_iff.mp hbelow⟩
    rw [hiff, forall_mem_takeWithin_iff hdown]
    unfold PartitionLog.EndsBeforePending PartitionLog.stablePart
    rw [or_iff_right (not_not_intro hrange)]
  · refine ⟨fun _ => Or.inl hrange, fun _ window hw => ?_⟩
    exact absurd (PartitionLog.fetchWithIsolation_ok hlog hw).1 hrange

/-- A pending batch at offset 0 and a plain one after it. -/
def pendingThenPlain : List LogOp :=
  [.appendTransactional [⟨1, none, some [107]⟩] 7, .append [⟨2, none, some [108]⟩]]

/-- The fetch from offset 0 skips the pending batch and returns offset 1, past the last stable
offset 0. -/
theorem not_stopsAtStable_pendingThenPlain :
    ¬ (PartitionLog.new.run pendingThenPlain).StopsAtStable 0 10 4096 := by
  intro h
  have := (h ⟨2, 0, [⟨1, 2, none, some [108]⟩]⟩ (by decide) ⟨1, 2, none, some [108]⟩
    (by decide)).1
  revert this
  decide

end CharlotteBroker.Core
