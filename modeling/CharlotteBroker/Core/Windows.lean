import CharlotteBroker.Core.LogFetch
import CharlotteBroker.Lib.Gapless

/-!
# Holes in a fetch window

The records of a window have increasing offsets, but not always consecutive ones: a read-committed
fetch leaves out the batches it hides and goes on after them. `consecutive_iff_unbroken` says when
the offsets of a window are consecutive: exactly when the fetch does not get past a hidden batch
after it has read something (`PartitionLog.Unbroken`).
-/

namespace CharlotteBroker.Core

open Lib

/-- The records a fetch with these arguments takes of a log. -/
def PartitionLog.taken (log : PartitionLog) (args : FetchArgs) : List Record :=
  takeWithin recordSize args.maxRecords args.maxBytes (log.visible args.readCommitted args.offset)

/-- No hidden batch lies between two records the fetch takes: nothing visible comes before the
batch, nothing visible comes after it, or one of the budgets ends the window first. -/
def PartitionLog.Unbroken (log : PartitionLog) (args : FetchArgs) : Prop :=
  ∀ batch ∈ log.batches, batch.hiddenFrom args.readCommitted = true →
    let visible := log.visible args.readCommitted args.offset
    let before := (visible.filter fun record => decide (record.offset < batch.baseOffset)).length
    before = 0 ∨ visible.length ≤ before ∨ args.maxRecords ≤ before ∨
      args.maxBytes < ((visible.take (before + 1)).map recordSize).sum

instance (log : PartitionLog) (args : FetchArgs) : Decidable (log.Unbroken args) :=
  inferInstanceAs (Decidable (∀ batch ∈ log.batches, _))

/-- Plain fetches hide nothing. -/
theorem PartitionLog.unbroken_of_plain {log : PartitionLog} {args : FetchArgs}
    (h : args.readCommitted = false) : log.Unbroken args := by
  intro batch _ hhidden
  simp [StoredBatch.hiddenFrom, h] at hhidden

section Taken

variable {log : PartitionLog} {args : FetchArgs} {first last : Record}

theorem PartitionLog.mem_taken {record : Record} (hr : record ∈ log.taken args) :
    ∃ batch ∈ log.batches, batch.hiddenFrom args.readCommitted = false ∧ record ∈ batch.records ∧
      args.offset ≤ record.offset :=
  mem_visible.mp (mem_of_mem_takeWithin hr)

theorem PartitionLog.WellFormed.taken_pairwise (hlog : log.WellFormed) :
    (log.taken args).Pairwise fun a b => a.offset < b.offset :=
  (visible_pairwise hlog args.readCommitted args.offset).sublist (takeWithin_prefix_of _).sublist

/-- A hidden batch shares no offset with a record the fetch takes. -/
theorem PartitionLog.WellFormed.not_mem_hidden (hlog : log.WellFormed) {batch : StoredBatch}
    (hb : batch ∈ log.batches) (hhidden : batch.hiddenFrom args.readCommitted = true)
    {record : Record} (hr : record ∈ log.taken args) :
    ¬ (batch.baseOffset ≤ record.offset ∧ record.offset < batch.endOffset) := by
  intro hin
  obtain ⟨other, hother, hshown, hmem, -⟩ := mem_taken hr
  have heq := hlog.eq_of_overlap hb hother hin (hlog.record_bounds hother hmem)
  rw [← heq, hhidden] at hshown
  exact absurd hshown (by decide)

/-- The fetch stops before a hidden batch when nothing visible comes after it or a budget ends the
window first. -/
theorem PartitionLog.WellFormed.forall_taken_lt_iff (hlog : log.WellFormed) (bound : Int) :
    let visible := log.visible args.readCommitted args.offset
    let before := (visible.filter fun record => decide (record.offset < bound)).length
    (∀ record ∈ log.taken args, record.offset < bound) ↔
      visible.length ≤ before ∨ args.maxRecords ≤ before ∨
        before ≠ 0 ∧ args.maxBytes < ((visible.take (before + 1)).map recordSize).sum := by
  intro visible before
  have hdown : visible.Pairwise fun a b =>
      decide (b.offset < bound) = true → decide (a.offset < bound) = true := by
    refine (visible_pairwise hlog _ _).imp fun {a b} hab hb => ?_
    rw [decide_eq_true_eq] at hb ⊢
    exact hab.trans hb
  have hiff := @forall_mem_takeWithin_iff _ recordSize args.maxRecords args.maxBytes _ _ hdown
  simp only [decide_eq_true_eq] at hiff
  exact hiff

/-- Something visible comes before the batch exactly when the first record taken does. -/
theorem PartitionLog.WellFormed.before_ne_zero_iff (hlog : log.WellFormed)
    (hfirst : (log.taken args).head? = some first) (bound : Int) :
    ((log.visible args.readCommitted args.offset).filter fun record =>
      decide (record.offset < bound)).length ≠ 0 ↔ first.offset < bound := by
  obtain ⟨rest, htaken⟩ := List.head?_eq_some_iff.mp hfirst
  obtain ⟨others, hvisible⟩ : log.taken args <+: log.visible args.readCommitted args.offset :=
    takeWithin_prefix_of _
  have hsorted := visible_pairwise hlog args.readCommitted args.offset
  rw [← hvisible, htaken, List.cons_append] at hsorted ⊢
  rw [ne_eq, List.length_eq_zero_iff, List.filter_eq_nil_iff]
  simp only [decide_eq_true_eq, not_forall, not_not]
  constructor
  · rintro ⟨record, hr, hlt⟩
    rcases List.mem_cons.mp hr with rfl | hlater
    · exact hlt
    · exact ((List.pairwise_cons.mp hsorted).1 record hlater).trans hlt
  · exact fun hlt => ⟨first, List.mem_cons_self, hlt⟩

/-- A visible record that does not come after the last record taken is taken. -/
theorem PartitionLog.WellFormed.mem_taken_of_le (hlog : log.WellFormed)
    (hlast : (log.taken args).getLast? = some last) {record : Record}
    (hr : record ∈ log.visible args.readCommitted args.offset) (hle : record.offset ≤ last.offset) :
    record ∈ log.taken args := by
  obtain ⟨others, hvisible⟩ : log.taken args <+: log.visible args.readCommitted args.offset :=
    takeWithin_prefix_of _
  have hsorted := visible_pairwise hlog args.readCommitted args.offset
  rw [← hvisible] at hr hsorted
  rcases List.mem_append.mp hr with htaken | hother
  · exact htaken
  · have hlt := (List.pairwise_append.mp hsorted).2.2 last
      (List.mem_of_getLast? hlast) record hother
    omega

/-- **When a window has no holes.** The records taken have consecutive offsets exactly when the
fetch does not get past a hidden batch after it has read something. -/
theorem PartitionLog.WellFormed.consecutive_iff_unbroken (hlog : log.WellFormed)
    (hfirst : (log.taken args).head? = some first)
    (hlast : (log.taken args).getLast? = some last) :
    first.offset + ((log.taken args).length - 1 : ℤ) = last.offset ↔ log.Unbroken args := by
  have hsorted : ((log.taken args).map Record.offset).Pairwise (· < ·) :=
    List.pairwise_map.mpr hlog.taken_pairwise
  have hgapless := length_eq_iff_gapless hsorted
    (by rw [List.head?_map, hfirst]; rfl) (by rw [List.getLast?_map, hlast]; rfl)
  have hmemlast := List.mem_of_getLast? hlast
  have hmemfirst := List.mem_of_head? hfirst
  rw [List.length_map] at hgapless
  rw [hgapless]
  constructor
  · intro hall batch hb hhidden visible before
    by_cases hbefore : before = 0
    · exact Or.inl hbefore
    · -- a record taken beyond the batch would put the batch's base among the offsets taken
      have hfirstlt := (hlog.before_ne_zero_iff hfirst batch.baseOffset).mp hbefore
      have hbelow : ∀ record ∈ log.taken args, record.offset < batch.baseOffset := by
        intro record hr
        by_contra hge
        have hle := le_getLast_of_pairwise hsorted (by rw [List.getLast?_map, hlast]; rfl)
          (List.mem_map_of_mem hr)
        obtain ⟨hole, hhole, heq⟩ := List.mem_map.mp
          (hall batch.baseOffset (le_of_lt hfirstlt) ((Int.not_lt.mp hge).trans hle))
        have hlt := (hlog.batches batch hb).lt_endOffset
        exact hlog.not_mem_hidden hb hhidden hhole ⟨heq.ge, by omega⟩
      rcases (hlog.forall_taken_lt_iff batch.baseOffset).mp hbelow with h | h | h
      · exact Or.inr (Or.inl h)
      · exact Or.inr (Or.inr (Or.inl h))
      · exact Or.inr (Or.inr (Or.inr h.2))
  · intro hunbroken m hm hm'
    obtain ⟨home, hhome, -, hin, -⟩ := mem_taken hmemfirst
    obtain ⟨end', hend, -, hin', -⟩ := mem_taken hmemlast
    have hlow := (hlog.inRange hhome hin).1
    have hhigh := hlog.record_lt hend hin'
    obtain ⟨batch, hb, record, hr, rfl⟩ := hlog.exists_record (hlow.trans hm) (hm'.trans_lt hhigh)
    have hbounds := hlog.record_bounds hb hr
    rcases hhidden : batch.hiddenFrom args.readCommitted with _ | _
    · refine List.mem_map_of_mem (hlog.mem_taken_of_le hlast (mem_visible.mpr ?_) hm')
      obtain ⟨-, -, -, -, hoffset⟩ := mem_taken hmemfirst
      exact ⟨batch, hb, hhidden, hr, hoffset.trans hm⟩
    · -- the first record lies before the hidden batch, so the window ends before it
      have hfirstlt : first.offset < batch.baseOffset := by
        by_contra hge
        exact hlog.not_mem_hidden hb hhidden hmemfirst
          ⟨Int.not_lt.mp hge, hm.trans_lt hbounds.2⟩
      have hbefore := (hlog.before_ne_zero_iff hfirst batch.baseOffset).mpr hfirstlt
      have hbelow := (@forall_taken_lt_iff log args hlog batch.baseOffset).mpr (by
        rcases hunbroken batch hb hhidden with h | h | h | h
        · exact absurd h hbefore
        · exact Or.inl h
        · exact Or.inr (Or.inl h)
        · exact Or.inr (Or.inr ⟨hbefore, h⟩))
      have hlt := hbelow last hmemlast
      omega

end Taken

end CharlotteBroker.Core
