import CharlotteBroker.Lib.Budget
import Mathlib.Algebra.Order.BigOperators.Group.List
import Mathlib.Algebra.Order.Group.Nat

/-!
# Suffixes under a size budget

`keepWithin size limit xs` drops elements from the front while more than one is left and the total
size exceeds the limit, as a bounded buffer does. It keeps the longest suffix that fits, or the last
element alone when that is too large by itself (`keepWithin_isKept`).

Dropping can be done as the list grows: `keepWithin_append` says that what an earlier pass dropped
would be dropped from the longer list as well.
-/

namespace CharlotteBroker.Lib

variable {α : Type*} {size : α → ℕ} {limit : ℕ}

/-- Drops from the front while more than one element is left and the total exceeds the limit. -/
def keepWithin (size : α → ℕ) (limit : ℕ) : List α → List α
  | x :: y :: rest =>
      if limit < ((x :: y :: rest).map size).sum then keepWithin size limit (y :: rest)
      else x :: y :: rest
  | xs => xs

/-- `kept` is the longest suffix of `xs` that fits, or the last element alone when even that is
over the limit. -/
def IsKept (size : α → ℕ) (limit : ℕ) (xs kept : List α) : Prop :=
  (∀ last, xs.getLast? = some last → size last ≤ limit) ∧
      IsLongest (fun ys => ys <:+ xs ∧ (ys.map size).sum ≤ limit) kept ∨
    ∃ last, xs.getLast? = some last ∧ limit < size last ∧ kept = [last]

theorem getLast?_keepWithin (xs : List α) :
    (keepWithin size limit xs).getLast? = xs.getLast? := by
  fun_induction keepWithin size limit xs with
  | case1 x y rest hover ih => rw [ih, List.getLast?_cons_cons]
  | case2 x y rest hfits => rfl
  | case3 xs hshort => rfl

/-- **Dropping early loses nothing.** What is dropped from a list is dropped from every longer
one. -/
theorem keepWithin_append (xs : List α) (last : α) :
    keepWithin size limit (keepWithin size limit xs ++ [last]) =
      keepWithin size limit (xs ++ [last]) := by
  fun_induction keepWithin size limit xs with
  | case1 x y rest hover ih =>
      rw [ih]
      have hlonger : limit < ((x :: y :: (rest ++ [last])).map size).sum := by
        simp only [List.map_cons, List.map_append, List.sum_cons, List.sum_append] at hover ⊢
        omega
      simp only [List.cons_append]
      rw [keepWithin.eq_1 size limit x y (rest ++ [last]), if_pos hlonger]
  | case2 x y rest hfits => rfl
  | case3 xs hshort => rfl

/-- Dropping reads nothing but the sizes. -/
theorem keepWithin_map {f : α → α} (hsize : ∀ x, size (f x) = size x) (xs : List α) :
    keepWithin size limit (xs.map f) = (keepWithin size limit xs).map f := by
  have hsum : ∀ ys : List α, ((ys.map f).map size).sum = (ys.map size).sum := by
    intro ys
    rw [List.map_map]
    exact congrArg List.sum (List.map_congr_left fun y _ => hsize y)
  fun_induction keepWithin size limit xs with
  | case1 x y rest hover ih =>
      rw [← hsum] at hover
      rw [← ih]
      simp only [List.map_cons] at hover ⊢
      rw [keepWithin.eq_1, if_pos (by simpa using hover)]
  | case2 x y rest hfits =>
      rw [← hsum] at hfits
      simp only [List.map_cons] at hfits ⊢
      rw [keepWithin.eq_1, if_neg (by simpa using hfits)]
  | case3 xs hshort =>
      rcases xs with _ | ⟨x, _ | ⟨y, rest⟩⟩
      · rfl
      · rfl
      · exact absurd rfl (hshort x y rest)

/-- **The budgeted suffix is the longest one that fits.** -/
theorem keepWithin_isKept (xs : List α) : IsKept size limit xs (keepWithin size limit xs) := by
  fun_induction keepWithin size limit xs with
  | case1 x y rest hover ih =>
      unfold IsKept at ih ⊢
      rw [List.getLast?_cons_cons]
      refine ih.imp_left ?_
      rintro ⟨hlast, ⟨hsuffix, hfits⟩, hlongest⟩
      refine ⟨hlast, ⟨hsuffix.trans (List.suffix_cons x _), hfits⟩, ?_⟩
      rintro other ⟨hother, hother_fits⟩
      -- the whole list does not fit, so a fitting suffix leaves out its head
      rcases List.suffix_cons_iff.mp hother with rfl | hinner
      · exact absurd hother_fits (Nat.not_le.mpr hover)
      · exact hlongest other ⟨hinner, hother_fits⟩
  | case2 x y rest hfits =>
      refine Or.inl ⟨fun last hlast => ?_, ⟨List.suffix_rfl, Nat.le_of_not_lt hfits⟩, ?_⟩
      · have hmem : size last ∈ (x :: y :: rest).map size :=
          List.mem_map_of_mem (List.mem_of_getLast? hlast)
        exact (List.single_le_sum (by simp) _ hmem).trans (Nat.le_of_not_lt hfits)
      · exact fun other hother => hother.1.length_le
  | case3 xs hshort =>
      rcases xs with _ | ⟨x, _ | ⟨y, rest⟩⟩
      · refine Or.inl ⟨by simp, ⟨List.suffix_rfl, by simp⟩, fun other hother => ?_⟩
        exact hother.1.length_le
      · by_cases hx : size x ≤ limit
        · refine Or.inl ⟨by simpa using hx, ⟨List.suffix_rfl, by simpa using hx⟩, ?_⟩
          exact fun other hother => hother.1.length_le
        · exact Or.inr ⟨x, rfl, Nat.lt_of_not_le hx, rfl⟩
      · exact absurd rfl (hshort x y rest)

end CharlotteBroker.Lib
