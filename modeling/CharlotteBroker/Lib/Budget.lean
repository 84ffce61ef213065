import Mathlib.Tactic.Common
import Mathlib.Algebra.BigOperators.Group.List.Basic
import Mathlib.Algebra.Order.Ring.Int
import Mathlib.Data.List.Basic

/-!
# Prefixes under a count and a size budget

`takeWithin size maxCount maxSize xs` reads a prefix of `xs` of at most `maxCount` elements whose
sizes sum to at most `maxSize`; the first element is admitted whatever its size, so that a reader
always makes progress. It is a `take` (`takeWithin_eq_take`): `lt_length_takeWithin_iff` says
exactly which positions it contains, and `takeWithin_longest` that no longer prefix is within the
budgets.

`forall_mem_takeWithin_iff` answers the question a reader asks of such a prefix: when does
everything in it satisfy a test that holds on a prefix of the whole list?
-/

namespace CharlotteBroker.Lib

variable {α : Type*}

/-- The reading loop, with `taken` elements of total size `used` already read. -/
def takeWithinFrom (size : α → ℕ) (maxCount maxSize : ℕ) : ℕ → ℕ → List α → List α
  | _, _, [] => []
  | taken, used, x :: xs =>
      if taken = maxCount then []
      else if taken ≠ 0 ∧ maxSize < used + size x then []
      else x :: takeWithinFrom size maxCount maxSize (taken + 1) (used + size x) xs

/-- The longest prefix within both budgets, the first element always admitted. -/
def takeWithin (size : α → ℕ) (maxCount maxSize : ℕ) (xs : List α) : List α :=
  takeWithinFrom size maxCount maxSize 0 0 xs

variable {size : α → ℕ} {maxCount maxSize : ℕ}

/-- The loop returns a prefix of what is left. -/
theorem takeWithinFrom_eq_take (taken used : ℕ) (xs : List α) :
    takeWithinFrom size maxCount maxSize taken used xs =
      xs.take (takeWithinFrom size maxCount maxSize taken used xs).length := by
  induction xs generalizing taken used with
  | nil => simp [takeWithinFrom]
  | cons x xs ih =>
      unfold takeWithinFrom
      split_ifs
      · simp
      · simp
      · rw [List.length_cons, List.take_succ_cons, ← ih]

theorem takeWithin_eq_take (xs : List α) :
    takeWithin size maxCount maxSize xs =
      xs.take (takeWithin size maxCount maxSize xs).length :=
  takeWithinFrom_eq_take 0 0 xs

theorem takeWithin_prefix_of (xs : List α) : takeWithin size maxCount maxSize xs <+: xs := by
  rw [takeWithin_eq_take]
  exact List.take_prefix _ _

theorem mem_of_mem_takeWithin {xs : List α} {x : α}
    (hx : x ∈ takeWithin size maxCount maxSize xs) : x ∈ xs :=
  (takeWithin_prefix_of xs).subset hx

/-- The loop reads past `k` more elements exactly when both budgets admit the `k + 1`-st, and
admitted every one before it. -/
theorem lt_length_takeWithinFrom_iff (taken used k : ℕ) (xs : List α) (hle : taken ≤ maxCount)
    (hused : taken = 0 → used = 0) :
    k < (takeWithinFrom size maxCount maxSize taken used xs).length ↔
      k < xs.length ∧ taken + k < maxCount ∧
        (taken + k = 0 ∨ used + ((xs.take (k + 1)).map size).sum ≤ maxSize) := by
  induction xs generalizing taken used k with
  | nil => simp [takeWithinFrom]
  | cons x xs ih =>
      unfold takeWithinFrom
      by_cases htaken : taken = maxCount
      · rw [if_pos htaken]
        simp only [List.length_nil, Nat.not_lt_zero, false_iff]
        rintro ⟨-, h, -⟩
        omega
      · rw [if_neg htaken]
        by_cases hbig : taken ≠ 0 ∧ maxSize < used + size x
        · rw [if_pos hbig]
          simp only [List.length_nil, Nat.not_lt_zero, false_iff]
          rintro ⟨-, -, h⟩
          simp only [List.take_succ_cons, List.map_cons, List.sum_cons] at h
          omega
        · rw [if_neg hbig]
          rcases k with _ | k
          · simp only [List.length_cons, Nat.zero_lt_succ, true_iff]
            refine ⟨trivial, by omega, ?_⟩
            simp only [List.take_succ_cons, List.take_zero, List.map_cons, List.map_nil,
              List.sum_cons, List.sum_nil]
            omega
          · rw [List.length_cons, Nat.succ_lt_succ_iff,
              ih (taken + 1) (used + size x) k (by omega) (by omega)]
            simp only [List.length_cons, List.take_succ_cons, List.map_cons, List.sum_cons]
            constructor
            · rintro ⟨h1, h2, h3⟩
              exact ⟨by omega, by omega, by omega⟩
            · rintro ⟨h1, h2, h3⟩
              exact ⟨by omega, by omega, by omega⟩

/-- **The budgets, position by position.** The prefix contains position `k` exactly when `k` is a
position of the list, the count budget reaches it, and it is the first or the sizes up to and
including it fit. -/
theorem lt_length_takeWithin_iff (k : ℕ) (xs : List α) :
    k < (takeWithin size maxCount maxSize xs).length ↔
      k < xs.length ∧ k < maxCount ∧ (k = 0 ∨ ((xs.take (k + 1)).map size).sum ≤ maxSize) := by
  rw [takeWithin, lt_length_takeWithinFrom_iff 0 0 k xs (Nat.zero_le _) (fun _ => rfl)]
  simp only [Nat.zero_add]

/-- The first element is read whenever the count budget is positive. -/
theorem head?_takeWithin {xs : List α} (h : 0 < maxCount) :
    (takeWithin size maxCount maxSize xs).head? = xs.head? := by
  rcases xs with _ | ⟨x, xs⟩
  · rfl
  · unfold takeWithin takeWithinFrom
    rw [if_neg (by omega), if_neg (by simp)]
    rfl

theorem sum_takeWithinFrom_le (taken used : ℕ) (xs : List α) (hused : used ≤ maxSize)
    (hfirst : taken = 0 → ∀ x, xs.head? = some x → used + size x ≤ maxSize) :
    used + ((takeWithinFrom size maxCount maxSize taken used xs).map size).sum ≤ maxSize := by
  induction xs generalizing taken used with
  | nil => simpa [takeWithinFrom] using hused
  | cons x xs ih =>
      unfold takeWithinFrom
      split_ifs with hcount hover
      · simpa using hused
      · simpa using hused
      · have hfits : used + size x ≤ maxSize := by
          by_cases hzero : taken = 0
          · exact hfirst hzero x rfl
          · exact Nat.le_of_not_lt fun h => hover ⟨hzero, h⟩
        have hrest := ih (taken + 1) (used + size x) hfits fun h => absurd h (Nat.succ_ne_zero _)
        rw [List.map_cons, List.sum_cons]
        omega

/-- Only the first element can take the prefix over the size budget. -/
theorem sum_takeWithin_le {xs : List α} (h : ∀ x, xs.head? = some x → size x ≤ maxSize) :
    ((takeWithin size maxCount maxSize xs).map size).sum ≤ maxSize := by
  have hsum := @sum_takeWithinFrom_le _ size maxCount maxSize 0 0 xs (Nat.zero_le maxSize)
    fun _ x hx => by simpa using h x hx
  simpa [takeWithin] using hsum

theorem length_takeWithin_le (size : α → ℕ) (maxCount maxSize : ℕ) (xs : List α) :
    (takeWithin size maxCount maxSize xs).length ≤ maxCount := by
  by_contra hlt
  rw [Nat.not_le, lt_length_takeWithin_iff] at hlt
  exact absurd hlt.2.1 (Nat.lt_irrefl _)

/-! ## The longest prefix -/

/-- `chosen` is a longest list with the property. -/
structure IsLongest (p : List α → Prop) (chosen : List α) : Prop where
  holds : p chosen
  longest : ∀ other, p other → other.length ≤ chosen.length

/-- Both budgets admit the list; a single element is admitted whatever its size. -/
def Admitted (size : α → ℕ) (maxCount maxSize : ℕ) (xs : List α) : Prop :=
  xs.length ≤ maxCount ∧ (xs.length ≤ 1 ∨ (xs.map size).sum ≤ maxSize)

/-- A prefix is admitted exactly when the loop reads at least that far. -/
theorem admitted_take_iff {xs : List α} {k : ℕ} (hk : k ≤ xs.length) :
    Admitted size maxCount maxSize (xs.take k) ↔
      k ≤ (takeWithin size maxCount maxSize xs).length := by
  rcases k with _ | k
  · simp [Admitted]
  · rw [Nat.succ_le_iff, lt_length_takeWithin_iff]
    unfold Admitted
    rw [List.length_take, Nat.min_eq_left hk]
    omega

/-- **The loop reads the longest admitted prefix.** -/
theorem takeWithin_longest (xs : List α) :
    IsLongest (fun ys => ys <+: xs ∧ Admitted size maxCount maxSize ys)
      (takeWithin size maxCount maxSize xs) := by
  have hpre := @takeWithin_prefix_of _ size maxCount maxSize xs
  refine ⟨⟨hpre, ?_⟩, ?_⟩
  · have hread := @admitted_take_iff _ size maxCount maxSize xs _ hpre.length_le
    rw [← takeWithin_eq_take] at hread
    exact hread.mpr (Nat.le_refl _)
  · rintro other ⟨hother, hadmitted⟩
    rw [List.prefix_iff_eq_take.mp hother, admitted_take_iff hother.length_le] at hadmitted
    exact hadmitted

/-! ## Tests that hold on a prefix -/

/-- A test that, once false, stays false along the list holds of exactly as many leading positions
as elements pass it. -/
theorem getElem_iff_lt_length_filter {p : α → Bool} {xs : List α}
    (h : xs.Pairwise fun a b => p b = true → p a = true) {i : ℕ} (hi : i < xs.length) :
    p xs[i] = true ↔ i < (xs.filter p).length := by
  induction xs generalizing i with
  | nil => exact absurd hi (Nat.not_lt_zero _)
  | cons x xs ih =>
      obtain ⟨hx, hxs⟩ := List.pairwise_cons.mp h
      by_cases hp : p x = true
      · rw [List.filter_cons_of_pos hp, List.length_cons]
        rcases i with _ | i
        · simp [hp]
        · rw [List.getElem_cons_succ, ih hxs (Nat.lt_of_succ_lt_succ hi), Nat.succ_lt_succ_iff]
      · have hnone : xs.filter p = [] :=
          List.filter_eq_nil_iff.mpr fun y hy hpy => hp (hx y hy hpy)
        rw [List.filter_cons_of_neg hp, hnone]
        rcases i with _ | i
        · simp [hp]
        · simp only [List.getElem_cons_succ, List.length_nil, Nat.not_lt_zero, iff_false]
          intro hpi
          exact hp (hx _ (List.getElem_mem _) hpi)

/-- Everything read within the budgets passes the test exactly when there is nothing else in the
list, or the budgets run out before the first element that fails it. -/
theorem forall_mem_takeWithin_iff {p : α → Bool} {xs : List α}
    (h : xs.Pairwise fun a b => p b = true → p a = true) :
    (∀ x ∈ takeWithin size maxCount maxSize xs, p x = true) ↔
      xs.length ≤ (xs.filter p).length ∨ maxCount ≤ (xs.filter p).length ∨
        (xs.filter p).length ≠ 0 ∧
          maxSize < ((xs.take ((xs.filter p).length + 1)).map size).sum := by
  set k := (xs.filter p).length with hk
  have hread := @lt_length_takeWithin_iff _ size maxCount maxSize k xs
  constructor
  · intro hall
    by_contra hcon
    have hlt : k < (takeWithin size maxCount maxSize xs).length := by
      rw [hread]
      omega
    have hlen : k < xs.length := (hread.mp hlt).1
    have hget : (takeWithin size maxCount maxSize xs)[k] = xs[k] :=
      (takeWithin_prefix_of xs).getElem hlt
    have hpk : p xs[k] = true := by
      rw [← hget]
      exact hall _ (List.getElem_mem hlt)
    exact absurd ((getElem_iff_lt_length_filter h hlen).mp hpk) (Nat.lt_irrefl _)
  · intro hstop x hx
    obtain ⟨i, hi, rfl⟩ := List.mem_iff_getElem.mp hx
    have hik : i < k := by
      by_contra hge
      have hlt : k < (takeWithin size maxCount maxSize xs).length := by omega
      have := hread.mp hlt
      omega
    have hlen : i < xs.length := ((lt_length_takeWithin_iff i xs).mp hi).1
    have hget : (takeWithin size maxCount maxSize xs)[i] = xs[i] :=
      (takeWithin_prefix_of xs).getElem hi
    rw [hget]
    exact (getElem_iff_lt_length_filter h hlen).mpr hik

end CharlotteBroker.Lib
