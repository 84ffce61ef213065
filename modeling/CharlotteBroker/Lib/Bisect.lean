import Mathlib.Tactic.Common
import Mathlib.Data.Nat.Basic

/-!
# Binary search for the last position that satisfies a monotone test

`bisect p fuel low high` is the half-open binary search: it keeps `[low, high)`, tests the
midpoint and keeps the half that still contains the border between the positions that satisfy
`p` and those that do not. For a test that never turns true again once it is false
(`DownClosed p`) the result is that border: everything below it satisfies `p`
(`lt_bisect`), nothing at or above it does (`bisect_spec`).

Nothing here names what is searched; the caller chooses `p`.
-/

namespace CharlotteBroker.Lib

/-- The loop of a half-open binary search over `[low, high)`. Each round either stops or shrinks
the interval, so `fuel = high - low` is always enough (`bisect_spec`). -/
def bisect (p : ℕ → Bool) : ℕ → ℕ → ℕ → ℕ
  | 0, low, _ => low
  | fuel + 1, low, high =>
      if low < high then
        let middle := low + (high - low) / 2
        if p middle then bisect p fuel (middle + 1) high else bisect p fuel low middle
      else low

/-- The test holds on a prefix of the positions below `n`. -/
def DownClosed (p : ℕ → Bool) (n : ℕ) : Prop :=
  ∀ i j, i ≤ j → j < n → p j = true → p i = true

/-- **The search finds the border.** With enough fuel, and when everything below `low` passes the
test and nothing from `high` up to `n` does, the result splits `[0, n)` into what passes and
what does not. -/
theorem bisect_spec (p : ℕ → Bool) (n : ℕ) (hp : DownClosed p n) :
    ∀ (fuel low high : ℕ), high - low ≤ fuel → low ≤ high → high ≤ n →
      (∀ i, i < low → p i = true) → (∀ i, high ≤ i → i < n → p i = false) →
      (∀ i, i < bisect p fuel low high → p i = true) ∧
        (∀ i, bisect p fuel low high ≤ i → i < n → p i = false) ∧ bisect p fuel low high ≤ n := by
  intro fuel
  induction fuel with
  | zero =>
      intro low high hfuel hle hn hlo hhi
      have heq : high = low := by omega
      subst heq
      exact ⟨hlo, hhi, hn⟩
  | succ fuel ih =>
      intro low high hfuel hle hn hlo hhi
      unfold bisect
      by_cases hlt : low < high
      · rw [if_pos hlt]
        set middle := low + (high - low) / 2 with hmid
        have hm : middle < high := by omega
        have hlm : low ≤ middle := by omega
        by_cases hpm : p middle = true
        · simp only [hpm, if_true]
          apply ih (middle + 1) high (by omega) (by omega) hn _ hhi
          intro i hi
          exact hp i middle (by omega) (by omega) hpm
        · simp only [hpm]
          apply ih low middle (by omega) hlm (by omega) hlo
          intro i hi hin
          by_contra hne
          exact hpm (hp middle i hi hin (by simpa using hne))
      · rw [if_neg hlt]
        have heq : high = low := by omega
        subst heq
        exact ⟨hlo, hhi, hn⟩

variable {p : ℕ → Bool} {n : ℕ}

/-- Everything below the border passes the test. -/
theorem lt_bisect (hp : DownClosed p n) {i : ℕ} (hi : i < bisect p n 0 n) : p i = true :=
  (bisect_spec p n hp n 0 n (by omega) (by omega) le_rfl (by intro i hi; omega)
    (by intro i h1 h2; omega)).1 i hi

end CharlotteBroker.Lib
