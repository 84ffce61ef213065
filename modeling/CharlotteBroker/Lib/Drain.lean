import Mathlib.Tactic.Common

/-!
# Taking items off a buffer

A consumer looks at the front of a buffer and takes an item off it, waits for more, or gives up
(`Attempt`). `drain` repeats this as long as it takes something.

* `Steady`: what was found in a buffer is found in any longer one. Then it does not matter how the
  buffer arrives: draining after each piece is draining the whole at once (`drain_append`).
* `drain_waits` and `drain_preserves` say what holds where the draining stops.
-/

namespace CharlotteBroker.Lib

variable {σ κ α : Type}

variable {buffer : List α} {s : σ}

/-- One look at the front of a buffer: the item is incomplete, cannot be accepted, or was taken. -/
inductive Attempt (σ κ α : Type)
  | wait
  | close (s : σ) (reason : κ)
  | take (s : σ) (rest : List α)

/-- Where draining a buffer stops. -/
inductive Drained (σ κ α : Type)
  | waiting (s : σ) (rest : List α)
  | closed (s : σ) (reason : κ)
  deriving DecidableEq

/-- At most `bound` items are taken. -/
def drainFrom (attempt : σ → List α → Attempt σ κ α) : ℕ → σ → List α → Drained σ κ α
  | 0, s, buffer => .waiting s buffer
  | bound + 1, s, buffer =>
      match attempt s buffer with
      | .wait => .waiting s buffer
      | .close s' reason => .closed s' reason
      | .take s' rest => drainFrom attempt bound s' rest

/-- Items are taken as long as there are any. An item has at least one element, so that the bound
is never reached. -/
def drain (attempt : σ → List α → Attempt σ κ α) (s : σ) (buffer : List α) : Drained σ κ α :=
  drainFrom attempt (buffer.length + 1) s buffer

/-- Draining goes on when more arrives. -/
def Drained.resume (attempt : σ → List α → Attempt σ κ α) (drained : Drained σ κ α)
    (more : List α) : Drained σ κ α :=
  match drained with
  | .waiting s rest => drain attempt s (rest ++ more)
  | .closed s reason => .closed s reason

/-- What holds where the draining waits, and what holds where it has closed. -/
def Drained.Meets (drained : Drained σ κ α) (waits : σ → List α → Prop) (closes : σ → κ → Prop) :
    Prop :=
  match drained with
  | .waiting s rest => waits s rest
  | .closed s reason => closes s reason

instance (drained : Drained σ κ α) (waits : σ → List α → Prop) (closes : σ → κ → Prop)
    [∀ s rest, Decidable (waits s rest)] [∀ s reason, Decidable (closes s reason)] :
    Decidable (drained.Meets waits closes) :=
  match drained with
  | .waiting s rest => inferInstanceAs (Decidable (waits s rest))
  | .closed s reason => inferInstanceAs (Decidable (closes s reason))

/-- Items have at least one element, and what is found at the front of a buffer is found there
whatever follows. -/
structure Steady (attempt : σ → List α → Attempt σ κ α) : Prop where
  shrinks : ∀ {s s' buffer rest}, attempt s buffer = .take s' rest → rest.length < buffer.length
  take_append : ∀ {s s' buffer rest}, attempt s buffer = .take s' rest → ∀ more,
    attempt s (buffer ++ more) = .take s' (rest ++ more)
  close_append : ∀ {s s' buffer reason}, attempt s buffer = .close s' reason → ∀ more,
    attempt s (buffer ++ more) = .close s' reason

variable {attempt : σ → List α → Attempt σ κ α}

/-- Any two bounds above the length give the same. -/
theorem Steady.drainFrom_congr (h : Steady attempt) {bound bound' : ℕ} (hlt : buffer.length < bound)
    (hlt' : buffer.length < bound') :
    drainFrom attempt bound s buffer = drainFrom attempt bound' s buffer := by
  induction bound generalizing bound' s buffer with
  | zero => omega
  | succ bound ih =>
      obtain ⟨bound', rfl⟩ : ∃ k, bound' = k + 1 := ⟨bound' - 1, by omega⟩
      unfold drainFrom
      rcases hattempt : attempt s buffer with _ | ⟨s', reason⟩ | ⟨s', rest⟩
      · rfl
      · rfl
      · have hshrinks := h.shrinks hattempt
        exact ih (by omega) (by omega)

theorem drain_of_wait (h : attempt s buffer = .wait) :
    drain attempt s buffer = .waiting s buffer := by
  unfold drain drainFrom
  rw [h]

theorem drain_of_close {s' : σ} {reason : κ} (h : attempt s buffer = .close s' reason) :
    drain attempt s buffer = .closed s' reason := by
  unfold drain drainFrom
  rw [h]

theorem Steady.drain_of_take (h : Steady attempt) {s' : σ} {rest : List α}
    (htake : attempt s buffer = .take s' rest) :
    drain attempt s buffer = drain attempt s' rest := by
  have hshrinks := h.shrinks htake
  have hone : drain attempt s buffer = drainFrom attempt buffer.length s' rest := by
    unfold drain
    rw [drainFrom, htake]
  rw [hone]
  exact h.drainFrom_congr hshrinks (Nat.lt_succ_self _)

/-- **Induction along a draining**, one case for each outcome of an attempt. -/
theorem Steady.drain_induction (h : Steady attempt) {motive : σ → List α → Prop}
    (wait : ∀ s buffer, attempt s buffer = .wait → motive s buffer)
    (close : ∀ s buffer s' reason, attempt s buffer = .close s' reason → motive s buffer)
    (take : ∀ s buffer s' rest, attempt s buffer = .take s' rest → motive s' rest →
      motive s buffer) (s : σ) (buffer : List α) : motive s buffer := by
  induction hlen : buffer.length using Nat.strongRecOn generalizing s buffer with
  | _ len ih =>
      rcases hattempt : attempt s buffer with _ | ⟨s', reason⟩ | ⟨s', rest⟩
      · exact wait s buffer hattempt
      · exact close s buffer s' reason hattempt
      · have hshrinks := h.shrinks hattempt
        exact take s buffer s' rest hattempt (ih rest.length (by omega) s' rest rfl)

/-- **Draining in two pieces** is draining at once. -/
theorem Steady.drain_append (h : Steady attempt) (s : σ) (buffer more : List α) :
    drain attempt s (buffer ++ more) = (drain attempt s buffer).resume attempt more := by
  induction s, buffer using h.drain_induction with
  | wait s buffer hwait =>
      rw [drain_of_wait hwait]
      rfl
  | close s buffer s' reason hclose =>
      rw [drain_of_close hclose, drain_of_close (h.close_append hclose more)]
      rfl
  | take s buffer s' rest htake ih =>
      rw [h.drain_of_take htake, h.drain_of_take (h.take_append htake more), ih]

/-- What is left is incomplete. -/
theorem Steady.drain_waits (h : Steady attempt) {s' : σ} {rest : List α}
    (hdrain : drain attempt s buffer = .waiting s' rest) : attempt s' rest = .wait := by
  induction s, buffer using h.drain_induction with
  | wait s buffer hwait =>
      rw [drain_of_wait hwait] at hdrain
      cases hdrain
      exact hwait
  | close s buffer s' reason hclose =>
      rw [drain_of_close hclose] at hdrain
      cases hdrain
  | take s buffer s' rest htake ih =>
      rw [h.drain_of_take htake] at hdrain
      exact ih hdrain

/-- **Invariants.** What every item taken keeps holds where the draining stops. -/
theorem Steady.drain_preserves (h : Steady attempt) {Inv : σ → List α → Prop} {End : σ → κ → Prop}
    (htake : ∀ s buffer s' rest, attempt s buffer = .take s' rest → Inv s buffer → Inv s' rest)
    (hclose : ∀ s buffer s' reason, attempt s buffer = .close s' reason → Inv s buffer →
      End s' reason) (hinv : Inv s buffer) :
    (drain attempt s buffer).Meets Inv End := by
  induction s, buffer using h.drain_induction with
  | wait s buffer hwait =>
      rw [drain_of_wait hwait]
      exact hinv
  | close s buffer s' reason hattempt =>
      rw [drain_of_close hattempt]
      exact hclose s buffer s' reason hattempt hinv
  | take s buffer s' rest hattempt ih =>
      rw [h.drain_of_take hattempt]
      exact ih (htake s buffer s' rest hattempt hinv)

end CharlotteBroker.Lib
