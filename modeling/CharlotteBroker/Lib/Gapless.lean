import Mathlib.Data.Int.Interval

/-!
# Increasing lists without gaps

A strictly increasing list of integers that starts at `a` and ends at `b` has at most `b - a + 1`
elements, and exactly that many when it leaves out nothing in between (`length_eq_iff_gapless`).
-/

namespace CharlotteBroker.Lib

variable {xs : List ℤ} {a b : ℤ}

theorem head_le_of_pairwise (hsorted : xs.Pairwise (· < ·)) (ha : xs.head? = some a) {x : ℤ}
    (hx : x ∈ xs) : a ≤ x := by
  obtain ⟨rest, rfl⟩ := List.head?_eq_some_iff.mp ha
  rcases List.mem_cons.mp hx with rfl | hrest
  · exact le_rfl
  · exact le_of_lt ((List.pairwise_cons.mp hsorted).1 x hrest)

theorem le_getLast_of_pairwise (hsorted : xs.Pairwise (· < ·)) (hb : xs.getLast? = some b) {x : ℤ}
    (hx : x ∈ xs) : x ≤ b := by
  obtain ⟨initial, rfl⟩ := List.getLast?_eq_some_iff.mp hb
  rcases List.mem_append.mp hx with hinitial | hlast
  · exact le_of_lt ((List.pairwise_append.mp hsorted).2.2 x hinitial b (List.mem_singleton_self b))
  · exact le_of_eq (List.mem_singleton.mp hlast)

/-- **No gaps.** The list has as many elements as the interval from its first to its last exactly
when it contains the whole interval. -/
theorem length_eq_iff_gapless (hsorted : xs.Pairwise (· < ·)) (ha : xs.head? = some a)
    (hb : xs.getLast? = some b) :
    a + (xs.length - 1 : ℤ) = b ↔ ∀ m, a ≤ m → m ≤ b → m ∈ xs := by
  have hcard : xs.toFinset.card = xs.length :=
    List.toFinset_card_of_nodup (hsorted.imp fun hlt => ne_of_lt hlt)
  have hsub : xs.toFinset ⊆ Finset.Icc a b := by
    intro x hx
    rw [List.mem_toFinset] at hx
    exact Finset.mem_Icc.mpr
      ⟨head_le_of_pairwise hsorted ha hx, le_getLast_of_pairwise hsorted hb hx⟩
  have hle : a ≤ b := le_getLast_of_pairwise hsorted hb (List.mem_of_head? ha)
  constructor
  · intro heq m hm hm'
    have hall : xs.toFinset = Finset.Icc a b := by
      apply Finset.eq_of_subset_of_card_le hsub
      rw [hcard, Int.card_Icc]
      omega
    rw [← List.mem_toFinset, hall]
    exact Finset.mem_Icc.mpr ⟨hm, hm'⟩
  · intro hall
    have hsup : Finset.Icc a b ⊆ xs.toFinset := by
      intro m hm
      obtain ⟨hm, hm'⟩ := Finset.mem_Icc.mp hm
      exact List.mem_toFinset.mpr (hall m hm hm')
    have hless := Finset.card_le_card hsub
    have hmore := Finset.card_le_card hsup
    rw [hcard, Int.card_Icc] at hless hmore
    omega

end CharlotteBroker.Lib
