import Mathlib.Data.List.Flatten
import Mathlib.Data.List.Nodup
import Mathlib.Data.Int.CardIntervalMod

/-!
# Dealing items out

Items are dealt one after another; `pick` names the hand an item goes to, or none.

* `getElem?_deal`: a hand ends up with the items picked for it, in their order.
* `hand pick items j` are those items when the pick also sees an item's position. Distinct items end
  up in at most one hand each (`nodup_flatMap_hand`).
* In a round robin the item at position `i` goes to seat `i` modulo the number of seats (`seatAt`).
  Over any run of positions two seats get the same number of items, up to one
  (`countP_seatAt_le`).
-/

namespace CharlotteBroker.Lib

variable {α β : Type}

/-! ## Hands -/

/-- Deals the items one after another. -/
def deal (pick : α → Option ℕ) (push : β → α → β) (items : List α) (hands : List β) : List β :=
  items.foldl
    (fun hands item =>
      match pick item with
      | some i => hands.modify i fun hand => push hand item
      | none => hands)
    hands

/-- **Each hand gets the items picked for it**, in their order. -/
theorem getElem?_deal (pick : α → Option ℕ) (push : β → α → β) (items : List α) (hands : List β)
    (j : ℕ) :
    (deal pick push items hands)[j]? =
      hands[j]?.map fun hand => (items.filter fun item => pick item = some j).foldl push hand := by
  induction items generalizing hands with
  | nil => simp [deal]
  | cons item items ih =>
      have hstep : deal pick push (item :: items) hands =
          deal pick push items
            (match pick item with
              | some i => hands.modify i fun hand => push hand item
              | none => hands) := rfl
      rw [hstep, ih]
      rcases hpick : pick item with _ | i
      · simp [hpick]
      · rw [List.getElem?_modify, List.filter_cons]
        by_cases hij : i = j
        · subst hij
          simp [hpick, Function.comp_def]
        · simp [hpick, hij]

/-- The items picked for hand `j`, where the pick sees the position of an item as well. -/
def hand (pick : α × ℕ → Option ℕ) (items : List α) (j : ℕ) : List α :=
  (items.zipIdx.filter fun entry => pick entry = some j).map Prod.fst

section Hand

variable {pick : α × ℕ → Option ℕ} {items : List α}

theorem mem_hand {j : ℕ} {a : α} :
    a ∈ hand pick items j ↔ ∃ i, items[i]? = some a ∧ pick (a, i) = some j := by
  unfold hand
  simp only [List.mem_map, List.mem_filter, List.mem_zipIdx_iff_getElem?, decide_eq_true_eq,
    Prod.exists]
  constructor
  · rintro ⟨_, i, ⟨hget, hpick⟩, rfl⟩
    exact ⟨i, hget, hpick⟩
  · rintro ⟨i, hget, hpick⟩
    exact ⟨a, i, ⟨hget, hpick⟩, rfl⟩

theorem hand_sublist (pick : α × ℕ → Option ℕ) (items : List α) (j : ℕ) :
    (hand pick items j).Sublist items := by
  have hsublist := (List.filter_sublist (p := fun entry => pick entry = some j)
    (l := items.zipIdx)).map Prod.fst
  rwa [List.zipIdx_map_fst] at hsublist

/-- Distinct items are dealt to at most one hand each. -/
theorem nodup_flatMap_hand (h : items.Nodup) {seats : List ℕ} (hseats : seats.Nodup) :
    (seats.flatMap (hand pick items)).Nodup := by
  refine List.nodup_flatMap.mpr ⟨fun j _ => h.sublist (hand_sublist pick items j), ?_⟩
  refine hseats.imp fun {j j'} hne a ha ha' => hne ?_
  obtain ⟨i, hget, hpick⟩ := mem_hand.mp ha
  obtain ⟨i', hget', hpick'⟩ := mem_hand.mp ha'
  -- the item stands at one position only, and the pick is a function
  have hlt : i < items.length := (List.getElem?_eq_some_iff.mp hget).1
  have hsame : i = i' := (List.getElem?_inj hlt h).mp (hget.trans hget'.symm)
  rw [← hsame, hpick] at hpick'
  exact Option.some.inj hpick'

end Hand

/-! ## Round robin -/

/-- How often a residue occurs in a run of numbers: the length over the modulus, or one more. -/
theorem countP_mod_range' (s n : ℕ) {k r : ℕ} (hr : r < k) :
    n / k ≤ (List.range' s n).countP (fun i => i % k = r) ∧
      (List.range' s n).countP (fun i => i % k = r) ≤ n / k + 1 := by
  have hk : 0 < k := Nat.zero_lt_of_lt hr
  have hcount : ∀ b, (List.range b).countP (fun i => i % k = r) =
      b / k + if r < b % k then 1 else 0 := by
    intro b
    have hcard := Nat.count_modEq_card b hk r
    rw [Nat.mod_eq_of_lt hr, Nat.count_eq_card_filter_range] at hcard
    rw [← hcard, List.countP_eq_length_filter]
    simp only [Nat.ModEq, Nat.mod_eq_of_lt hr]
    rfl
  have hsplit : List.range (s + n) = List.range s ++ List.range' s n := by
    rw [List.range_add, List.range'_eq_map_range]
  have hsum := hcount (s + n)
  rw [hsplit, List.countP_append, hcount s, Nat.add_div hk] at hsum
  have hs := Nat.mod_lt s hk
  have hn := Nat.mod_lt n hk
  by_cases hcarry : k ≤ s % k + n % k
  · have hmod : (s + n) % k = s % k + n % k - k := by
      rw [Nat.add_mod, Nat.mod_eq_sub_mod hcarry]
      exact Nat.mod_eq_of_lt (by omega)
    rw [if_pos hcarry, hmod] at hsum
    split_ifs at hsum <;> omega
  · have hmod : (s + n) % k = s % k + n % k := by
      rw [Nat.add_mod]
      exact Nat.mod_eq_of_lt (by omega)
    rw [if_neg hcarry, hmod] at hsum
    split_ifs at hsum <;> omega

/-- The seat whose turn it is at position `i`, if there are seats. -/
def seatAt (seats : List ℕ) (i : ℕ) : Option ℕ := seats[i % max seats.length 1]?

section Seats

variable {seats : List ℕ}

theorem mem_of_seatAt {i j : ℕ} (h : seatAt seats i = some j) : j ∈ seats :=
  List.mem_of_getElem? h

/-- Where there are seats, every position has one. -/
theorem exists_seatAt (h : seats ≠ []) (i : ℕ) : ∃ j, seatAt seats i = some j := by
  have hlen := List.length_pos_iff.mpr h
  have hlt : i % max seats.length 1 < seats.length := by
    rw [Nat.max_eq_left hlen]
    exact Nat.mod_lt i hlen
  exact ⟨seats[i % max seats.length 1], List.getElem?_eq_getElem hlt⟩

/-- A seat's turns are the positions of one residue. -/
theorem seatAt_eq_some_iff (hnodup : seats.Nodup) {r j : ℕ} (hr : seats[r]? = some j) (i : ℕ) :
    seatAt seats i = some j ↔ i % seats.length = r := by
  have hlt : r < seats.length := (List.getElem?_eq_some_iff.mp hr).1
  unfold seatAt
  rw [Nat.max_eq_left (Nat.succ_le_of_lt (Nat.zero_lt_of_lt hlt)), ← hr, eq_comm,
    List.getElem?_inj hlt hnodup, eq_comm]

/-- **Round robin is balanced**: over any run of positions, no seat has two turns more than
another. -/
theorem countP_seatAt_le (hnodup : seats.Nodup) {j j' : ℕ} (hj : j ∈ seats) (hj' : j' ∈ seats)
    (s n : ℕ) :
    (List.range' s n).countP (fun i => seatAt seats i = some j) ≤
      (List.range' s n).countP (fun i => seatAt seats i = some j') + 1 := by
  obtain ⟨r, hr⟩ := List.mem_iff_getElem?.mp hj
  obtain ⟨r', hr'⟩ := List.mem_iff_getElem?.mp hj'
  simp only [seatAt_eq_some_iff hnodup hr, seatAt_eq_some_iff hnodup hr']
  have hupper := (countP_mod_range' s n (List.getElem?_eq_some_iff.mp hr).1).2
  have hlower := (countP_mod_range' s n (List.getElem?_eq_some_iff.mp hr').1).1
  omega

end Seats

end CharlotteBroker.Lib
