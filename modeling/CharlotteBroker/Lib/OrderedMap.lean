import Mathlib.Tactic.Common
import Mathlib.Order.Defs.LinearOrder

/-!
# Ordered maps and sets with lawful keys

`Std.ExtTreeMap` and `Std.ExtTreeSet` state their lookup lemmas through the comparison of keys.
Where the comparison decides equality the lemmas read as for functions and sets.
-/

namespace CharlotteBroker.Lib

open Std

variable {α β : Type} [Ord α] [TransOrd α] [LawfulEqOrd α]

/-- Lookup after an insertion, by equality of keys. -/
theorem getElem?_insert_eq_ite [DecidableEq α] (t : ExtTreeMap α β) (k a : α) (v : β) :
    (t.insert k v)[a]? = if a = k then some v else t[a]? := by
  rw [ExtTreeMap.getElem?_insert]
  by_cases h : a = k
  · rw [if_pos h, if_pos (Std.compare_eq_iff_eq.mpr h.symm)]
  · rw [if_neg h, if_neg fun hc => h (Std.compare_eq_iff_eq.mp hc).symm]

/-- Lookup after a removal, by equality of keys. -/
theorem getElem?_erase_eq_ite [DecidableEq α] (t : ExtTreeMap α β) (k a : α) :
    (t.erase k)[a]? = if a = k then none else t[a]? := by
  rw [ExtTreeMap.getElem?_erase]
  by_cases h : a = k
  · rw [if_pos h, if_pos (Std.compare_eq_iff_eq.mpr h.symm)]
  · rw [if_neg h, if_neg fun hc => h (Std.compare_eq_iff_eq.mp hc).symm]

/-- Storing what is stored changes nothing. -/
theorem insert_of_getElem? [DecidableEq α] {t : ExtTreeMap α β} {k : α} {v : β}
    (h : t[k]? = some v) : t.insert k v = t := by
  refine ExtTreeMap.ext_getElem? fun a => ?_
  rw [getElem?_insert_eq_ite]
  split
  · next heq => rw [heq, h]
  · rfl

omit [LawfulEqOrd α] in
/-- The values of a map, in the order of its entries. -/
theorem values_eq_map_snd_toList (t : ExtTreeMap α β) : t.values = t.toList.map Prod.snd := by
  obtain ⟨inner⟩ := t
  induction inner using ExtDTreeMap.inductionOn with
  | _ inner =>
      show inner.inner.values = (DTreeMap.Internal.Impl.Const.toList inner.inner).map Prod.snd
      rw [DTreeMap.Internal.Impl.values_eq_map_snd,
        DTreeMap.Internal.Impl.Const.toList_eq_toListModel_map, List.map_map]
      rfl

/-- The key and the value at one position belong together. -/
theorem getElem?_of_keys_values {t : ExtTreeMap α β} {i : ℕ} {k : α} {v : β}
    (hkey : t.keys[i]? = some k) (hvalue : t.values[i]? = some v) : t[k]? = some v := by
  rw [← ExtTreeMap.map_fst_toList_eq_keys, List.getElem?_map, Option.map_eq_some_iff] at hkey
  rw [values_eq_map_snd_toList, List.getElem?_map, Option.map_eq_some_iff] at hvalue
  obtain ⟨entry, hentry, rfl⟩ := hkey
  obtain ⟨entry', hentry', rfl⟩ := hvalue
  rw [hentry, Option.some.injEq] at hentry'
  subst hentry'
  exact ExtTreeMap.mem_toList_iff_getElem?_eq_some.mp (List.mem_of_getElem? hentry)

/-- Membership after an insertion, by equality. -/
theorem mem_insert_iff_eq_or (t : ExtTreeSet α) (k a : α) : a ∈ t.insert k ↔ a = k ∨ a ∈ t := by
  rw [ExtTreeSet.mem_insert, Std.compare_eq_iff_eq, eq_comm]

end CharlotteBroker.Lib
