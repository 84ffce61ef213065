import Mathlib.Tactic.Common
import Mathlib.Tactic.Ring

/-!
# Big-endian numbers

`beBytes n v` are the `n` low bytes of `v`, most significant first, and `beValue` reads such a
string back. They are inverse to each other: `beValue_beBytes`, `beBytes_beValue`.
-/

namespace CharlotteBroker.Lib

/-- The `n` low bytes of `v`, most significant first. -/
def beBytes : ℕ → ℕ → List UInt8
  | 0, _ => []
  | n + 1, v => UInt8.ofNat (v / 256 ^ n) :: beBytes n v

/-- The number a byte string spells, most significant byte first. -/
def beValue : List UInt8 → ℕ
  | [] => 0
  | b :: bs => b.toNat * 256 ^ bs.length + beValue bs

@[simp] theorem length_beBytes (n v : ℕ) : (beBytes n v).length = n := by
  induction n with
  | zero => rfl
  | succ n ih => rw [beBytes, List.length_cons, ih]

theorem beValue_lt (bs : List UInt8) : beValue bs < 256 ^ bs.length := by
  induction bs with
  | nil => exact Nat.one_pos
  | cons b bs ih =>
      have hb : b.toNat + 1 ≤ 256 := b.toNat_lt
      calc beValue (b :: bs) < b.toNat * 256 ^ bs.length + 256 ^ bs.length :=
            Nat.add_lt_add_left ih _
        _ = (b.toNat + 1) * 256 ^ bs.length := by ring
        _ ≤ 256 * 256 ^ bs.length := Nat.mul_le_mul_right _ hb
        _ = 256 ^ (b :: bs).length := by rw [List.length_cons, Nat.pow_succ']

/-- Reading back keeps the low digits. -/
theorem beValue_beBytes (n v : ℕ) : beValue (beBytes n v) = v % 256 ^ n := by
  induction n with
  | zero => simp [beBytes, beValue, Nat.mod_one]
  | succ n ih =>
      rw [beBytes, beValue, length_beBytes, ih, Nat.pow_succ, Nat.mod_mul]
      simp only [UInt8.toNat_ofNat']
      ring

theorem beValue_beBytes_of_lt {n v : ℕ} (h : v < 256 ^ n) : beValue (beBytes n v) = v := by
  rw [beValue_beBytes, Nat.mod_eq_of_lt h]

/-- Only the low digits are written. -/
theorem beBytes_add_mul (n v k : ℕ) : beBytes n (v + k * 256 ^ n) = beBytes n v := by
  induction n generalizing k with
  | zero => rfl
  | succ n ih =>
      have hshift : v + k * 256 ^ (n + 1) = v + k * 256 * 256 ^ n := by ring
      rw [beBytes, beBytes, hshift, ih, Nat.add_mul_div_right _ _ (Nat.pow_pos (by decide))]
      congr 1
      apply UInt8.toNat_inj.mp
      simp [UInt8.toNat_ofNat']

/-- Writing back what was read. -/
theorem beBytes_beValue (bs : List UInt8) : beBytes bs.length (beValue bs) = bs := by
  induction bs with
  | nil => rfl
  | cons b bs ih =>
      have hlow := beValue_lt bs
      rw [List.length_cons, beBytes, beValue, Nat.add_comm, beBytes_add_mul, ih,
        Nat.add_mul_div_right _ _ (Nat.pow_pos (by decide)), Nat.div_eq_of_lt hlow,
        Nat.zero_add, UInt8.ofNat_toNat]

theorem beBytes_inj {n v w : ℕ} (hv : v < 256 ^ n) (hw : w < 256 ^ n)
    (h : beBytes n v = beBytes n w) : v = w := by
  rw [← beValue_beBytes_of_lt hv, h, beValue_beBytes_of_lt hw]

end CharlotteBroker.Lib
