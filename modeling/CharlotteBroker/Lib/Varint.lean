import CharlotteBroker.Lib.Parser

/-!
# Variable-length integers

Unsigned numbers are written seven bits at a time, least significant group first, the top bit of
each byte saying whether another follows. Signed words are first folded onto the unsigned ones
(`zigzag`), so that small absolute values stay short.

The reader accepts more spellings than the writer produces, so the law is one of reading back:
`reads_uvarint` for the groups and `unzigzag_zigzag` for the fold.
-/

namespace CharlotteBroker.Lib

variable {ε : Type}

/-- Seven-bit groups of `v`, at most `more` of them after the first. -/
def uvarintBytes : ℕ → ℕ → List UInt8
  | 0, v => [UInt8.ofNat v]
  | more + 1, v =>
      if 128 ≤ v then (UInt8.ofNat v ||| 0x80) :: uvarintBytes more (v / 128) else [UInt8.ofNat v]

/-- The reading loop, with at most `count` groups to come and `value` read so far. -/
def readUvarintFrom (short invalid : ε) : ℕ → ℕ → UInt64 → Parser ε UInt64
  | 0, _, _ => throw invalid
  | count + 1, shift, value => do
      let byte ← Parser.byte short
      let value := value ||| (byte &&& 0x7f).toUInt64 <<< UInt64.ofNat shift
      if byte &&& 0x80 = 0 then
        return value
      else
        readUvarintFrom short invalid count (shift + 7) value

/-- Reads a number of at most `maxBytes` groups. -/
def readUvarint (short invalid : ε) (maxBytes : ℕ) : Parser ε UInt64 :=
  readUvarintFrom short invalid maxBytes 0 0

theorem length_uvarintBytes_le (more v : ℕ) : (uvarintBytes more v).length ≤ more + 1 := by
  induction more generalizing v with
  | zero => exact Nat.le_refl 1
  | succ more ih =>
      unfold uvarintBytes
      split
      · rw [List.length_cons]
        exact Nat.succ_le_succ (ih (v / 128))
      · simp

/-- Room for more groups changes nothing for a number that fits. -/
theorem uvarintBytes_of_lt {fewer more v : ℕ} (hle : fewer ≤ more) (hv : v < 128 ^ (fewer + 1)) :
    uvarintBytes more v = uvarintBytes fewer v := by
  induction fewer generalizing more v with
  | zero =>
      rcases more with _ | more
      · rfl
      · exact if_neg (by omega)
  | succ fewer ih =>
      obtain ⟨more, rfl⟩ := Nat.exists_eq_add_of_le' (Nat.zero_lt_of_lt hle)
      unfold uvarintBytes
      rw [ih (by omega) (by rw [Nat.pow_succ] at hv; omega)]

/-! ## Groups -/

theorem continued_and_flag (b : UInt8) : ¬ (b ||| 0x80) &&& 0x80 = 0 := by
  have h : ∀ x : BitVec 8, ¬ (x ||| 0x80#8) &&& 0x80#8 = 0#8 := by decide
  intro heq
  exact h b.toBitVec (congrArg UInt8.toBitVec heq)

theorem continued_and_group (b : UInt8) : ((b ||| 0x80) &&& 0x7f).toNat = b.toNat % 128 := by
  have h : ∀ x : BitVec 8, ((x ||| 0x80#8) &&& 0x7f#8).toNat = x.toNat % 128 := by decide
  exact h b.toBitVec

theorem last_and_flag {b : UInt8} (hb : b.toNat < 128) : b &&& 0x80 = 0 := by
  have h : ∀ x : BitVec 8, x.toNat < 128 → x &&& 0x80#8 = 0#8 := by decide
  exact UInt8.toBitVec_inj.mp (h b.toBitVec hb)

theorem last_and_group {b : UInt8} (hb : b.toNat < 128) : (b &&& 0x7f).toNat = b.toNat := by
  have h : ∀ x : BitVec 8, x.toNat < 128 → (x &&& 0x7f#8).toNat = x.toNat := by decide
  exact h b.toBitVec hb

/-- Adding a group above the bits read so far. -/
theorem or_shifted_group {value : UInt64} {byte : UInt8} {shift : ℕ} (hshift : shift < 64)
    (hvalue : value.toNat < 2 ^ shift) (hfits : byte.toNat * 2 ^ shift < 2 ^ 64) :
    (value ||| byte.toUInt64 <<< UInt64.ofNat shift).toNat =
      value.toNat + byte.toNat * 2 ^ shift := by
  have hmod : (UInt64.ofNat shift).toNat % 64 = shift := by
    rw [UInt64.toNat_ofNat', Nat.mod_eq_of_lt (show shift < 2 ^ 64 by omega),
      Nat.mod_eq_of_lt hshift]
  rw [UInt64.toNat_or, UInt64.toNat_shiftLeft, hmod, UInt8.toNat_toUInt64, Nat.shiftLeft_eq,
    Nat.mod_eq_of_lt hfits, Nat.or_comm, ← Nat.shiftLeft_eq,
    ← Nat.shiftLeft_add_eq_or_of_lt hvalue, Nat.add_comm]

/-- The last group ends the reading. -/
theorem reads_last (short invalid : ε) (count : ℕ) {shift v : ℕ} {value : UInt64}
    (hv : v < 128) (hshift : shift < 64) (hvalue : value.toNat < 2 ^ shift)
    (hfits : value.toNat + v * 2 ^ shift < 2 ^ 64) :
    Parser.Reads (readUvarintFrom short invalid (count + 1) shift value) [UInt8.ofNat v]
      (UInt64.ofNat (value.toNat + v * 2 ^ shift)) := by
  have hbyte : (UInt8.ofNat v).toNat = v := by
    rw [UInt8.toNat_ofNat', Nat.mod_eq_of_lt (by omega)]
  have hsmall : (UInt8.ofNat v).toNat < 128 := by omega
  have hgroup : (UInt8.ofNat v &&& 0x7f).toNat = v := (last_and_group hsmall).trans hbyte
  intro rest
  refine Parser.run_bind_ok.mpr ⟨UInt8.ofNat v, rest, rfl, ?_⟩
  rw [if_pos (last_and_flag hsmall)]
  refine Parser.run_pure_ok.mpr ⟨?_, rfl⟩
  apply UInt64.toNat_inj.mp
  rw [or_shifted_group hshift hvalue (by rw [hgroup]; omega), hgroup, UInt64.toNat_ofNat',
    Nat.mod_eq_of_lt hfits]

/-- **Reading back the groups**, from any number of bits already read. -/
theorem reads_uvarintFrom (short invalid : ε) {more count shift v : ℕ} {value : UInt64}
    (hcount : more < count) (hv : v < 128 ^ (more + 1)) (hshift : shift < 64)
    (hvalue : value.toNat < 2 ^ shift) (hfits : value.toNat + v * 2 ^ shift < 2 ^ 64) :
    Parser.Reads (readUvarintFrom short invalid count shift value) (uvarintBytes more v)
      (UInt64.ofNat (value.toNat + v * 2 ^ shift)) := by
  induction more generalizing count shift v value with
  | zero =>
      obtain ⟨count, rfl⟩ := Nat.exists_eq_add_of_le' (Nat.succ_le_of_lt hcount)
      exact reads_last short invalid count (by omega) hshift hvalue hfits
  | succ more ih =>
      obtain ⟨count, rfl⟩ := Nat.exists_eq_add_of_le' (Nat.zero_lt_of_lt hcount)
      unfold uvarintBytes
      by_cases hmore : 128 ≤ v
      · rw [if_pos hmore]
        -- one group more: the low seven bits join the value, the rest is read from there
        set b : UInt8 := UInt8.ofNat v ||| 0x80 with hb
        have hgroup : (b &&& 0x7f).toNat = v % 128 := by
          rw [hb, continued_and_group, UInt8.toNat_ofNat']
          omega
        have hsplit : v * 2 ^ shift = v % 128 * 2 ^ shift + v / 128 * 2 ^ (shift + 7) := by
          conv_lhs => rw [← Nat.div_add_mod v 128]
          ring
        have hhigh : 1 * 2 ^ (shift + 7) ≤ v / 128 * 2 ^ (shift + 7) :=
          Nat.mul_le_mul_right _ (by omega)
        have hshift' : shift + 7 < 64 := by
          by_contra hge
          have hpow : 2 ^ 64 ≤ 2 ^ (shift + 7) := Nat.pow_le_pow_right (by decide) (by omega)
          omega
        set value' : UInt64 := value ||| (b &&& 0x7f).toUInt64 <<< UInt64.ofNat shift with hv'
        have hadd : value'.toNat = value.toNat + v % 128 * 2 ^ shift := by
          rw [hv', or_shifted_group hshift hvalue (by rw [hgroup]; omega), hgroup]
        have hbelow : value'.toNat < 2 ^ (shift + 7) := by
          have hle : v % 128 * 2 ^ shift ≤ 127 * 2 ^ shift := Nat.mul_le_mul_right _ (by omega)
          have hpow : 2 ^ (shift + 7) = 128 * 2 ^ shift := by ring
          omega
        have hrest : Parser.Reads (readUvarintFrom short invalid count (shift + 7) value') _ _ :=
          ih (v := v / 128) (by omega) (by rw [Nat.pow_succ] at hv; omega) hshift' hbelow
            (by omega)
        intro rest
        refine Parser.run_bind_ok.mpr ⟨b, _, rfl, ?_⟩
        rw [if_neg (continued_and_flag _)]
        have heq : value.toNat + v * 2 ^ shift =
            value'.toNat + v / 128 * 2 ^ (shift + 7) := by omega
        rw [heq]
        exact hrest rest
      · rw [if_neg hmore]
        exact reads_last short invalid count (by omega) hshift hvalue hfits

/-- **Reading back a number** of at most `more + 1` groups. -/
theorem reads_uvarint (short invalid : ε) {more maxBytes : ℕ} {v : UInt64} (hmax : more < maxBytes)
    (hv : v.toNat < 128 ^ (more + 1)) :
    Parser.Reads (readUvarint short invalid maxBytes) (uvarintBytes more v.toNat) v := by
  have h := @reads_uvarintFrom ε short invalid more maxBytes 0 v.toNat 0 hmax hv (by decide)
    (by decide) (by simpa using v.toNat_lt)
  unfold readUvarint
  simpa using h

/-! ## The signed fold -/

variable {w : ℕ}

/-- Folds the sign into the lowest bit. -/
def zigzag (v : BitVec w) : BitVec w := (v <<< 1) ^^^ v.sshiftRight (w - 1)

/-- Unfolds the sign from the lowest bit. -/
def unzigzag (r : BitVec w) : BitVec w := (r >>> 1) ^^^ -(r &&& 1#w)

theorem neg_and_one (r : BitVec w) (i : ℕ) (hi : i < w) :
    (-(r &&& 1#w)).getLsbD i = r.getLsbD 0 := by
  rw [BitVec.and_one_eq_setWidth_ofBool_getLsbD]
  cases h : r.getLsbD 0 with
  | false => simp
  | true =>
      have hone : BitVec.setWidth w (BitVec.ofBool true) = 1#w := by
        rcases w with _ | w
        · exact absurd hi (Nat.not_lt_zero i)
        · simp
      rw [hone, BitVec.neg_one_eq_allOnes]
      simp [hi]

theorem unzigzag_zigzag (v : BitVec w) : unzigzag (zigzag v) = v := by
  apply BitVec.eq_of_getLsbD_eq
  intro i hi
  have hw : 0 < w := Nat.zero_lt_of_lt hi
  have hsign : (zigzag v).getLsbD 0 = v.getLsbD (w - 1) := by
    rw [zigzag, BitVec.getLsbD_xor, BitVec.getLsbD_shiftLeft, BitVec.getLsbD_sshiftRight,
      Nat.add_zero, if_pos (by omega)]
    simp only [Nat.zero_lt_one, decide_true, Bool.not_true, Bool.and_false, Bool.false_and,
      Bool.false_xor, Nat.not_le.mpr hw, decide_false, Bool.not_false, Bool.true_and]
  unfold unzigzag
  rw [BitVec.getLsbD_xor, neg_and_one _ i hi, BitVec.getLsbD_ushiftRight, hsign]
  by_cases htop : 1 + i < w
  · -- below the sign bit: shifted up and down again, the sign added twice
    have hbit : (zigzag v).getLsbD (1 + i) = (v.getLsbD i ^^ v.getLsbD (w - 1)) := by
      rw [zigzag, BitVec.getLsbD_xor, BitVec.getLsbD_shiftLeft, BitVec.getLsbD_sshiftRight,
        if_neg (by omega), BitVec.msb_eq_getLsbD_last, Nat.add_sub_cancel_left]
      simp only [htop, decide_true, Nat.not_lt.mpr (Nat.le_add_right 1 i), decide_false,
        Bool.not_false, Bool.true_and, Nat.not_le.mpr htop]
    rw [hbit, Bool.xor_assoc, Bool.xor_self, Bool.xor_false]
  · -- the sign bit itself
    have hlast : i = w - 1 := by omega
    rw [BitVec.getLsbD_of_ge _ _ (Nat.le_of_not_lt htop), Bool.false_xor, hlast]

end CharlotteBroker.Lib
