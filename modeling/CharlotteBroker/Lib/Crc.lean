import CharlotteBroker.Lib.BigEndian

/-!
# Cyclic redundancy checks

A check over a register of `w` bits, least significant bit first: each byte is added to the low end
of the register, and then eight bits are shifted out, the polynomial being added whenever the bit
that falls out is set (`crcByte`). A polynomial has its top bit set, so the top bit of the register
remembers what fell out.

A check of `w` bits misses no change within `w` consecutive bits. The argument has three steps:

1. Shifting is linear in exclusive or (`crcShift_xor`) and loses nothing (`crcShift_injective`).
2. A string that fits the register is absorbed as if it were added as one word and shifted out
   afterwards (`crcRun_eq_shift`), since a word that is added early enough only moves down.
3. So two different strings of one length that fit leave the register different, and whatever
   follows keeps it different (`crcRun_burst_ne`).
-/

namespace CharlotteBroker.Lib

variable {w : ℕ} (poly : BitVec w)

/-- Shifts one bit out of the register. -/
def crcStep (register : BitVec w) : BitVec w :=
  if register.getLsbD 0 then (register >>> 1) ^^^ poly else register >>> 1

/-- Shifts so many bits out of the register. -/
def crcShift (count : ℕ) (register : BitVec w) : BitVec w :=
  Nat.repeat (crcStep poly) count register

/-- Adds a byte to the register and shifts it out. -/
def crcByte (register : BitVec w) (byte : UInt8) : BitVec w :=
  crcShift poly 8 (register ^^^ byte.toBitVec.setWidth w)

/-- The register after a byte string. -/
def crcRun (register : BitVec w) (bytes : List UInt8) : BitVec w :=
  bytes.foldl (crcByte poly) register

@[simp] theorem crcRun_nil (register : BitVec w) : crcRun poly register [] = register := rfl

theorem crcRun_cons (register : BitVec w) (byte : UInt8) (bytes : List UInt8) :
    crcRun poly register (byte :: bytes) = crcRun poly (crcByte poly register byte) bytes := rfl

theorem crcRun_append (register : BitVec w) (bytes bytes' : List UInt8) :
    crcRun poly register (bytes ++ bytes') = crcRun poly (crcRun poly register bytes) bytes' :=
  List.foldl_append

/-! ## Shifting -/

theorem crcStep_xor (a b : BitVec w) :
    crcStep poly (a ^^^ b) = crcStep poly a ^^^ crcStep poly b := by
  unfold crcStep
  rw [BitVec.getLsbD_xor, BitVec.ushiftRight_xor_distrib]
  cases a.getLsbD 0 with
  | false =>
      cases b.getLsbD 0 with
      | false => simp
      | true => simp [BitVec.xor_assoc]
  | true =>
      cases b.getLsbD 0 with
      | false =>
          simp only [Bool.xor_false, if_true, Bool.false_eq_true, if_false]
          ac_rfl
      | true =>
          -- the polynomial is added on both sides, and cancels
          have hcancel : a >>> 1 ^^^ poly ^^^ (b >>> 1 ^^^ poly) =
              a >>> 1 ^^^ b >>> 1 ^^^ (poly ^^^ poly) := by ac_rfl
          simp [hcancel]

theorem crcShift_succ (count : ℕ) (register : BitVec w) :
    crcShift poly (count + 1) register = crcStep poly (crcShift poly count register) := rfl

theorem crcShift_add (count more : ℕ) (register : BitVec w) :
    crcShift poly (count + more) register = crcShift poly more (crcShift poly count register) := by
  induction more with
  | zero => rfl
  | succ more ih => rw [← Nat.add_assoc, crcShift_succ, ih, crcShift_succ]

theorem crcShift_xor (count : ℕ) (a b : BitVec w) :
    crcShift poly count (a ^^^ b) = crcShift poly count a ^^^ crcShift poly count b := by
  induction count with
  | zero => rfl
  | succ count ih => rw [crcShift_succ, ih, crcStep_xor, crcShift_succ, crcShift_succ]

theorem toNat_shiftLeft_one (word : BitVec w) (h : word.toNat < 2 ^ (w - 1)) :
    (word <<< 1).toNat = 2 * word.toNat := by
  have hfits : 2 * word.toNat < 2 ^ w := by
    rcases w with _ | w
    · simp [Nat.lt_one_iff.mp h]
    · rw [Nat.add_sub_cancel] at h
      rw [Nat.pow_succ]
      omega
  rw [BitVec.toNat_shiftLeft, Nat.shiftLeft_eq, Nat.pow_one, Nat.mul_comm,
    Nat.mod_eq_of_lt hfits]

theorem crcStep_shiftLeft {word : BitVec w} (h : word.toNat < 2 ^ (w - 1)) :
    crcStep poly (word <<< 1) = word := by
  have hlow : (word <<< 1).getLsbD 0 = false := by simp
  rw [crcStep, hlow, if_neg Bool.false_ne_true]
  apply BitVec.eq_of_toNat_eq
  rw [BitVec.toNat_ushiftRight, toNat_shiftLeft_one word h, Nat.shiftRight_eq_div_pow]
  omega

/-- A word that is far enough up only moves down. -/
theorem crcShift_shiftLeft {count : ℕ} {word : BitVec w} (h : word.toNat < 2 ^ (w - count)) :
    crcShift poly count (word <<< count) = word := by
  induction count generalizing word with
  | zero => simp [crcShift, Nat.repeat]
  | succ count ih =>
      have hstep : word.toNat < 2 ^ (w - 1) :=
        Nat.lt_of_lt_of_le h (Nat.pow_le_pow_right (by decide) (by omega))
      have hnext : (word <<< 1).toNat < 2 ^ (w - count) := by
        rw [toNat_shiftLeft_one word hstep]
        rcases Nat.lt_or_ge count w with hlt | hge
        · rw [show w - count = w - (count + 1) + 1 by omega, Nat.pow_succ]
          omega
        · rw [show w - (count + 1) = 0 by omega, Nat.pow_zero] at h
          have hpos : 0 < 2 ^ (w - count) := Nat.two_pow_pos _
          omega
      rw [Nat.add_comm, BitVec.shiftLeft_add, Nat.add_comm, crcShift_succ, ih hnext,
        crcStep_shiftLeft poly hstep]

/-! ## Absorbing a short string at once -/

/-- The word that a byte string spells, least significant byte first. -/
def leWord (w : ℕ) : List UInt8 → BitVec w
  | [] => 0
  | byte :: bytes => byte.toBitVec.setWidth w ^^^ leWord w bytes <<< 8

theorem toNat_leWord_lt {bytes : List UInt8} (h : 8 * bytes.length ≤ w) :
    (leWord w bytes).toNat < 2 ^ (8 * bytes.length) := by
  induction bytes with
  | nil => simp [leWord]
  | cons byte bytes ih =>
      rw [List.length_cons] at h ⊢
      have hhigh := ih (by omega)
      rw [leWord, BitVec.toNat_xor]
      apply Nat.xor_lt_two_pow
      · have hbyte := byte.toBitVec.isLt
        rw [BitVec.toNat_setWidth]
        refine Nat.lt_of_le_of_lt (Nat.mod_le _ _) (Nat.lt_of_lt_of_le hbyte ?_)
        exact Nat.pow_le_pow_right (by decide) (by omega)
      · rw [BitVec.toNat_shiftLeft, Nat.shiftLeft_eq]
        refine Nat.lt_of_le_of_lt (Nat.mod_le _ _) ?_
        rw [show 8 * (bytes.length + 1) = 8 * bytes.length + 8 by omega, Nat.pow_add]
        omega

/-- There is room for one byte more. -/
theorem toNat_leWord_lt_room {bytes : List UInt8} (h : 8 * (bytes.length + 1) ≤ w) :
    (leWord w bytes).toNat < 2 ^ (w - 8) :=
  Nat.lt_of_lt_of_le (toNat_leWord_lt (by omega)) (Nat.pow_le_pow_right (by decide) (by omega))

/-- **A string that fits the register** is absorbed as one word. -/
theorem crcRun_eq_shift (register : BitVec w) {bytes : List UInt8} (h : 8 * bytes.length ≤ w) :
    crcRun poly register bytes = crcShift poly (8 * bytes.length) (register ^^^ leWord w bytes) := by
  induction bytes generalizing register with
  | nil => simp [leWord, crcShift, Nat.repeat]
  | cons byte bytes ih =>
      rw [List.length_cons] at h ⊢
      calc crcRun poly register (byte :: bytes)
          = crcShift poly (8 * bytes.length)
              (crcShift poly 8 (register ^^^ byte.toBitVec.setWidth w) ^^^ leWord w bytes) := by
            rw [crcRun_cons, ih _ (by omega), crcByte]
        _ = crcShift poly (8 * bytes.length)
              (crcShift poly 8 (register ^^^ leWord w (byte :: bytes))) := by
            rw [leWord, ← BitVec.xor_assoc, crcShift_xor poly 8 _ (leWord w bytes <<< 8),
              crcShift_shiftLeft poly (toNat_leWord_lt_room h)]
        _ = crcShift poly (8 * (bytes.length + 1)) (register ^^^ leWord w (byte :: bytes)) := by
            rw [← crcShift_add, Nat.mul_succ, Nat.add_comm]

/-- Strings of one length that fit are told apart by their word. -/
theorem leWord_inj {bytes bytes' : List UInt8} (h : 8 * bytes.length ≤ w)
    (hlen : bytes'.length = bytes.length) (heq : leWord w bytes' = leWord w bytes) :
    bytes' = bytes := by
  induction bytes generalizing bytes' with
  | nil => exact List.length_eq_zero_iff.mp hlen
  | cons byte bytes ih =>
      obtain ⟨byte', bytes', rfl⟩ := List.exists_cons_of_length_eq_add_one hlen
      rw [List.length_cons] at h
      rw [List.length_cons, List.length_cons, Nat.add_right_cancel_iff] at hlen
      have hlow : byte' = byte := by
        apply UInt8.toBitVec_inj.mp
        apply BitVec.eq_of_getLsbD_eq
        intro i hi
        have hbit := congrArg (fun word => word.getLsbD i) heq
        simpa [leWord, hi, show i < w by omega] using hbit
      subst hlow
      have hhigh : leWord w bytes' <<< 8 = leWord w bytes <<< 8 := (BitVec.xor_right_inj _).mp heq
      -- shifting it out again, with any polynomial, gives the word of the other bytes
      have hrest : leWord w bytes' = leWord w bytes := by
        rw [← crcShift_shiftLeft 0 (toNat_leWord_lt_room (hlen ▸ h)), hhigh,
          crcShift_shiftLeft 0 (toNat_leWord_lt_room h)]
      rw [ih (by omega) hlen hrest]

/-! ## Nothing is lost -/

variable {poly}

/-- The top bit remembers the bit that fell out. -/
theorem msb_crcStep (hpoly : poly.msb = true) (register : BitVec w) :
    (crcStep poly register).msb = register.getLsbD 0 := by
  have htop : (register >>> 1).msb = false := by simp [BitVec.msb_ushiftRight]
  unfold crcStep
  cases register.getLsbD 0 with
  | false => simp [htop]
  | true => simp [htop, hpoly]

theorem crcStep_injective (hpoly : poly.msb = true) : Function.Injective (crcStep poly) := by
  intro a b h
  have hlow : a.getLsbD 0 = b.getLsbD 0 := by
    rw [← msb_crcStep hpoly, ← msb_crcStep hpoly, h]
  have hhigh : a >>> 1 = b >>> 1 := by
    unfold crcStep at h
    rw [hlow] at h
    cases hb : b.getLsbD 0 with
    | false => simpa [hb] using h
    | true => simpa [hb] using h
  apply BitVec.eq_of_getLsbD_eq
  intro i hi
  rcases i with _ | i
  · exact hlow
  · have hbit := congrArg (fun v => v.getLsbD i) hhigh
    simpa [Nat.add_comm] using hbit

theorem crcShift_injective (hpoly : poly.msb = true) (count : ℕ) :
    Function.Injective (crcShift poly count) := by
  induction count with
  | zero => exact fun _ _ h => h
  | succ count ih => exact (crcStep_injective hpoly).comp ih

/-! ## Bursts -/

/-- The same bytes keep different registers different. -/
theorem crcRun_inj (hpoly : poly.msb = true) {a b : BitVec w} {bytes : List UInt8}
    (h : crcRun poly a bytes = crcRun poly b bytes) : a = b := by
  induction bytes generalizing a b with
  | nil => exact h
  | cons byte bytes ih =>
      have hbyte : crcByte poly a byte = crcByte poly b byte := ih h
      exact (BitVec.xor_left_inj _).mp (crcShift_injective hpoly 8 hbyte)

/-- **Bursts.** Two strings that differ within so many consecutive bytes as the register holds
leave it different. -/
theorem crcRun_burst_ne (hpoly : poly.msb = true) (register : BitVec w)
    {before burst burst' after : List UInt8} (hfits : 8 * burst.length ≤ w)
    (hlen : burst'.length = burst.length) (hne : burst' ≠ burst) :
    crcRun poly register (before ++ (burst' ++ after)) ≠
      crcRun poly register (before ++ (burst ++ after)) := by
  intro h
  simp only [crcRun_append] at h
  have hburst := crcRun_inj hpoly h
  rw [crcRun_eq_shift poly _ hfits, crcRun_eq_shift poly _ (hlen ▸ hfits), hlen] at hburst
  have hword := (BitVec.xor_right_inj _).mp (crcShift_injective hpoly _ hburst)
  exact hne (leWord_inj hfits hlen hword)

end CharlotteBroker.Lib
