import CharlotteBroker.Lib.Varint

/-!
# Slices and offsets

Readers as a machine runs them: a slice, an offset into it, and operations that are defined only in
their range.

* A `Checked` computation answers, fails with an error of its own, or traps. An operation out of
  range is a `panic`; a loop that goes on for longer than there is input is `endless`.
* A `Cursor` is a slice with an offset, a `Reader` a computation that moves one.
* `Refines p q`: on every slice, from every offset inside it, the reader `p` does what the parser
  `q` does with the bytes that are left; so it does not trap. It composes along sequences, checks,
  branches, counted lists, nested slices and loops.
-/

namespace CharlotteBroker.Lib

variable {ε α β : Type}

variable {bytes : List UInt8} {q : Parser ε α} {condition : Prop} {g : α → Parser ε β}
  {n offset : ℕ}

/-- Why a computation has no answer. -/
inductive Trap
  | panic
  | endless
  deriving DecidableEq, Repr

/-- A computation that answers, fails as it says, or traps. -/
abbrev Checked (ε : Type) : Type → Type := ExceptT ε (Except Trap)

namespace Checked

/-! ## Answers -/

/-- The computation has come to its result. -/
def answer (result : Except ε α) : Checked ε α := ExceptT.mk (.ok result)

/-- The computation has no answer. -/
def trap (reason : Trap) : Checked ε α := ExceptT.mk (.error reason)

/-- Fails with `error`. -/
def fail (error : ε) : Checked ε α := answer (.error error)

/-- Fails with `error` if the condition holds. -/
def reject (condition : Prop) [Decidable condition] (error : ε) : Checked ε Unit :=
  if condition then fail error else pure ()

/-- A value, or the error in its place. -/
def okOr (value : Option α) (error : ε) : Checked ε α :=
  match value with
  | some a => pure a
  | none => fail error

/-- The result of an operation, which panics out of its range. -/
def orPanic (value : Option α) : Checked ε α :=
  match value with
  | some a => pure a
  | none => trap .panic

theorem answer_map (result : Except ε α) (f : α → β) :
    (answer result >>= fun a => pure (f a)) = answer (result >>= fun a => pure (f a)) := by
  rcases result with error | a
  · rfl
  · rfl

/-- A check that the result makes too. -/
theorem reject_answers [Decidable condition] {error : ε} {x : Unit → Checked ε α}
    {result : Except ε α} (h : ¬ condition → x () = answer result) :
    (reject condition error >>= x) = answer (if condition then .error error else result) := by
  unfold reject
  by_cases hc : condition
  · rw [if_pos hc, if_pos hc]
    rfl
  · rw [if_neg hc, if_neg hc]
    exact h hc

/-! ## Operations of a 64-bit machine -/

/-- The sum of two sizes, if it is one. -/
def checkedAdd (a b : ℕ) : Option ℕ := if a + b < 2 ^ 64 then some (a + b) else none

def add (a b : ℕ) : Checked ε ℕ := orPanic (checkedAdd a b)

def mul (a b : ℕ) : Checked ε ℕ := orPanic (if a * b < 2 ^ 64 then some (a * b) else none)

def shiftLeft (value : UInt64) (shift : ℕ) : Checked ε UInt64 :=
  orPanic (if shift < 64 then some (value <<< UInt64.ofNat shift) else none)

def neg {w : ℕ} (value : BitVec w) : Checked ε (BitVec w) :=
  orPanic (if value = BitVec.intMin w then none else some (-value))

/-- The part of a slice between two indices, if they are in order and inside. -/
def get? (bytes : List UInt8) (first last : ℕ) : Option (List UInt8) :=
  if first ≤ last ∧ last ≤ bytes.length then some ((bytes.take last).drop first) else none

def slice (bytes : List UInt8) (first last : ℕ) : Checked ε (List UInt8) :=
  orPanic (get? bytes first last)

def sliceFrom (bytes : List UInt8) (first : ℕ) : Checked ε (List UInt8) :=
  slice bytes first bytes.length

def index (bytes : List UInt8) (i : ℕ) : Checked ε UInt8 := orPanic bytes[i]?

/-- The slice as an array of the given length. -/
def toArray (mismatch : ε) (n : ℕ) (bytes : List UInt8) : Checked ε (List UInt8) :=
  if bytes.length = n then pure bytes else fail mismatch

/-- Room for elements of the given size, all together less than half of the address space. -/
def withCapacity (size count : ℕ) : Checked ε Unit :=
  if size * count < 2 ^ 63 then pure () else trap .panic

theorem add_of_lt {a b : ℕ} (h : a + b < 2 ^ 64) : (add a b : Checked ε ℕ) = pure (a + b) := by
  unfold add checkedAdd
  rw [if_pos h]
  rfl

theorem mul_of_lt {a b : ℕ} (h : a * b < 2 ^ 64) : (mul a b : Checked ε ℕ) = pure (a * b) := by
  unfold mul
  rw [if_pos h]
  rfl

theorem shiftLeft_of_lt {value : UInt64} {shift : ℕ} (h : shift < 64) :
    (shiftLeft value shift : Checked ε UInt64) = pure (value <<< UInt64.ofNat shift) := by
  unfold shiftLeft
  rw [if_pos h]
  rfl

/-- The sign bit of a folded integer is in the lowest place, so it can be negated. -/
theorem neg_and_one {w : ℕ} (hw : 1 < w) (value : BitVec w) :
    (neg (value &&& 1#w) : Checked ε (BitVec w)) = pure (-(value &&& 1#w)) := by
  unfold neg
  rw [if_neg ?_]
  · rfl
  · intro heq
    have hlt : (value &&& 1#w).toNat ≤ 1 := by
      rw [BitVec.toNat_and, BitVec.toNat_ofNat, Nat.mod_eq_of_lt (Nat.one_lt_two_pow (by omega))]
      exact Nat.and_le_right
    rw [heq, BitVec.toNat_intMin_of_pos (by omega)] at hlt
    have hpow : 2 ^ 1 ≤ 2 ^ (w - 1) := Nat.pow_le_pow_right (by decide) (by omega)
    omega

theorem get?_of_le {first last : ℕ} (h : first ≤ last) (h' : last ≤ bytes.length) :
    get? bytes first last = some ((bytes.take last).drop first) :=
  if_pos ⟨h, h'⟩

theorem slice_of_le {first last : ℕ} (h : first ≤ last) (h' : last ≤ bytes.length) :
    (slice bytes first last : Checked ε (List UInt8)) = pure ((bytes.take last).drop first) := by
  unfold slice
  rw [get?_of_le h h']
  rfl

theorem sliceFrom_of_le {first : ℕ} (h : first ≤ bytes.length) :
    (sliceFrom bytes first : Checked ε (List UInt8)) = pure (bytes.drop first) := by
  unfold sliceFrom
  rw [slice_of_le h (Nat.le_refl _), List.take_length]

theorem index_of_lt {i : ℕ} (h : i < bytes.length) :
    (index bytes i : Checked ε UInt8) = pure bytes[i] := by
  unfold index
  rw [List.getElem?_eq_getElem h]
  rfl

theorem toArray_of_length {mismatch : ε} (h : bytes.length = n) :
    toArray mismatch n bytes = pure bytes :=
  if_pos h

theorem withCapacity_of_lt {size count : ℕ} (h : size * count < 2 ^ 63) :
    (withCapacity size count : Checked ε Unit) = pure () :=
  if_pos h

end Checked

/-! ## Readers -/

/-- A slice of memory, which never takes more than half of the address space. -/
abbrev Slice : Type := { bytes : List UInt8 // bytes.length < 2 ^ 63 }

/-- A slice and an offset into it. -/
structure Cursor where
  bytes : List UInt8
  offset : ℕ
  deriving DecidableEq, Repr

/-- A computation that moves a cursor. -/
abbrev Reader (ε : Type) : Type → Type := StateT Cursor (Checked ε)

namespace Reader

/-- A computation that does not look at the cursor. -/
def lift (x : Checked ε α) : Reader ε α := StateT.lift x

/-- Fails with `error` if the condition holds. -/
def reject (condition : Prop) [Decidable condition] (error : ε) : Reader ε Unit :=
  lift (Checked.reject condition error)

/-- The next `n` bytes. -/
def take (overflow short : ε) (n : ℕ) : Reader ε (List UInt8) := do
  let cursor ← get
  let last ← lift (Checked.okOr (Checked.checkedAdd cursor.offset n) overflow)
  let value ← lift (Checked.okOr (Checked.get? cursor.bytes cursor.offset last) short)
  set { cursor with offset := last }
  return value

/-- The next byte. -/
def byte (overflow short : ε) : Reader ε UInt8 := do
  let group ← take overflow short 1
  lift (Checked.index group 0)

/-- The next `n` bytes as a big-endian machine word. -/
def bits (overflow short : ε) (n : ℕ) : Reader ε (BitVec (8 * n)) := do
  let bytes ← take overflow short n
  let bytes ← lift (Checked.toArray overflow n bytes)
  return BitVec.ofNat (8 * n) (beValue bytes)

/-- How many bytes are left. -/
def remaining : Reader ε ℕ := do
  let cursor ← get
  return cursor.bytes.length - cursor.offset

/-- Everything has been read. -/
def done : Reader ε Bool := do
  let cursor ← get
  return cursor.offset = cursor.bytes.length

/-- The reader run `n` times over. -/
def many (p : Reader ε α) : ℕ → Reader ε (List α)
  | 0 => return []
  | n + 1 => do
      let first ← p
      let others ← many p n
      return first :: others

variable {σ : Type}

/-- Repeats the step as long as there is input, and traps if it has not come to the end within the
given number of steps. -/
def whileMoreFrom (step : σ → Reader ε σ) : ℕ → σ → Reader ε σ
  | 0, s => do
      if ← done then return s
      else lift (Checked.trap .endless)
  | bound + 1, s => do
      if ← done then return s
      else
        let s ← step s
        whileMoreFrom step bound s

/-- Repeats the step as long as there is input. A loop that makes more steps than there are bytes
counts as endless. -/
def whileMore (step : σ → Reader ε σ) (s : σ) : Reader ε σ := do
  whileMoreFrom step (← remaining) s

/-- The reader run over a slice of its own. -/
def front (p : Reader ε α) (bytes : List UInt8) : Checked ε α := do
  let (a, _) ← p.run ⟨bytes, 0⟩
  return a

/-- The reader run over a slice from an offset on, of which nothing may be left. -/
def wholeFrom (trailing : ε) (p : Reader ε α) (bytes : List UInt8) (offset : ℕ) : Checked ε α := do
  let (a, cursor) ← p.run ⟨bytes, offset⟩
  if cursor.offset = cursor.bytes.length then return a else Checked.fail trailing

/-- The reader run over a slice of its own, of which nothing may be left. -/
def whole (trailing : ε) (p : Reader ε α) (bytes : List UInt8) : Checked ε α :=
  wholeFrom trailing p bytes 0

/-- The reading loop of a variable-length integer, with at most `count` groups to come. -/
def readUvarintFrom (short invalid : ε) : ℕ → ℕ → UInt64 → Reader ε UInt64
  | 0, _, _ => lift (Checked.fail invalid)
  | count + 1, shift, value => do
      let byte ← byte invalid short
      let group ← lift (Checked.shiftLeft (byte &&& 0x7f).toUInt64 shift)
      let value := value ||| group
      if byte &&& 0x80 = 0 then
        return value
      else
        readUvarintFrom short invalid count (shift + 7) value

/-- Reads a number of at most `maxBytes` groups. -/
def readUvarint (short invalid : ε) (maxBytes : ℕ) : Reader ε UInt64 := do
  let _last ← lift (Checked.mul maxBytes 7)
  readUvarintFrom short invalid maxBytes 0 0

/-- Unfolds the sign from the lowest bit. -/
def unzigzag {w : ℕ} (value : BitVec w) : Reader ε (BitVec w) := do
  let sign ← lift (Checked.neg (value &&& 1#w))
  return (value >>> 1) ^^^ sign

/-! ## Refinement -/

/-- From this offset of this slice, the reader does what the parser does with the bytes that are
left. -/
def Agree (p : Reader ε α) (q : Parser ε α) (bytes : List UInt8) (offset : ℕ) : Prop :=
  (∃ error, q.run (bytes.drop offset) = .error error ∧
      p.run ⟨bytes, offset⟩ = Checked.fail error) ∨
    ∃ a last, last ≤ bytes.length ∧ q.run (bytes.drop offset) = .ok (a, bytes.drop last) ∧
      p.run ⟨bytes, offset⟩ = pure (a, ⟨bytes, last⟩)

/-- The reader does what the parser does, from every offset of every slice. A slice never takes
more than half of the address space. -/
def Refines (p : Reader ε α) (q : Parser ε α) : Prop :=
  ∀ bytes offset, bytes.length < 2 ^ 63 → offset ≤ bytes.length → Agree p q bytes offset

theorem Agree.bind {p : Reader ε α} {f : α → Reader ε β} (h : Agree p q bytes offset)
    (h' : ∀ a last, last ≤ bytes.length → q.run (bytes.drop offset) = .ok (a, bytes.drop last) →
      Agree (f a) (g a) bytes last) :
    Agree (p >>= f) (q >>= g) bytes offset := by
  rcases h with ⟨error, hq, hp⟩ | ⟨a, last, hlast, hq, hp⟩
  · refine .inl ⟨error, ?_, ?_⟩
    · rw [StateT.run_bind, hq]
      rfl
    · rw [StateT.run_bind, hp]
      rfl
  · have hnext := h' a last hlast hq
    unfold Agree
    rw [StateT.run_bind, hq, StateT.run_bind, hp]
    exact hnext

theorem Refines.pure (a : α) : Refines (pure a : Reader ε α) (pure a) :=
  fun _ offset _ hle => .inr ⟨a, offset, hle, rfl, rfl⟩

theorem Refines.bind {p : Reader ε α} {f : α → Reader ε β} (h : Refines p q)
    (h' : ∀ a, Refines (f a) (g a)) : Refines (p >>= f) (q >>= g) :=
  fun bytes offset hfits hle =>
    (h bytes offset hfits hle).bind fun a last hlast _ => h' a bytes last hfits hlast

/-- A step whose result is known to satisfy a predicate. -/
theorem Refines.bind_of {p : Reader ε α} {f : α → Reader ε β} {P : α → Prop} (h : Refines p q)
    (hyields : Parser.Yields q P) (h' : ∀ a, P a → Refines (f a) (g a)) :
    Refines (p >>= f) (q >>= g) :=
  fun bytes offset hfits hle =>
    (h bytes offset hfits hle).bind fun a last hlast hq =>
      h' a (hyields _ _ _ hq) bytes last hfits hlast

theorem Refines.ite [Decidable condition] {p p' : Reader ε α} {q' : Parser ε α}
    (h : condition → Refines p q) (h' : ¬ condition → Refines p' q') :
    Refines (if condition then p else p') (if condition then q else q') := by
  by_cases hc : condition
  · rw [if_pos hc, if_pos hc]
    exact h hc
  · rw [if_neg hc, if_neg hc]
    exact h' hc

theorem Refines.fail (error : ε) :
    Refines (lift (Checked.fail error) : Reader ε α) (throw error) :=
  fun _ _ _ _ => .inl ⟨error, rfl, rfl⟩

theorem Refines.reject [Decidable condition] {error : ε} {f : Unit → Reader ε α}
    {g : Unit → Parser ε α} (h : ¬ condition → Refines (f ()) (g ())) :
    Refines (Reader.reject condition error >>= f) (Parser.reject condition error >>= g) := by
  unfold Reader.reject Checked.reject Parser.reject
  by_cases hc : condition
  · rw [if_pos hc, if_pos hc]
    exact fun _ _ _ _ => .inl ⟨error, rfl, rfl⟩
  · rw [if_neg hc, if_neg hc]
    exact h hc

/-- A check at the end. -/
theorem refines_reject (condition : Prop) [Decidable condition] (error : ε) :
    Refines (Reader.reject condition error) (Parser.reject condition error) := by
  unfold Reader.reject Checked.reject Parser.reject
  by_cases hc : condition
  · rw [if_pos hc, if_pos hc]
    exact Refines.fail error
  · rw [if_neg hc, if_neg hc]
    exact Refines.pure ()

/-- A computation only the reader makes, and that succeeds. -/
theorem Refines.step {x : Checked ε α} {a : α} (hx : x = Pure.pure a) {f : α → Reader ε β}
    {q : Parser ε β} (h : Refines (f a) q) : Refines (lift x >>= f) q := by
  rw [hx]
  exact h

/-- A result computed apart. -/
theorem Refines.lift {x : Checked ε α} {result : Except ε α} (hx : x = Checked.answer result) :
    Refines (Reader.lift x) (Parser.ofExcept result) := by
  rw [hx]
  rcases result with error | a
  · exact fun _ _ _ _ => .inl ⟨error, rfl, rfl⟩
  · exact fun _ offset _ hle => .inr ⟨a, offset, hle, rfl, rfl⟩

theorem Refines.many {p : Reader ε α} (h : Refines p q) (n : ℕ) :
    Refines (many p n) (Parser.many q n) := by
  induction n with
  | zero => exact Refines.pure []
  | succ n ih => exact h.bind fun first => ih.bind fun others => Refines.pure (first :: others)

/-! ## Fields -/

theorem run_okOr_some (a : α) (error : ε) (f : α → Reader ε β) (cursor : Cursor) :
    (lift (Checked.okOr (some a) error) >>= f).run cursor = (f a).run cursor := rfl

theorem run_take (overflow short : ε) (h : offset + n < 2 ^ 64) :
    (take overflow short n).run ⟨bytes, offset⟩ =
      (lift (Checked.okOr (Checked.get? bytes offset (offset + n)) short) >>= fun value => do
        set (Cursor.mk bytes (offset + n))
        return value).run ⟨bytes, offset⟩ := by
  have hsum : Checked.checkedAdd offset n = some (offset + n) := if_pos h
  have hrun : (take overflow short n).run ⟨bytes, offset⟩ =
      (lift (Checked.okOr (Checked.checkedAdd offset n) overflow) >>= fun last => do
        let value ← lift (Checked.okOr (Checked.get? bytes offset last) short)
        set (Cursor.mk bytes last)
        return value).run ⟨bytes, offset⟩ := rfl
  rw [hrun, hsum, run_okOr_some]

theorem refines_take (overflow short : ε) (hn : n < 2 ^ 63) :
    Refines (take overflow short n) (Parser.take short n) := by
  intro bytes offset hfits hle
  have hparse : (Parser.take short n).run (bytes.drop offset) =
      if n ≤ (bytes.drop offset).length then
        .ok ((bytes.drop offset).take n, (bytes.drop offset).drop n)
      else .error short := rfl
  unfold Agree
  rw [run_take overflow short (by omega), hparse, List.length_drop]
  by_cases hin : offset + n ≤ bytes.length
  · refine .inr ⟨(bytes.take (offset + n)).drop offset, offset + n, hin, ?_, ?_⟩
    · rw [if_pos (by omega), List.drop_drop, List.take_drop]
    · rw [Checked.get?_of_le (Nat.le_add_right offset n) hin]
      rfl
  · refine .inl ⟨short, if_neg (by omega), ?_⟩
    have hget : Checked.get? bytes offset (offset + n) = none := if_neg fun h => hin h.2
    rw [hget]
    rfl

theorem yields_take (short : ε) (n : ℕ) :
    Parser.Yields (Parser.take short n) (fun bytes => bytes.length = n) :=
  fun _ _ _ hrun => (Parser.run_take_ok.mp hrun).1

theorem byte_eq_take (short : ε) :
    Parser.byte short = Parser.take short 1 >>= fun group => pure (group.headD 0) := by
  funext input
  rcases input with _ | ⟨b, rest⟩
  · rfl
  · rfl

theorem refines_byte (overflow short : ε) :
    Refines (byte overflow short) (Parser.byte short) := by
  rw [byte_eq_take]
  refine (refines_take overflow short (by decide)).bind_of (yields_take short 1) ?_
  intro group hlen
  obtain ⟨b, rfl⟩ := List.length_eq_one_iff.mp hlen
  exact Refines.pure b

/-- A word is what its bytes say. -/
theorem bits_bind_eq_take (short : ε) (n : ℕ) (f : BitVec (8 * n) → α) :
    (Parser.bits short n >>= fun value => pure (f value)) =
      Parser.take short n >>= fun bytes => pure (f (BitVec.ofNat (8 * n) (beValue bytes))) := by
  unfold Parser.bits Parser.word
  simp only [bind_assoc, pure_bind]

theorem refines_bits (overflow short : ε) (hn : n < 2 ^ 63) :
    Refines (bits overflow short n) (Parser.bits short n) := by
  have hbits := bits_bind_eq_take short n id
  simp only [id, bind_pure] at hbits
  rw [hbits]
  exact (refines_take overflow short hn).bind_of (yields_take short n) fun bytes hlen =>
    Refines.step (Checked.toArray_of_length hlen) (Refines.pure _)

/-- A step that depends on how many bytes are left. -/
theorem Refines.remaining {f : ℕ → Reader ε α} {g : List UInt8 → Parser ε α}
    (h : ∀ input, Refines (f input.length) (g input)) :
    Refines (Reader.remaining >>= f) (get >>= g) := by
  intro bytes offset hfits hle
  have hnext := h (bytes.drop offset) bytes offset hfits hle
  rw [List.length_drop] at hnext
  exact hnext

/-- How many bytes are left does not matter to the parser. -/
theorem Refines.remaining_step {f : ℕ → Reader ε α} (h : ∀ left, Refines (f left) q) :
    Refines (Reader.remaining >>= f) q :=
  fun bytes offset hfits hle => h (bytes.length - offset) bytes offset hfits hle

/-! ## Fields of a known slice -/

theorem run_byte_drop (short : ε) {i : ℕ} (h : i < bytes.length) :
    (Parser.byte short).run (bytes.drop i) = .ok (bytes[i], bytes.drop (i + 1)) := by
  rw [List.drop_eq_getElem_cons h]
  rfl

theorem run_take_drop (short : ε) {i : ℕ} (h : i + n ≤ bytes.length) :
    (Parser.take short n).run (bytes.drop i) =
      .ok ((bytes.take (i + n)).drop i, bytes.drop (i + n)) := by
  have htake : (Parser.take short n).run (bytes.drop i) =
      .ok ((bytes.drop i).take n, (bytes.drop i).drop n) :=
    if_pos (by rw [List.length_drop]; omega)
  rw [htake, List.take_drop, List.drop_drop]

/-- Input that is too short for a field and what must follow it. -/
theorem run_take_bind_short {short : ε} {k : ℕ} {f : List UInt8 → Parser ε α} {input : List UInt8}
    (h : ∀ field rest, rest.length < n → (f field).run rest = .error short)
    (hlen : input.length < k + n) :
    (Parser.take short k >>= f).run input = .error short := by
  rw [StateT.run_bind]
  by_cases hk : k ≤ input.length
  · have htake : (Parser.take short k).run input = .ok (input.take k, input.drop k) := if_pos hk
    rw [htake]
    exact h _ _ (by rw [List.length_drop]; omega)
  · have htake : (Parser.take short k).run input = .error short := if_neg hk
    rw [htake]
    rfl

/-- A check that both make. -/
theorem reject_bind_answers [Decidable condition] {error : ε} {x : Unit → Checked ε β}
    {f : Unit → Parser ε α} {finish : α × List UInt8 → Except ε β} {input : List UInt8}
    (h : ¬ condition → x () = Checked.answer ((f ()).run input >>= finish)) :
    (Checked.reject condition error >>= x) =
      Checked.answer ((Parser.reject condition error >>= f).run input >>= finish) := by
  unfold Checked.reject Parser.reject
  by_cases hc : condition
  · rw [if_pos hc, if_pos hc]
    rfl
  · rw [if_neg hc, if_neg hc]
    exact h hc

/-! ## Nested slices -/

theorem Refines.front {p : Reader ε α} (h : Refines p q) (hfits : bytes.length < 2 ^ 63) :
    front p bytes = Checked.answer (do
      let (a, _) ← q.run bytes
      return a) := by
  rcases h bytes 0 hfits (Nat.zero_le _) with ⟨error, hq, hp⟩ | ⟨a, last, -, hq, hp⟩
  · rw [List.drop_zero] at hq
    rw [Reader.front, hp, hq]
    rfl
  · rw [List.drop_zero] at hq
    rw [Reader.front, hp, hq]
    rfl

theorem Refines.wholeFrom {p : Reader ε α} (h : Refines p q) (trailing : ε)
    (hfits : bytes.length < 2 ^ 63) (hle : offset ≤ bytes.length) :
    wholeFrom trailing p bytes offset =
      Checked.answer (Parser.whole trailing q (bytes.drop offset)) := by
  rcases h bytes offset hfits hle with ⟨error, hq, hp⟩ | ⟨a, last, hlast, hq, hp⟩
  · rw [Reader.wholeFrom, hp, Parser.whole, hq]
    rfl
  · rw [Reader.wholeFrom, hp, Parser.whole, hq]
    show (if last = bytes.length then Pure.pure a else Checked.fail trailing) =
      Checked.answer (if (bytes.drop last).isEmpty = true then Pure.pure a else throw trailing)
    by_cases hend : last = bytes.length
    · rw [if_pos hend, if_pos (by rw [hend, List.drop_length]; rfl)]
      rfl
    · rw [if_neg hend, if_neg ?_]
      · rfl
      · rw [List.isEmpty_iff, List.drop_eq_nil_iff]
        omega

theorem Refines.whole {p : Reader ε α} (h : Refines p q) (trailing : ε)
    (hfits : bytes.length < 2 ^ 63) :
    whole trailing p bytes = Checked.answer (Parser.whole trailing q bytes) :=
  h.wholeFrom trailing hfits (Nat.zero_le _)

/-! ## Loops -/

variable {σ : Type}

theorem run_whileMoreFrom_end (step : σ → Reader ε σ) (bound : ℕ) (s : σ) (bytes : List UInt8) :
    (whileMoreFrom step bound s).run ⟨bytes, bytes.length⟩ = pure (s, ⟨bytes, bytes.length⟩) := by
  have hdone : decide (bytes.length = bytes.length) = true := decide_eq_true rfl
  rcases bound with _ | bound
  · show (if decide (bytes.length = bytes.length) = true then pure s else _ : Reader ε σ).run _ = _
    rw [if_pos hdone]
    rfl
  · show (if decide (bytes.length = bytes.length) = true then pure s else _ : Reader ε σ).run _ = _
    rw [if_pos hdone]
    rfl

theorem run_whileMoreFrom_more (step : σ → Reader ε σ) (bound : ℕ) (s : σ)
    (h : offset ≠ bytes.length) :
    (whileMoreFrom step (bound + 1) s).run ⟨bytes, offset⟩ =
      (step s >>= whileMoreFrom step bound).run ⟨bytes, offset⟩ := by
  show (if decide (offset = bytes.length) = true then pure s else _ : Reader ε σ).run _ = _
  rw [if_neg fun hdone => h (of_decide_eq_true hdone)]

theorem agree_whileMoreFrom_end (step : σ → Reader ε σ) (step' : σ → Parser ε σ) (bound : ℕ)
    (s : σ) (bytes : List UInt8) :
    Agree (whileMoreFrom step bound s) (Parser.whileMore step' s) bytes bytes.length := by
  refine .inr ⟨s, bytes.length, Nat.le_refl _, ?_, run_whileMoreFrom_end step bound s bytes⟩
  rw [List.drop_length]
  rfl

/-- **Loops in step.** A loop whose steps consume input ends, as the parser's does. -/
theorem Refines.whileMore {step : σ → Reader ε σ} {step' : σ → Parser ε σ}
    (h : ∀ s, Refines (step s) (step' s)) (hconsumes : ∀ s, Parser.Consumes (step' s)) (s : σ) :
    Refines (whileMore step s) (Parser.whileMore step' s) := by
  intro bytes offset hfits hle
  have hbound : ∀ bound s offset, offset ≤ bytes.length → bytes.length - offset ≤ bound →
      Agree (whileMoreFrom step bound s) (Parser.whileMore step' s) bytes offset := by
    intro bound
    induction bound with
    | zero =>
        intro s offset hle hbound
        obtain rfl : offset = bytes.length := by omega
        exact agree_whileMoreFrom_end step step' 0 s bytes
    | succ bound ih =>
        intro s offset hle hbound
        by_cases hend : offset = bytes.length
        · obtain rfl := hend
          exact agree_whileMoreFrom_end step step' (bound + 1) s bytes
        · have hparse : (Parser.whileMore step' s).run (bytes.drop offset) =
              (step' s >>= Parser.whileMore step').run (bytes.drop offset) := by
            rw [List.drop_eq_getElem_cons (show offset < bytes.length by omega)]
            exact Parser.whileMore_cons hconsumes s _ _
          unfold Agree
          rw [hparse, run_whileMoreFrom_more step bound s hend]
          refine (h s bytes offset hfits hle).bind fun s' last hlast hq => ih s' last hlast ?_
          have hlt := hconsumes s _ _ _ hq
          rw [List.length_drop, List.length_drop] at hlt
          omega
  exact hbound (bytes.length - offset) s offset hle (Nat.le_refl _)

/-- A step of the reader moves the cursor on, inside its slice. -/
def Advances (p : Reader ε α) : Prop :=
  ∀ bytes offset a cursor, bytes.length < 2 ^ 63 → offset ≤ bytes.length →
    p.run ⟨bytes, offset⟩ = pure (a, cursor) →
      cursor.bytes = bytes ∧ offset < cursor.offset ∧ cursor.offset ≤ bytes.length

theorem Refines.advances {p : Reader ε α} (h : Refines p q) (hconsumes : Parser.Consumes q) :
    Advances p := by
  intro bytes offset a cursor hfits hle hrun
  rcases h bytes offset hfits hle with ⟨error, hq, hp⟩ | ⟨b, last, hlast, hq, hp⟩
  · rw [hp] at hrun
    cases hrun
  · rw [hp] at hrun
    cases hrun
    have hlt := hconsumes _ _ _ hq
    rw [List.length_drop, List.length_drop] at hlt
    refine ⟨rfl, ?_, hlast⟩
    show offset < last
    omega

/-! ## Variable-length integers -/

theorem refines_readUvarintFrom (short invalid : ε) {count shift : ℕ} (h : shift + 7 * count ≤ 70)
    (value : UInt64) :
    Refines (readUvarintFrom short invalid count shift value)
      (Lib.readUvarintFrom short invalid count shift value) := by
  induction count generalizing shift value with
  | zero => exact Refines.fail invalid
  | succ count ih =>
      refine (refines_byte invalid short).bind fun b => ?_
      refine Refines.step (Checked.shiftLeft_of_lt (by omega)) ?_
      exact Refines.ite (fun _ => Refines.pure _) fun _ => ih (by omega) _

theorem refines_readUvarint (short invalid : ε) {maxBytes : ℕ} (h : maxBytes ≤ 10) :
    Refines (readUvarint short invalid maxBytes) (Lib.readUvarint short invalid maxBytes) :=
  Refines.step (Checked.mul_of_lt (by omega)) (refines_readUvarintFrom short invalid (by omega) 0)

theorem refines_unzigzag {w : ℕ} (hw : 1 < w) (value : BitVec w) :
    Refines (unzigzag value : Reader ε (BitVec w)) (pure (Lib.unzigzag value)) :=
  Refines.step (Checked.neg_and_one hw value) (Refines.pure _)

end Reader

end CharlotteBroker.Lib
