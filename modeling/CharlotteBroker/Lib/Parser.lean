import CharlotteBroker.Lib.BigEndian

/-!
# Parsers and printers of byte strings

A parser reads a prefix of its input and leaves the rest (`Parser`); a printer appends to what is
already written (`Printer`). Both may fail.

* `Exact p s V`: the parser accepts exactly the strings that spell a valid value, and reads
  exactly the spelling. It composes along sequences, checks and counted lists.
* `Reads p w a`: the parser reads the string `w` as `a`, whatever follows. This is what is left
  of exactness for formats with several spellings of one value.
* `Recognizes p s v`: the parser accepts exactly the spellings of a grammar, and reads each as its
  meaning. It carries over to loops that collect what they read.
* `Prints e V w`: the printer succeeds exactly when `V` holds, and then writes `w`.
-/

namespace CharlotteBroker.Lib

variable {ε α β : Type}

/-- A parser: it reads from the front of the input and keeps the rest. -/
abbrev Parser (ε : Type) : Type → Type := StateT (List UInt8) (Except ε)

namespace Parser

variable {p : Parser ε α} {f : α → Parser ε β} {input rest w w' : List UInt8} {a : α}
  {result : Except ε α}

/-! ## Sequencing -/

/-- Two parsers in a row succeed if the second does on what the first leaves. -/
theorem run_bind_ok {b : β} :
    (p >>= f).run input = .ok (b, rest) ↔
      ∃ a middle, p.run input = .ok (a, middle) ∧ (f a).run middle = .ok (b, rest) := by
  rw [StateT.run_bind]
  rcases p.run input with error | ⟨a, middle⟩
  · simp [bind, Except.bind]
  · simp [bind, Except.bind]

/-- A first step that succeeds. -/
theorem run_bind_of_ok (h : p.run input = .ok (a, rest)) :
    (p >>= f).run input = (f a).run rest := by
  rw [StateT.run_bind, h]
  rfl

/-- A first step that fails. -/
theorem run_bind_of_error {error : ε} (h : p.run input = .error error) :
    (p >>= f).run input = .error error := by
  rw [StateT.run_bind, h]
  rfl

theorem run_pure_ok {b : α} :
    (pure a : Parser ε α).run input = .ok (b, rest) ↔ a = b ∧ input = rest := by
  rw [StateT.run_pure]
  simp [pure, Except.pure]

theorem run_throw_ok {error : ε} :
    (throw error : Parser ε α).run input = .ok (a, rest) ↔ False := by
  rw [iff_false]
  exact fun h => by cases h

/-- Fails with `error` if the condition holds. -/
def reject (condition : Prop) [Decidable condition] (error : ε) : Parser ε Unit :=
  if condition then throw error else pure ()

/-- A guard succeeds if its condition is false, and takes nothing. -/
theorem run_reject_ok {condition : Prop} [Decidable condition] {error : ε} {u : Unit} :
    (reject condition error).run input = .ok (u, rest) ↔ ¬ condition ∧ input = rest := by
  unfold reject
  by_cases h : condition
  · rw [if_pos h, run_throw_ok]
    simp [h]
  · rw [if_neg h, run_pure_ok]
    simp [h]

theorem run_reject_pos {condition : Prop} [Decidable condition] (error : ε) (input : List UInt8)
    (h : condition) : (reject condition error).run input = .error error := by
  unfold reject
  rw [if_pos h]
  rfl

theorem run_reject_neg {condition : Prop} [Decidable condition] (error : ε) (input : List UInt8)
    (h : ¬ condition) : (reject condition error).run input = .ok ((), input) :=
  run_reject_ok.mpr ⟨h, rfl⟩

/-- A result computed apart from the input. -/
def ofExcept (result : Except ε α) : Parser ε α := StateT.lift result

theorem run_ofExcept_ok :
    (ofExcept result).run input = .ok (a, rest) ↔ result = .ok a ∧ input = rest := by
  unfold ofExcept
  rcases result with error | b
  · simp [StateT.lift, StateT.run, bind, Except.bind]
  · simp [StateT.lift, StateT.run, bind, Except.bind, pure, Except.pure]

/-! ## Bytes and numbers -/

/-- The next `n` bytes. -/
def take (short : ε) (n : ℕ) : Parser ε (List UInt8) := fun input =>
  if n ≤ input.length then .ok (input.take n, input.drop n) else .error short

/-- The bytes taken are the first ones. -/
theorem run_take_ok {short : ε} {n : ℕ} {bytes : List UInt8} :
    (take short n).run input = .ok (bytes, rest) ↔ bytes.length = n ∧ input = bytes ++ rest := by
  have hrun : (take short n).run input =
      if n ≤ input.length then .ok (input.take n, input.drop n) else .error short := rfl
  rw [hrun]
  constructor
  · intro h
    split at h
    · next hle =>
        cases h
        exact ⟨List.length_take_of_le hle, (List.take_append_drop n input).symm⟩
    · cases h
  · rintro ⟨rfl, rfl⟩
    simp

/-- The next byte. -/
def byte (short : ε) : Parser ε UInt8 := fun input =>
  match input with
  | [] => .error short
  | b :: rest => .ok (b, rest)

theorem run_byte_ok {short : ε} {b : UInt8} :
    (byte short).run input = .ok (b, rest) ↔ input = b :: rest := by
  rcases input with _ | ⟨first, others⟩
  · constructor
    · intro h
      cases h
    · intro h
      cases h
  · constructor
    · intro h
      cases h
      rfl
    · intro h
      cases h
      rfl

/-- The next `n` bytes as a big-endian number. -/
def word (short : ε) (n : ℕ) : Parser ε ℕ := do
  return beValue (← take short n)

/-- A number is read from its big-endian bytes. -/
theorem run_word_ok {short : ε} {n : ℕ} {v : ℕ} :
    (word short n).run input = .ok (v, rest) ↔ v < 256 ^ n ∧ input = beBytes n v ++ rest := by
  unfold word
  simp only [run_bind_ok, run_take_ok, run_pure_ok]
  constructor
  · rintro ⟨bytes, middle, ⟨rfl, rfl⟩, rfl, rfl⟩
    exact ⟨beValue_lt bytes, by rw [beBytes_beValue]⟩
  · rintro ⟨hlt, rfl⟩
    exact ⟨beBytes n v, rest, ⟨length_beBytes n v, rfl⟩, beValue_beBytes_of_lt hlt, rfl⟩

/-- The next `n` bytes as a big-endian machine word. -/
def bits (short : ε) (n : ℕ) : Parser ε (BitVec (8 * n)) := do
  return BitVec.ofNat (8 * n) (← word short n)

theorem run_bits_ok {short : ε} {n : ℕ} {v : BitVec (8 * n)} :
    (bits short n).run input = .ok (v, rest) ↔ input = beBytes n v.toNat ++ rest := by
  have hpow : 256 ^ n = 2 ^ (8 * n) := by rw [Nat.pow_mul]
  unfold bits
  simp only [run_bind_ok, run_word_ok, run_pure_ok]
  constructor
  · rintro ⟨value, middle, ⟨hlt, rfl⟩, rfl, rfl⟩
    rw [BitVec.toNat_ofNat, Nat.mod_eq_of_lt (hpow ▸ hlt)]
  · rintro rfl
    exact ⟨v.toNat, rest, ⟨hpow ▸ v.isLt, rfl⟩, by simp, rfl⟩

theorem run_get_ok {remaining : List UInt8} :
    (get : Parser ε (List UInt8)).run input = .ok (remaining, rest) ↔
      remaining = input ∧ input = rest := by
  constructor
  · intro h
    cases h
    exact ⟨rfl, rfl⟩
  · rintro ⟨rfl, rfl⟩
    rfl

/-- Everything has been read. -/
def done : Parser ε Bool := do
  return (← get).isEmpty

/-! ## Counted lists -/

/-- The parser run `n` times over. -/
def many (p : Parser ε α) : ℕ → Parser ε (List α)
  | 0 => return []
  | n + 1 => do
      let first ← p
      let others ← many p n
      return first :: others

/-! ## Exactness -/

/-- The parser accepts exactly the spellings `s a` of the valid values, whatever follows. -/
def Exact (p : Parser ε α) (s : α → List UInt8) (V : α → Prop) : Prop :=
  ∀ input a rest, p.run input = .ok (a, rest) ↔ V a ∧ input = s a ++ rest

/-- A list is read exactly if each of its items is. -/
theorem Exact.many {s : α → List UInt8} {V : α → Prop} (h : Exact p s V) (n : ℕ) :
    Exact (many p n) (fun items => items.flatMap s)
      (fun items => items.length = n ∧ ∀ a ∈ items, V a) := by
  induction n with
  | zero =>
      intro input items rest
      unfold Parser.many
      rw [run_pure_ok]
      constructor
      · rintro ⟨rfl, rfl⟩
        simp
      · rintro ⟨⟨hlen, -⟩, rfl⟩
        simp [List.length_eq_zero_iff.mp hlen]
  | succ n ih =>
      intro input items rest
      unfold Parser.many
      simp only [run_bind_ok, run_pure_ok, h _ _ _, ih _ _ _]
      constructor
      · rintro ⟨first, middle, ⟨hfirst, rfl⟩, others, end', ⟨⟨rfl, hothers⟩, rfl⟩, rfl, rfl⟩
        refine ⟨⟨rfl, ?_⟩, by simp⟩
        simpa [hfirst] using hothers
      · rintro ⟨⟨hlen, hall⟩, rfl⟩
        rcases items with _ | ⟨first, others⟩
        · cases hlen
        · refine ⟨first, _, ⟨hall first List.mem_cons_self, ?_⟩, others, rest,
            ⟨⟨Nat.succ.inj hlen, fun a ha => hall a (List.mem_cons_of_mem _ ha)⟩, rfl⟩, rfl, rfl⟩
          rw [List.flatMap_cons, List.append_assoc]

/-! ## Reading one string -/

/-- The parser reads `w` as `a`, whatever follows. -/
def Reads (p : Parser ε α) (w : List UInt8) (a : α) : Prop :=
  ∀ rest, p.run (w ++ rest) = .ok (a, rest)

/-- What is read exactly is read back. -/
theorem Exact.reads {s : α → List UInt8} {V : α → Prop} (h : Exact p s V) (ha : V a) :
    Reads p (s a) a :=
  fun rest => (h _ a rest).mpr ⟨ha, rfl⟩

/-- Spellings are unambiguous, also at the front of longer strings. -/
theorem Exact.inj {s : α → List UInt8} {V : α → Prop} (h : Exact p s V) {b : α} {rest' : List UInt8}
    (ha : V a) (hb : V b) (heq : s a ++ rest = s b ++ rest') :
    a = b ∧ rest = rest' := by
  have hread := (h (s a ++ rest) a rest).mpr ⟨ha, rfl⟩
  rw [heq, (h _ b rest').mpr ⟨hb, rfl⟩, Except.ok.injEq, Prod.mk.injEq] at hread
  exact ⟨hread.1.symm, hread.2.symm⟩

theorem Reads.pure (a : α) : Reads (pure a : Parser ε α) [] a := fun _ => rfl

/-- Two spellings in a row are read back in a row. -/
theorem Reads.bind {b : β} (h : Reads p w a) (h' : Reads (f a) w' b) :
    Reads (p >>= f) (w ++ w') b := by
  intro rest
  rw [List.append_assoc]
  exact run_bind_ok.mpr ⟨a, w' ++ rest, h _, h' rest⟩

/-- A step that reads nothing. -/
theorem Reads.bind_nil {b : β} (h : Reads p [] a) (h' : Reads (f a) w b) : Reads (p >>= f) w b :=
  h.bind h'

/-- A last step that reads nothing. -/
theorem Reads.bind_end {b : β} (h : Reads p w a) (h' : Reads (f a) [] b) : Reads (p >>= f) w b := by
  have hbind := h.bind h'
  rwa [List.append_nil] at hbind

theorem Reads.map (h : Reads p w a) (f : α → β) : Reads (f <$> p) w (f a) := by
  rw [map_eq_pure_bind]
  exact h.bind_end (Reads.pure _)

/-- A guard that passes reads nothing. -/
theorem Reads.reject {condition : Prop} [Decidable condition] (error : ε) (h : ¬ condition) :
    Reads (reject condition error) [] () :=
  fun _ => run_reject_ok.mpr ⟨h, rfl⟩

theorem Reads.ofExcept (h : result = .ok a) : Reads (Parser.ofExcept result) [] a :=
  fun _ => run_ofExcept_ok.mpr ⟨h, rfl⟩

theorem Reads.take (short : ε) (bytes : List UInt8) :
    Reads (take short bytes.length) bytes bytes :=
  fun _ => run_take_ok.mpr ⟨rfl, rfl⟩

theorem Reads.byte (short : ε) (b : UInt8) : Reads (byte short) [b] b := fun _ => rfl

/-- A counted list of readable items. -/
theorem Reads.many {p : Parser ε β} {s : α → List UInt8} {r : α → β} {items : List α}
    (h : ∀ item ∈ items, Reads p (s item) (r item)) :
    Reads (many p items.length) (items.flatMap s) (items.map r) := by
  induction items with
  | nil => exact Reads.pure []
  | cons first others ih =>
      have hothers := ih fun item hitem => h item (List.mem_cons_of_mem _ hitem)
      show Reads (_ >>= _) (s first ++ others.flatMap s) _
      exact (h first List.mem_cons_self).bind (hothers.bind_end (Reads.pure _))

/-- The parser reads the whole string. -/
theorem Reads.all (h : Reads p w a) : p.run w = .ok (a, []) := by
  have hrun := h []
  rwa [List.append_nil] at hrun

/-! ## Two readers of one format -/

/-- Whatever the first parser reads, the second reads from the same bytes, with a related result. -/
def Tracks (p : Parser ε α) (q : Parser ε β) (R : α → β → Prop) : Prop :=
  ∀ input a rest, p.run input = .ok (a, rest) → ∃ b, q.run input = .ok (b, rest) ∧ R a b

/-- A parser tracks itself. -/
theorem Tracks.refl (p : Parser ε α) : Tracks p p (· = ·) :=
  fun _ a _ h => ⟨a, h, rfl⟩

theorem Tracks.pure {R : α → β → Prop} {b : β} (h : R a b) :
    Tracks (pure a : Parser ε α) (pure b) R := by
  intro input a' rest hrun
  obtain ⟨rfl, rfl⟩ := run_pure_ok.mp hrun
  exact ⟨b, rfl, h⟩

/-- Parsers in a row track each other step by step. -/
theorem Tracks.bind {γ δ : Type} {q : Parser ε β} {f : α → Parser ε γ} {g : β → Parser ε δ}
    {R : α → β → Prop} {S : γ → δ → Prop} (h : Tracks p q R)
    (h' : ∀ a b, R a b → Tracks (f a) (g b) S) : Tracks (p >>= f) (q >>= g) S := by
  intro input c rest hrun
  obtain ⟨a, middle, ha, hc⟩ := run_bind_ok.mp hrun
  obtain ⟨b, hb, hab⟩ := h _ _ _ ha
  obtain ⟨d, hd, hcd⟩ := h' a b hab _ _ _ hc
  exact ⟨d, run_bind_ok.mpr ⟨b, middle, hb, hd⟩, hcd⟩

/-- A field both read. -/
theorem Tracks.field {γ δ : Type} (p : Parser ε α) {f : α → Parser ε γ} {g : α → Parser ε δ}
    {S : γ → δ → Prop} (h : ∀ a, Tracks (f a) (g a) S) : Tracks (p >>= f) (p >>= g) S :=
  (Tracks.refl p).bind fun a _ hab => hab ▸ h a

/-- A check only the first makes. -/
theorem Tracks.reject {condition : Prop} [Decidable condition] {error : ε} {q : Parser ε β}
    {R : α → β → Prop} (h : ¬ condition → Tracks p q R) :
    Tracks (reject condition error >>= fun _ => p) q R := by
  intro input a rest hrun
  obtain ⟨_, middle, hcheck, ha⟩ := run_bind_ok.mp hrun
  obtain ⟨hnot, rfl⟩ := run_reject_ok.mp hcheck
  exact h hnot _ _ _ ha

/-- A computation only the first makes. -/
theorem Tracks.ofExcept {γ : Type} {q : Parser ε γ} {R : β → γ → Prop}
    (h : ∀ a, result = .ok a → Tracks (f a) q R) :
    Tracks (Parser.ofExcept result >>= f) q R := by
  intro input b rest hrun
  obtain ⟨a, middle, ha, hb⟩ := run_bind_ok.mp hrun
  obtain ⟨hresult, rfl⟩ := run_ofExcept_ok.mp ha
  exact h a hresult _ _ _ hb

/-- Loops track each other if their rounds do. -/
theorem Tracks.many {q : Parser ε β} {R : α → β → Prop} (h : Tracks p q R) (n : ℕ) :
    Tracks (many p n) (many q n) (List.Forall₂ R) := by
  induction n with
  | zero => exact Tracks.pure List.Forall₂.nil
  | succ n ih =>
      exact h.bind fun a b hab => ih.bind fun _ _ hrest => Tracks.pure (.cons hab hrest)

/-! ## A family of readers -/

/-- Whatever the first parser reads, each parser of the family reads from the same bytes, or fails
on them, as a function says that is related to the result. -/
def Follows {κ : Type} (p : Parser ε α) (q : κ → Parser ε β) (R : α → (κ → Except ε β) → Prop) :
    Prop :=
  ∀ input a rest, p.run input = .ok (a, rest) →
    ∃ g, R a g ∧ ∀ k, (q k).run input = (g k).map (·, rest)

/-- A field all of them read. -/
theorem Follows.field {κ γ : Type} (p : Parser ε γ) {f : γ → Parser ε α} {q : κ → γ → Parser ε β}
    {R : α → (κ → Except ε β) → Prop} (h : ∀ c, Follows (f c) (fun k => q k c) R) :
    Follows (p >>= f) (fun k => p >>= q k) R := by
  intro input a rest hrun
  obtain ⟨c, middle, hc, ha⟩ := run_bind_ok.mp hrun
  obtain ⟨g, hg, hfollows⟩ := h c _ _ _ ha
  refine ⟨g, hg, fun k => ?_⟩
  rw [run_bind_of_ok hc]
  exact hfollows k

/-! ## What is read -/

/-- Whatever the parser reads satisfies the predicate. -/
def Yields (p : Parser ε α) (P : α → Prop) : Prop :=
  ∀ input a rest, p.run input = .ok (a, rest) → P a

/-- What is read exactly is valid. -/
theorem Exact.yields {s : α → List UInt8} {V : α → Prop} (h : Exact p s V) : Yields p V :=
  fun input a rest hrun => ((h input a rest).mp hrun).1

theorem Yields.pure {P : α → Prop} (h : P a) : Yields (pure a : Parser ε α) P := by
  intro input b rest hrun
  obtain ⟨rfl, -⟩ := run_pure_ok.mp hrun
  exact h

/-- The rule for parsers in a row. -/
theorem Yields.bind {Q : α → Prop} {P : β → Prop} (hp : Yields p Q)
    (h : ∀ a, Q a → Yields (f a) P) :
    Yields (p >>= f) P := by
  intro input b rest hrun
  obtain ⟨a, middle, ha, hb⟩ := run_bind_ok.mp hrun
  exact h a (hp _ _ _ ha) _ _ _ hb

/-- A step whose result is not looked at. -/
theorem Yields.skip {P : β → Prop} (h : ∀ a, Yields (f a) P) : Yields (p >>= f) P := by
  intro input b rest hrun
  obtain ⟨a, middle, -, hb⟩ := run_bind_ok.mp hrun
  exact h a _ _ _ hb

/-- What passes a check does not meet its condition. -/
theorem Yields.reject (condition : Prop) [Decidable condition] (error : ε) :
    Yields (reject condition error) fun _ => ¬ condition :=
  fun _ _ _ hrun => (run_reject_ok.mp hrun).1

/-- A counted list has that many items. -/
theorem Yields.many_length (p : Parser ε α) (n : ℕ) :
    Yields (many p n) fun items => items.length = n := by
  induction n with
  | zero => exact Yields.pure rfl
  | succ n ih => exact Yields.skip fun _ => ih.bind fun _ hlen => Yields.pure (congrArg _ hlen)

/-- Whatever the parser reads satisfies the predicate, and has taken at least its cost. -/
def Takes (p : Parser ε α) (P : α → Prop) (cost : α → ℕ) : Prop :=
  ∀ input a rest, p.run input = .ok (a, rest) → P a ∧ cost a + rest.length ≤ input.length

/-- A list takes what its items take. -/
theorem Takes.many {P : α → Prop} {cost : α → ℕ} (h : Takes p P cost) (n : ℕ) :
    Takes (many p n) (fun items => items.length = n ∧ ∀ a ∈ items, P a)
      (fun items => (items.map cost).sum) := by
  induction n with
  | zero =>
      intro input items rest hrun
      obtain ⟨rfl, rfl⟩ := run_pure_ok.mp hrun
      simp
  | succ n ih =>
      intro input items rest hrun
      obtain ⟨first, middle, hfirst, hrun⟩ := run_bind_ok.mp hrun
      obtain ⟨others, middle', hothers, hrun⟩ := run_bind_ok.mp hrun
      obtain ⟨rfl, rfl⟩ := run_pure_ok.mp hrun
      obtain ⟨hP, hcost⟩ := h _ _ _ hfirst
      obtain ⟨⟨hlen, hall⟩, hcosts⟩ := ih _ _ _ hothers
      refine ⟨⟨congrArg Nat.succ hlen, ?_⟩, ?_⟩
      · rw [List.forall_mem_cons]
        exact ⟨hP, hall⟩
      · simp only [List.map_cons, List.sum_cons] at hcosts ⊢
        omega

/-! ## Whole strings -/

/-- The parser run over a string of its own, of which nothing may be left. -/
def whole (trailing : ε) (p : Parser ε α) (bytes : List UInt8) : Except ε α := do
  let (a, rest) ← p.run bytes
  if rest.isEmpty then return a else throw trailing

/-- Nothing may be left over. -/
theorem whole_eq_ok {trailing : ε} {bytes : List UInt8} :
    whole trailing p bytes = .ok a ↔ p.run bytes = .ok (a, []) := by
  unfold whole
  rcases p.run bytes with error | ⟨b, _ | ⟨first, rest⟩⟩
  · simp [bind, Except.bind]
  · simp [bind, Except.bind, pure, Except.pure]
  · simp [bind, Except.bind, throw, throwThe, MonadExceptOf.throw]

theorem Reads.whole (h : Reads p w a) (trailing : ε) : whole trailing p w = .ok a :=
  whole_eq_ok.mpr h.all

theorem Yields.whole {P : α → Prop} (h : Yields p P) (trailing : ε) (bytes : List UInt8) :
    Yields (Parser.ofExcept (whole trailing p bytes)) P := by
  intro input a rest hrun
  obtain ⟨hwhole, -⟩ := run_ofExcept_ok.mp hrun
  exact h _ _ _ (whole_eq_ok.mp hwhole)

/-- Strings read whole by two readers of one format. -/
theorem Tracks.whole {q : Parser ε β} {R : α → β → Prop} {trailing : ε} {bytes : List UInt8}
    (h : Tracks p q R) :
    Tracks (Parser.ofExcept (whole trailing p bytes)) (Parser.ofExcept (whole trailing q bytes))
      R := by
  intro input a rest hrun
  obtain ⟨hwhole, rfl⟩ := run_ofExcept_ok.mp hrun
  obtain ⟨b, hb, hab⟩ := h _ _ _ (whole_eq_ok.mp hwhole)
  exact ⟨b, run_ofExcept_ok.mpr ⟨whole_eq_ok.mpr hb, rfl⟩, hab⟩

theorem Follows.whole {κ : Type} {q : κ → Parser ε β} {R : α → (κ → Except ε β) → Prop}
    {trailing : ε} {bytes : List UInt8} (h : Follows p q R) :
    Follows (Parser.ofExcept (whole trailing p bytes))
      (fun k => Parser.ofExcept (whole trailing (q k) bytes)) R := by
  intro input a rest hrun
  obtain ⟨hwhole, rfl⟩ := run_ofExcept_ok.mp hrun
  obtain ⟨g, hg, hfollows⟩ := h _ _ _ (whole_eq_ok.mp hwhole)
  refine ⟨g, hg, fun k => ?_⟩
  simp only [Parser.whole, hfollows k]
  rcases g k with error | b
  · rfl
  · rfl

/-! ## Loops

`whileMore step` repeats a step as long as there is input. The recursion is on a bound for the
number of steps; a step that consumes input makes the bound irrelevant (`whileMore_cons`). -/

variable {σ : Type}

/-- The loop, of at most the given number of steps. -/
def whileMoreFrom (step : σ → Parser ε σ) : ℕ → σ → Parser ε σ
  | 0, s => return s
  | bound + 1, s => do
      if ← done then return s
      else
        let s ← step s
        whileMoreFrom step bound s

/-- Repeats the step as long as there is input. -/
def whileMore (step : σ → Parser ε σ) (s : σ) : Parser ε σ := fun input =>
  (whileMoreFrom step input.length s).run input

/-- The parser reads at least one byte. -/
def Consumes (p : Parser ε α) : Prop :=
  ∀ input a rest, p.run input = .ok (a, rest) → rest.length < input.length

theorem Consumes.bind_pure (h : Consumes p) (f : α → β) : Consumes (p >>= fun a => pure (f a)) := by
  intro input b rest hrun
  obtain ⟨a, middle, hp, hpure⟩ := run_bind_ok.mp hrun
  obtain ⟨-, rfl⟩ := run_pure_ok.mp hpure
  exact h _ _ _ hp

theorem run_whileMoreFrom_cons (step : σ → Parser ε σ) (bound : ℕ) (s : σ) (b : UInt8)
    (input : List UInt8) :
    (whileMoreFrom step (bound + 1) s).run (b :: input) =
      (step s >>= whileMoreFrom step bound).run (b :: input) := rfl

/-- Any two bounds that are long enough give the same loop. -/
theorem run_whileMoreFrom_congr {step : σ → Parser ε σ} (h : ∀ s, Consumes (step s))
    {bound bound' : ℕ} {s : σ} (hle : input.length ≤ bound) (hle' : input.length ≤ bound') :
    (whileMoreFrom step bound s).run input = (whileMoreFrom step bound' s).run input := by
  induction bound generalizing bound' s input with
  | zero =>
      rw [List.length_eq_zero_iff.mp (Nat.le_zero.mp hle)]
      rcases bound' with _ | bound'
      · rfl
      · rfl
  | succ bound ih =>
      rcases input with _ | ⟨b, input⟩
      · rcases bound' with _ | bound'
        · rfl
        · rfl
      · obtain ⟨bound', rfl⟩ := Nat.exists_eq_add_of_le' (Nat.zero_lt_of_lt hle')
        rw [run_whileMoreFrom_cons, run_whileMoreFrom_cons, StateT.run_bind, StateT.run_bind]
        rcases hstep : (step s).run (b :: input) with error | ⟨s', rest⟩
        · rfl
        · -- both sides go on with what the step left, for which either bound is enough
          have hlt := h s _ _ _ hstep
          exact ih (s := s') (show rest.length ≤ bound by omega)
            (show rest.length ≤ bound' by omega)

/-- The loop goes on while there is input. -/
theorem whileMore_cons {step : σ → Parser ε σ} (h : ∀ s, Consumes (step s)) (s : σ) (b : UInt8)
    (input : List UInt8) :
    (whileMore step s).run (b :: input) = (step s >>= whileMore step).run (b :: input) := by
  have hrun : (whileMore step s).run (b :: input) =
      (step s >>= whileMoreFrom step input.length).run (b :: input) := rfl
  rw [hrun, StateT.run_bind, StateT.run_bind]
  rcases hstep : (step s).run (b :: input) with error | ⟨s', rest⟩
  · rfl
  · have hlt := h s _ _ _ hstep
    rw [List.length_cons] at hlt
    exact run_whileMoreFrom_congr h (Nat.le_of_lt_succ hlt) (Nat.le_refl _)

theorem whileMore_of_ne_nil {step : σ → Parser ε σ} (h : ∀ s, Consumes (step s)) (s : σ)
    (hne : input ≠ []) :
    (whileMore step s).run input = (step s >>= whileMore step).run input := by
  rcases input with _ | ⟨b, input⟩
  · exact absurd rfl hne
  · exact whileMore_cons h s b input

/-- Input that one step reads to its end. -/
theorem run_whileMore_once {step : σ → Parser ε σ} (h : ∀ s, Consumes (step s)) {s s' : σ}
    (hrun : (step s).run input = .ok (s', [])) :
    (whileMore step s).run input = .ok (s', []) := by
  rcases input with _ | ⟨b, input⟩
  · exact absurd (h _ _ _ _ hrun) (Nat.lt_irrefl 0)
  · rw [whileMore_cons h]
    exact run_bind_ok.mpr ⟨s', [], hrun, rfl⟩

/-- **Induction along a loop.** A fact about the end of the input that each step hands back from
what it leaves. -/
theorem whileMore_induction {step : σ → Parser ε σ} (h : ∀ s, Consumes (step s))
    {P : σ → List UInt8 → Prop} (hnil : ∀ s, P s [])
    (hcons : ∀ s b input, (∀ s' rest, (step s).run (b :: input) = .ok (s', rest) → P s' rest) →
      P s (b :: input)) (s : σ) (input : List UInt8) : P s input := by
  induction hlen : input.length using Nat.strong_induction_on generalizing s input with
  | _ len ih =>
      rcases input with _ | ⟨b, input⟩
      · exact hnil s
      · refine hcons s b input fun s' rest hstep => ?_
        exact ih rest.length (hlen ▸ h s _ _ _ hstep) s' rest rfl

/-- A loop that ends has read everything. -/
theorem eq_nil_of_whileMore {step : σ → Parser ε σ} (h : ∀ s, Consumes (step s)) {s s' : σ}
    (hrun : (whileMore step s).run input = .ok (s', rest)) :
    rest = [] := by
  induction s, input using whileMore_induction h with
  | hnil s =>
      obtain ⟨-, rfl⟩ := run_pure_ok.mp hrun
      rfl
  | hcons s b input ih =>
      rw [whileMore_cons h] at hrun
      obtain ⟨t, middle, hstep, hloop⟩ := run_bind_ok.mp hrun
      exact ih t middle hstep hloop

/-- What the parser reads does not depend on what follows it. -/
def Local (p : Parser ε α) : Prop :=
  ∀ input a rest more, p.run input = .ok (a, rest) → p.run (input ++ more) = .ok (a, rest ++ more)

/-- **A loop over two strings** goes on over the second from where it was after the first. -/
theorem run_whileMore_append {step : σ → Parser ε σ} (h : ∀ s, Consumes (step s))
    (hlocal : ∀ s, Local (step s)) {s s' : σ} (more : List UInt8)
    (hrun : (whileMore step s).run input = .ok (s', rest)) :
    (whileMore step s).run (input ++ more) = (whileMore step s').run more := by
  induction s, input using whileMore_induction h with
  | hnil s =>
      obtain ⟨rfl, -⟩ := run_pure_ok.mp hrun
      rfl
  | hcons s b input ih =>
      rw [whileMore_cons h] at hrun
      obtain ⟨t, middle, hstep, hloop⟩ := run_bind_ok.mp hrun
      rw [List.cons_append, whileMore_cons h, ← List.cons_append,
        run_bind_of_ok (hlocal s _ _ _ more hstep)]
      exact ih t middle hstep hloop

/-- **Loops in step.** Two loops whose steps keep their states related. -/
theorem Tracks.whileMore {τ : Type} {step : σ → Parser ε σ} {step' : τ → Parser ε τ}
    {R : σ → τ → Prop} (h : ∀ s t, R s t → Tracks (step s) (step' t) R) {s : σ} {t : τ}
    (hst : R s t) : Tracks (whileMore step s) (whileMore step' t) R := by
  have hbound : ∀ (bound : ℕ) (s : σ) (t : τ), R s t →
      Tracks (whileMoreFrom step bound s) (whileMoreFrom step' bound t) R := by
    intro bound
    induction bound with
    | zero => exact fun s t hst => Tracks.pure hst
    | succ bound ih =>
        intro s t hst
        refine Tracks.field _ fun isDone => ?_
        rcases isDone with _ | _
        · exact (h s t hst).bind fun s' t' hst' => ih s' t' hst'
        · exact Tracks.pure hst
  exact fun input a rest hrun => hbound input.length s t hst _ _ _ hrun

/-! ## Grammars

A grammar is a type of derivations, each with its spelling and its meaning. Several derivations may
have the same meaning. -/

variable {μ : Type}

/-- The parser accepts exactly the spellings of a grammar, and reads each as its meaning. -/
def Recognizes (p : Parser ε α) (s : μ → List UInt8) (v : μ → α) : Prop :=
  ∀ input a rest, p.run input = .ok (a, rest) ↔ ∃ m, a = v m ∧ input = s m ++ rest

theorem Recognizes.spelling_ne_nil {s : μ → List UInt8} {v : μ → α} (h : Recognizes p s v)
    (hp : Consumes p) (m : μ) : s m ≠ [] := by
  intro hnil
  have hrun := (h [] (v m) []).mpr ⟨m, rfl, by rw [hnil]; rfl⟩
  exact absurd (hp _ _ _ hrun) (Nat.lt_irrefl 0)

/-- The items read so far, with one more. -/
def collect (p : Parser ε α) (items : List α) : Parser ε (List α) := do
  let item ← p
  return items ++ [item]

theorem consumes_collect (hp : Consumes p) (items : List α) : Consumes (collect p items) :=
  hp.bind_pure _

/-- **A loop that collects** accepts exactly the sequences of what its step accepts. -/
theorem Recognizes.whileMore_collect {p : Parser ε α} {s : μ → List UInt8} {v : μ → α}
    (h : Recognizes p s v) (hp : Consumes p) {items all : List α} {input rest : List UInt8} :
    (whileMore (collect p) items).run input = .ok (all, rest) ↔
      ∃ ms : List μ, all = items ++ ms.map v ∧ input = ms.flatMap s ∧ rest = [] := by
  constructor
  · intro hrun
    induction items, input using whileMore_induction (consumes_collect hp) with
    | hnil items =>
        obtain ⟨rfl, rfl⟩ := run_pure_ok.mp hrun
        exact ⟨[], (List.append_nil _).symm, rfl, rfl⟩
    | hcons items b input ih =>
        rw [whileMore_cons (consumes_collect hp)] at hrun
        obtain ⟨items', middle, hstep, hloop⟩ := run_bind_ok.mp hrun
        obtain ⟨ms, rfl, rfl, rfl⟩ := ih items' middle hstep hloop
        obtain ⟨a, _, hitem, hpure⟩ := run_bind_ok.mp hstep
        obtain ⟨rfl, rfl⟩ := run_pure_ok.mp hpure
        obtain ⟨m, rfl, hinput⟩ := (h _ _ _).mp hitem
        exact ⟨m :: ms, by simp, by rw [hinput, List.flatMap_cons], rfl⟩
  · rintro ⟨ms, rfl, rfl, rfl⟩
    induction ms generalizing items with
    | nil =>
        rw [List.map_nil, List.append_nil]
        rfl
    | cons m ms ih =>
        have hne : (m :: ms).flatMap s ≠ [] := by
          rw [List.flatMap_cons]
          exact List.append_ne_nil_of_left_ne_nil (h.spelling_ne_nil hp m) _
        have hstep : (collect p items).run ((m :: ms).flatMap s) =
            .ok (items ++ [v m], ms.flatMap s) :=
          run_bind_ok.mpr ⟨v m, _, (h _ _ _).mpr ⟨m, rfl, List.flatMap_cons⟩, rfl⟩
        rw [whileMore_of_ne_nil (consumes_collect hp) _ hne, run_bind_of_ok hstep, ih, List.map_cons,
          List.append_assoc, List.singleton_append]

end Parser

/-! ## Printers -/

/-- A printer: it appends to what has been written. -/
abbrev Printer (ε : Type) : Type → Type := StateT (List UInt8) (Except ε)

namespace Printer

/-- Appends bytes. -/
def put (bytes : List UInt8) : Printer ε Unit := modify (· ++ bytes)

/-- Fails with `error` if the condition holds. -/
def refuse (condition : Prop) [Decidable condition] (error : ε) : Printer ε Unit :=
  if condition then throw error else pure ()

/-- The printer succeeds exactly when `V` holds, and then appends `w`. -/
def Prints (e : Printer ε Unit) (V : Prop) (w : List UInt8) : Prop :=
  ∀ written r, e.run written = .ok r ↔ V ∧ r = ((), written ++ w)

theorem Prints.put (bytes : List UInt8) : Prints (put bytes : Printer ε Unit) True bytes := by
  intro written r
  unfold Printer.put
  constructor
  · intro h
    cases h
    exact ⟨trivial, rfl⟩
  · rintro ⟨-, rfl⟩
    rfl

theorem Prints.pure : Prints (pure () : Printer ε Unit) True [] := by
  intro written r
  rw [List.append_nil]
  constructor
  · intro h
    cases h
    exact ⟨trivial, rfl⟩
  · rintro ⟨-, rfl⟩
    rfl

/-- A guard lets through what it does not refuse. -/
theorem Prints.refuse {condition : Prop} [Decidable condition] (error : ε) :
    Prints (refuse condition error) (¬ condition) [] := by
  intro written r
  unfold Printer.refuse
  by_cases h : condition
  · rw [if_pos h]
    simp only [h, not_true_eq_false, false_and, iff_false]
    exact fun hthrow => by cases hthrow
  · rw [if_neg h]
    simp only [h, not_false_eq_true, true_and]
    exact (Prints.pure written r).trans (by simp)

/-- Two printers in a row print if both do. -/
theorem Prints.seq {e : Printer ε Unit} {f : Unit → Printer ε Unit} {V V' : Prop}
    {w w' : List UInt8} (h : Prints e V w) (h' : Prints (f ()) V' w') :
    Prints (e >>= f) (V ∧ V') (w ++ w') := by
  intro written r
  obtain ⟨⟨⟩, final⟩ := r
  rw [← List.append_assoc]
  refine (Parser.run_bind_ok (p := e) (f := f)).trans ?_
  constructor
  · rintro ⟨⟨⟩, middle, hfirst, hsecond⟩
    obtain ⟨hV, hmiddle⟩ := (h written _).mp hfirst
    obtain ⟨hV', hfinal⟩ := (h' middle _).mp hsecond
    rw [Prod.mk.injEq] at hmiddle
    rw [hfinal, hmiddle.2]
    exact ⟨⟨hV, hV'⟩, rfl⟩
  · rintro ⟨⟨hV, hV'⟩, hfinal⟩
    exact ⟨(), written ++ w, (h written _).mpr ⟨hV, rfl⟩, (h' _ _).mpr ⟨hV', hfinal⟩⟩

/-- A step whose check always passes. -/
theorem Prints.andThen {e : Printer ε Unit} {f : Unit → Printer ε Unit} {V : Prop}
    {w w' : List UInt8} (h : Prints e True w) (h' : Prints (f ()) V w') :
    Prints (e >>= f) V (w ++ w') := by
  have hseq := h.seq h'
  rwa [true_and] at hseq

/-- A check before steps that always pass. -/
theorem Prints.thenFixed {e : Printer ε Unit} {f : Unit → Printer ε Unit} {V : Prop}
    {w w' : List UInt8} (h : Prints e V w) (h' : Prints (f ()) True w') :
    Prints (e >>= f) V (w ++ w') := by
  have hseq := h.seq h'
  rwa [and_true] at hseq

/-- The printer run for each item of a list. -/
def each (items : List α) (e : α → Printer ε Unit) : Printer ε Unit :=
  match items with
  | [] => return ()
  | item :: rest => do
      e item
      each rest e

/-- A list is printed if each of its items is. -/
theorem Prints.each {e : α → Printer ε Unit} {V : α → Prop} {s : α → List UInt8}
    (h : ∀ item, Prints (e item) (V item) (s item)) (items : List α) :
    Prints (each items e) (∀ item ∈ items, V item) (items.flatMap s) := by
  induction items with
  | nil =>
      simp only [List.not_mem_nil, false_implies, implies_true]
      exact Prints.pure
  | cons item rest ih =>
      simp only [List.mem_cons, forall_eq_or_imp, List.flatMap_cons]
      exact (h item).seq ih

/-- Runs a printer on a buffer of its own and goes on with what it wrote. -/
def nested (e : Printer ε Unit) (next : List UInt8 → Printer ε Unit) : Printer ε Unit :=
  fun written => do
    let ((), inner) ← e.run []
    (next inner).run written

/-- What is printed inside is handed on. -/
theorem Prints.nested {e : Printer ε Unit} {next : List UInt8 → Printer ε Unit} {V V' : Prop}
    {w w' : List UInt8} (h : Prints e V w) (h' : Prints (next w) V' w') :
    Prints (nested e next) (V ∧ V') w' := by
  intro written r
  have hrun : (Printer.nested e next).run written =
      (e.run []).bind fun inner => (next inner.2).run written := rfl
  rw [hrun]
  rcases he : e.run [] with error | inner
  · simp only [Except.bind, reduceCtorEq, false_iff]
    rintro ⟨⟨hV, -⟩, -⟩
    rw [(h [] _).mpr ⟨hV, rfl⟩] at he
    cases he
  · obtain ⟨hV, rfl⟩ := (h [] inner).mp he
    simp only [Except.bind, List.nil_append, hV, true_and]
    exact h' written r

/-- Goes on with a result computed apart, or fails as it did. -/
def within (result : Except ε α) (next : α → Printer ε Unit) : Printer ε Unit := fun written =>
  result.bind fun a => (next a).run written

theorem Prints.within {result : Except ε α} {next : α → Printer ε Unit} {V V' : Prop} {a : α}
    {w : List UInt8} (h : ∀ b, result = .ok b ↔ V ∧ b = a) (h' : Prints (next a) V' w) :
    Prints (within result next) (V ∧ V') w := by
  intro written r
  have hrun : (Printer.within result next).run written =
      result.bind fun a => (next a).run written := rfl
  rw [hrun]
  rcases hresult : result with error | b
  · simp only [Except.bind, reduceCtorEq, false_iff]
    rintro ⟨⟨hV, -⟩, -⟩
    rw [(h a).mpr ⟨hV, rfl⟩] at hresult
    cases hresult
  · obtain ⟨hV, rfl⟩ := (h b).mp hresult
    simp only [Except.bind, hV, true_and]
    exact h' written r

theorem Prints.congr {e : Printer ε Unit} {V V' : Prop} {w w' : List UInt8} (h : Prints e V w)
    (hV : V ↔ V') (hw : w = w') : Prints e V' w' := by
  intro written r
  rw [← hV, ← hw]
  exact h written r

/-- The printer fails with this error, or not at all. -/
def FailsOnly (e : Printer ε α) (error : ε) : Prop :=
  ∀ written x, e.run written = .error x → x = error

section FailsOnly

variable {error : ε}

theorem FailsOnly.put (bytes : List UInt8) : FailsOnly (put bytes) error := by
  intro written x h
  cases h

theorem FailsOnly.refuse {condition : Prop} [Decidable condition] :
    FailsOnly (refuse condition error) error := by
  intro written x h
  unfold Printer.refuse at h
  split at h
  · cases h
    rfl
  · cases h

/-- Printers in a row fail only with what both fail with. -/
theorem FailsOnly.seq {e : Printer ε α} {f : α → Printer ε β} (h : FailsOnly e error)
    (h' : ∀ a, FailsOnly (f a) error) : FailsOnly (e >>= f) error := by
  intro written x hrun
  rw [StateT.run_bind] at hrun
  rcases he : e.run written with y | ⟨a, middle⟩
  · rw [he] at hrun
    cases hrun
    exact h written x he
  · rw [he] at hrun
    exact h' a middle x hrun

/-- A list fails only with what its items fail with. -/
theorem FailsOnly.each {e : α → Printer ε Unit} {items : List α}
    (h : ∀ item ∈ items, FailsOnly (e item) error) : FailsOnly (each items e) error := by
  induction items with
  | nil => exact fun _ _ hrun => nomatch hrun
  | cons item rest ih =>
      exact (h item List.mem_cons_self).seq fun _ =>
        ih fun item' hitem' => h item' (List.mem_cons_of_mem _ hitem')

theorem FailsOnly.within {result : Except ε α} {next : α → Printer ε Unit}
    (h : ∀ x, result = .error x → x = error) (h' : ∀ a, FailsOnly (next a) error) :
    FailsOnly (within result next) error := by
  intro written x hrun
  rcases result with y | a
  · cases hrun
    exact h x rfl
  · exact h' a written x hrun

theorem FailsOnly.nested {e : Printer ε Unit} {next : List UInt8 → Printer ε Unit}
    (h : FailsOnly e error) (h' : ∀ inner, FailsOnly (next inner) error) :
    FailsOnly (nested e next) error := by
  intro written x hrun
  have heq : (Printer.nested e next).run written =
      (e.run []).bind fun inner => (next inner.2).run written := rfl
  rw [heq] at hrun
  rcases he : e.run [] with y | inner
  · rw [he] at hrun
    cases hrun
    exact h [] x he
  · rw [he] at hrun
    exact h' inner.2 written x hrun

end FailsOnly

end Printer

end CharlotteBroker.Lib
