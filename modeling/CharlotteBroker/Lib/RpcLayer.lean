import CharlotteBroker.Lib.RpcHistory

/-!
# Services on top of services

A front end whose requests are handled by calls to a service below it, one after the other, each
chosen by what came back before: a `Script`. Taking every call apart into its own commands gives a
service again (`Service.layer`), with the same servers. Many threads run it, and their commands
interleave in any order.

`Runs.layered`: every run of the front end is a run of the service below. It has the same inner
events in the same order, and every thread makes there, between the invocation and the return of a
request, the calls of the request's script, with the results the script went by. So what holds of
all runs of the service below holds of the front end's calls, and real time between requests is real
time between their calls.
-/

namespace CharlotteBroker.Lib

/-! ## Scripts -/

/-- Calls made one after the other, each chosen by what came back before. -/
inductive Script (Call Ret α : Type) : Type
  | ret (a : α)
  | call (c : Call) (k : Ret → Script Call Ret α)

namespace Script

variable {Call Ret α β ι Cmd Res : Type}

variable {s : Script Call Ret α} {f : α → Script Call Ret β} {made : List (Call × Ret)}
  {P : α → Prop}

/-- Sequencing. -/
def bind : Script Call Ret α → (α → Script Call Ret β) → Script Call Ret β
  | ret a, f => f a
  | call c k, f => call c fun r => (k r).bind f

instance : Monad (Script Call Ret) where
  pure := ret
  bind := bind

protected theorem id_map (s : Script Call Ret α) : id <$> s = s := by
  induction s with
  | ret a => rfl
  | call c k ih => exact congrArg (call c) (funext ih)

protected theorem bind_assoc {γ : Type} (s : Script Call Ret α) (f : α → Script Call Ret β)
    (g : β → Script Call Ret γ) : s >>= f >>= g = s >>= fun a => f a >>= g := by
  induction s with
  | ret a => rfl
  | call c k ih => exact congrArg (call c) (funext ih)

instance : LawfulMonad (Script Call Ret) :=
  .mk' _ Script.id_map (fun _ _ => rfl) Script.bind_assoc

/-- One call. -/
def ask (c : Call) : Script Call Ret Ret := call c ret

/-- The script with every call taken apart. -/
def prog (program : Call → Prog ι Cmd Res Ret) : Script Call Ret α → Prog ι Cmd Res α
  | ret a => .ret a
  | call c k => (program c).bind fun r => (k r).prog program

/-- The program of scripts in a row is their programs in a row. -/
theorem prog_bind (program : Call → Prog ι Cmd Res Ret) (s : Script Call Ret α)
    (f : α → Script Call Ret β) :
    (s >>= f).prog program = s.prog program >>= fun a => (f a).prog program := by
  induction s with
  | ret a => rfl
  | call c k ih =>
      refine (congrArg (program c).bind (funext ih)).trans ?_
      exact (Prog.bind_assoc (program c) _ _).symm

/-- The program of a mapped script is mapped. -/
theorem prog_map (program : Call → Prog ι Cmd Res Ret) (s : Script Call Ret α) (f : α → β) :
    (f <$> s).prog program = f <$> s.prog program := by
  rw [map_eq_pure_bind, prog_bind, map_eq_pure_bind]
  rfl

/-- The program of one call is the call's. -/
theorem prog_ask (program : Call → Prog ι Cmd Res Ret) (c : Call) :
    (ask c).prog program = program c :=
  bind_pure (program c)

/-- The program of a loop is the loop of the programs. -/
theorem prog_mapM (program : Call → Prog ι Cmd Res Ret) (items : List α)
    (f : α → Script Call Ret β) :
    (items.mapM f).prog program = items.mapM fun a => (f a).prog program := by
  induction items with
  | nil => rfl
  | cons a items ih =>
      rw [List.mapM_cons, List.mapM_cons, prog_bind]
      refine congrArg (_ >>= ·) (funext fun b => ?_)
      rw [prog_bind, ih]
      rfl

/-- After the calls with these results, the script stands at `q`. -/
def Plays : Script Call Ret α → List (Call × Ret) → Script Call Ret α → Prop
  | s, [], q => s = q
  | call c k, made :: rest, q => made.1 = c ∧ (k made.2).Plays rest q
  | ret _, _ :: _, _ => False

/-- Without calls a script stays where it is. -/
@[simp] theorem plays_nil (s q : Script Call Ret α) : s.Plays [] q ↔ s = q := by
  cases s <;> rfl

/-- Calls made in a row, the first of the second part given apart. -/
theorem Plays.append {q : Script Call Ret α} {c : Call} {k : Ret → Script Call Ret α}
    {rest : List (Call × Ret)} (h : s.Plays made (call c k)) {r : Ret}
    (hrest : (k r).Plays rest q) :
    s.Plays (made ++ (c, r) :: rest) q := by
  induction made generalizing s with
  | nil =>
      obtain rfl := (plays_nil _ _).mp h
      exact ⟨rfl, hrest⟩
  | cons first made ih =>
      cases s with
      | ret a => exact h.elim
      | call c' k' => exact ⟨h.1, ih h.2⟩

/-- A script at its end makes no more calls. -/
theorem Plays.of_ret {a b : α} (h : (ret a : Script Call Ret α).Plays made (ret b)) :
    made = [] ∧ a = b := by
  cases made with
  | nil =>
      cases (plays_nil _ _).mp h
      exact ⟨rfl, rfl⟩
  | cons first made => exact h.elim

/-- A script in two parts makes its calls in two parts. -/
theorem Plays.of_bind {b : β} (h : (s >>= f).Plays made (ret b)) :
    ∃ first second a, made = first ++ second ∧ s.Plays first (ret a) ∧
      (f a).Plays second (ret b) := by
  induction s generalizing made with
  | ret a => exact ⟨[], made, a, rfl, (plays_nil _ _).mpr rfl, h⟩
  | call c k ih =>
      cases made with
      | nil => cases (plays_nil _ _).mp h
      | cons first made =>
          obtain ⟨before, after, a, rfl, hfirst, hsecond⟩ := ih first.2 h.2
          exact ⟨first :: before, after, a, rfl, ⟨h.1, hfirst⟩, hsecond⟩

/-- A mapped script makes the calls of the script. -/
theorem Plays.of_map {f : α → β} {b : β} (h : (f <$> s).Plays made (ret b)) :
    ∃ a, s.Plays made (ret a) ∧ f a = b := by
  rw [map_eq_pure_bind] at h
  obtain ⟨first, second, a, rfl, hfirst, hsecond⟩ := h.of_bind
  obtain ⟨rfl, rfl⟩ := hsecond.of_ret
  exact ⟨a, by rwa [List.append_nil], rfl⟩

/-- A script makes its calls when it is mapped, too. -/
theorem Plays.map {a : α} (h : s.Plays made (ret a)) (f : α → β) :
    (f <$> s).Plays made (ret (f a)) := by
  rw [map_eq_pure_bind]
  induction made generalizing s with
  | nil =>
      obtain rfl := (plays_nil _ _).mp h
      exact (plays_nil _ _).mpr rfl
  | cons first made ih =>
      cases s with
      | ret a => exact h.elim
      | call c k => exact ⟨h.1, ih h.2⟩

/-- One call is made, and its result is the answer. -/
theorem Plays.of_ask {c : Call} {r : Ret} (h : (ask c).Plays made (ret r)) : made = [(c, r)] := by
  cases made with
  | nil => cases (plays_nil _ _).mp h
  | cons first made =>
      obtain ⟨first, r'⟩ := first
      obtain ⟨rfl, hrest⟩ := h
      obtain ⟨rfl, rfl⟩ := hrest.of_ret
      rfl

/-- Whatever the calls return, the script ends in a value with the property. -/
def Ends (P : α → Prop) : Script Call Ret α → Prop
  | ret a => P a
  | call _ k => ∀ r, (k r).Ends P

/-- The rule for scripts in a row. -/
theorem Ends.bind {Q : β → Prop} (hs : s.Ends P) (hf : ∀ a, P a → (f a).Ends Q) :
    (s >>= f).Ends Q := by
  induction s with
  | ret a => exact hf a hs
  | call c k ih => exact fun r => ih r (hs r)

/-- A weaker property of the results. -/
theorem Ends.mono {Q : α → Prop} (hs : s.Ends P) (h : ∀ a, P a → Q a) : s.Ends Q := by
  induction s with
  | ret a => exact h a hs
  | call c k ih => exact fun r => ih r (hs r)

/-- Every script ends somehow. -/
theorem ends_true (s : Script Call Ret α) : s.Ends fun _ => True := by
  induction s with
  | ret a => trivial
  | call c k ih => exact ih

/-- What the calls led to has the property. -/
theorem Ends.of_plays (h : s.Ends P) {a : α} (hplays : s.Plays made (ret a)) : P a := by
  induction made generalizing s with
  | nil =>
      obtain rfl := (plays_nil _ _).mp hplays
      exact h
  | cons first made ih =>
      cases s with
      | ret a => exact hplays.elim
      | call c k => exact ih (h first.2) hplays.2

/-- The script run alone: every call is answered by the state. -/
def run {S : Type} (handle : S → Call → S × Ret) (s : S) : Script Call Ret α → S × α
  | ret a => (s, a)
  | call c k => run handle (handle s c).1 (k (handle s c).2)

/-- Scripts in a row run one after the other. -/
theorem run_bind {S : Type} (handle : S → Call → S × Ret) (s : S) (script : Script Call Ret α)
    (f : α → Script Call Ret β) : (script >>= f).run handle s =
      (f (script.run handle s).2).run handle (script.run handle s).1 := by
  induction script generalizing s with
  | ret a => rfl
  | call c k ih => exact ih (handle s c).2 (handle s c).1

/-- Answers given one after the other. -/
def recite [Inhabited Ret] : List Ret → Call → List Ret × Ret
  | [], _ => ([], default)
  | r :: rs, _ => (rs, r)

/-- Given the results it went by, a script run alone ends as it did. -/
theorem Plays.run_recite [Inhabited Ret] {a : α} (h : s.Plays made (ret a)) :
    s.run recite (made.map Prod.snd) = ([], a) := by
  induction made generalizing s with
  | nil =>
      obtain rfl := (plays_nil _ _).mp h
      rfl
  | cons first made ih =>
      cases s with
      | ret a => exact h.elim
      | call c k => exact ih h.2

/-- The scripts of the items ran one after the other, each making its part of the calls. -/
inductive Each (f : α → Script Call Ret β) : List α → List (Call × Ret) → List β → Prop
  | nil : Each f [] [] []
  | cons {a : α} {items : List α} {first rest : List (Call × Ret)} {b : β} {bs : List β}
      (here : (f a).Plays first (ret b)) (later : Each f items rest bs) :
      Each f (a :: items) (first ++ rest) (b :: bs)

/-- The calls of a loop are those of its rounds. -/
theorem Plays.of_mapM {items : List α} {bs : List β} (h : (items.mapM f).Plays made (ret bs)) :
    Each f items made bs := by
  induction items generalizing made bs with
  | nil =>
      obtain ⟨rfl, rfl⟩ := Plays.of_ret h
      exact .nil
  | cons a items ih =>
      rw [List.mapM_cons] at h
      obtain ⟨first, rest, b, rfl, hfirst, hrest⟩ := h.of_bind
      rw [bind_pure_comp] at hrest
      obtain ⟨bs, hitems, rfl⟩ := hrest.of_map
      exact .cons hfirst (ih hitems)

namespace Each

variable {f : α → Script Call Ret β} {items items' : List α} {made made' : List (Call × Ret)}
  {bs bs' : List β}

/-- Two loops in a row are one. -/
theorem append (h : Each f items made bs) (h' : Each f items' made' bs') :
    Each f (items ++ items') (made ++ made') (bs ++ bs') := by
  induction h with
  | nil => exact h'
  | cons here later ih =>
      rw [List.cons_append, List.append_assoc, List.cons_append]
      exact .cons here ih

/-- Scripts that make the same calls to other values. -/
theorem map {γ δ : Type} {g : γ → Script Call Ret δ} {p : α → γ} {q : β → δ}
    (h : Each f items made bs)
    (hplays : ∀ a made b, (f a).Plays made (ret b) → (g (p a)).Plays made (ret (q b))) :
    Each g (items.map p) made (bs.map q) := by
  induction h with
  | nil => exact .nil
  | cons here later ih => exact .cons (hplays _ _ _ here) ih

/-- What every script says of its value, in order. -/
theorem map_eq {γ : Type} {p : β → γ} {q : α → γ} (h : Each f items made bs)
    (hplays : ∀ a ∈ items, ∀ made b, (f a).Plays made (ret b) → p b = q a) :
    bs.map p = items.map q := by
  induction h with
  | nil => rfl
  | cons here later ih =>
      rw [List.map_cons, List.map_cons, hplays _ List.mem_cons_self _ _ here,
        ih fun a ha => hplays a (List.mem_cons_of_mem _ ha)]

/-- The part of the calls that one of the scripts made. -/
theorem part (h : Each f items made bs) {e : ℕ} {a : α} {b : β} (ha : items[e]? = some a)
    (hb : bs[e]? = some b) :
    ∃ before piece after, made = before ++ (piece ++ after) ∧ (f a).Plays piece (ret b) := by
  induction h generalizing e with
  | nil => simp at ha
  | @cons a' items first rest b' bs here later ih =>
      cases e with
      | zero =>
          cases ha
          cases hb
          exact ⟨[], first, rest, rfl, here⟩
      | succ e =>
          obtain ⟨before, piece, after, rfl, hplays⟩ := ih ha hb
          exact ⟨first ++ before, piece, after, by rw [List.append_assoc], hplays⟩

end Each

end Script

namespace Rpc

variable {T ι Cmd Res Call Ret Call' Ret' σ : Type}

variable {request : Call'} {i : ℕ} {thread : Thread ι Cmd Res Call Ret}
  {piece more : List (Event T ι Cmd Res Call Ret)} {event : Event T ι Cmd Res Call' Ret'}

/-- The front end: a request runs its script, and every call of it sends its own commands. -/
def Service.layer (service : Service ι Cmd Res Call Ret σ)
    (scripts : Call' → Script Call Ret Ret') :
    Service ι Cmd Res Call' Ret' σ where
  handle := service.handle
  program request := (scripts request).prog service.program
  capacity := service.capacity
  attempts := service.attempts

/-- The event without its request or call, if it is not the beginning or the end of one. -/
def Event.inner : Event T ι Cmd Res Call Ret → Option (Event T ι Cmd Res Empty Empty)
  | .invoked _ _ => none
  | .opened t chan server command => some (.opened t chan server command)
  | .sent t chan => some (.sent t chan)
  | .refused t => some (.refused t)
  | .gaveUp t chan => some (.gaveUp t chan)
  | .took server chan => some (.took server chan)
  | .applied server chan command result => some (.applied server chan command result)
  | .answered server chan => some (.answered server chan)
  | .polled t => some (.polled t)
  | .received t chan => some (.received t chan)
  | .timedOut t chan => some (.timedOut t chan)
  | .returned _ _ _ => none

/-- An event of the front end, with what happens below meanwhile. -/
abbrev Beat (T ι Cmd Res Call Ret Call' Ret' : Type) : Type :=
  Event T ι Cmd Res Call' Ret' × List (Event T ι Cmd Res Call Ret)

/-- The history of the front end. -/
def above (beats : List (Beat T ι Cmd Res Call Ret Call' Ret')) :
    List (Event T ι Cmd Res Call' Ret') :=
  beats.map Prod.fst

/-- The history of the service below. -/
def below (beats : List (Beat T ι Cmd Res Call Ret Call' Ret')) :
    List (Event T ι Cmd Res Call Ret) :=
  beats.flatMap Prod.snd

/-- Where the history below stands when the front end comes to position `i`. -/
def start (beats : List (Beat T ι Cmd Res Call Ret Call' Ret')) (i : ℕ) : ℕ :=
  (below (beats.take i)).length

section Beats

variable (beats : List (Beat T ι Cmd Res Call Ret Call' Ret'))
  (beat : Beat T ι Cmd Res Call Ret Call' Ret')

/-- One more beat above. -/
@[simp] theorem above_snoc : above (beats ++ [beat]) = above beats ++ [beat.1] := by
  simp [above]

/-- One more beat below. -/
@[simp] theorem below_snoc : below (beats ++ [beat]) = below beats ++ beat.2 := by
  simp [below]

/-- Every beat is one event above. -/
@[simp] theorem length_above : (above beats).length = beats.length := by
  simp [above]

/-- All beats together start the next one. -/
theorem start_length : start beats beats.length = (below beats).length := by
  rw [start, List.take_length]

/-- A beat more does not move where the earlier ones start. -/
theorem start_snoc (hi : i ≤ beats.length) : start (beats ++ [beat]) i = start beats i := by
  rw [start, List.take_append_of_le_length hi, start]

/-- What happens later above happens later below. -/
theorem start_mono {j : ℕ} (hij : i ≤ j) : start beats i ≤ start beats j := by
  have hsplit : beats.take j = beats.take i ++ (beats.take j).drop i := by
    conv_lhs => rw [← List.take_append_drop i (beats.take j)]
    rw [List.take_take, Nat.min_eq_left hij]
  unfold start below
  rw [hsplit, List.flatMap_append, List.length_append]
  exact Nat.le_add_right _ _

end Beats

/-- The thread made these calls, one after the other, from position `lo` on and before `hi`. -/
def Made (history : List (Event T ι Cmd Res Call Ret)) (t : T) : ℕ → List (Call × Ret) → ℕ → Prop
  | lo, [], hi => lo ≤ hi
  | lo, made :: rest, hi => ∃ p q, lo ≤ p ∧ p < q ∧ Spans history t made.1 p q ∧
      At history q (.returned t made.1 made.2) ∧ Made history t (q + 1) rest hi

section Made

variable {history : List (Event T ι Cmd Res Call Ret)} {t : T} {lo hi : ℕ}
  {made rest : List (Call × Ret)}

/-- A call that is under way was so before later events. -/
theorem Spans.append {call : Call} {j : ℕ} (h : Spans history t call i j) (hj : j ≤ history.length)
    (more : List (Event T ι Cmd Res Call Ret)) : Spans (history ++ more) t call i j := by
  refine ⟨h.1.append more, fun k event hik hkj hk => h.2 k event hik hkj ?_⟩
  unfold At at hk ⊢
  rwa [List.getElem?_append_left (by omega)] at hk

/-- Calls stay made, whatever comes later. -/
theorem Made.append (h : Made history t lo made hi) (more : List (Event T ι Cmd Res Call Ret)) :
    Made (history ++ more) t lo made hi := by
  induction made generalizing lo with
  | nil => exact h
  | cons first made ih =>
      obtain ⟨p, q, hlo, hpq, hspans, hq, hrest⟩ := h
      exact ⟨p, q, hlo, hpq, hspans.append (Nat.le_of_lt hq.lt) more, hq.append more, ih hrest⟩

/-- Calls made by some time are made by any later time. -/
theorem Made.mono {hi' : ℕ} (h : Made history t lo made hi) (hle : hi ≤ hi') :
    Made history t lo made hi' := by
  induction made generalizing lo with
  | nil => exact Nat.le_trans h hle
  | cons first made ih =>
      obtain ⟨p, q, hlo, hpq, hspans, hq, hrest⟩ := h
      exact ⟨p, q, hlo, hpq, hspans, hq, ih hrest⟩

/-- Calls take time forwards. -/
theorem Made.le (h : Made history t lo made hi) : lo ≤ hi := by
  induction made generalizing lo with
  | nil => exact h
  | cons first made ih =>
      obtain ⟨p, q, hlo, hpq, -, -, hrest⟩ := h
      have hle := ih hrest
      omega

/-- Calls made in a row are made one part after the other. -/
theorem Made.split (h : Made history t lo (made ++ rest) hi) :
    ∃ mid, Made history t lo made mid ∧ Made history t mid rest hi := by
  induction made generalizing lo with
  | nil => exact ⟨lo, Nat.le_refl lo, h⟩
  | cons first made ih =>
      obtain ⟨p, q, hlo, hpq, hspans, hq, hrest⟩ := h
      obtain ⟨mid, hmade, hafter⟩ := ih hrest
      exact ⟨mid, ⟨p, q, hlo, hpq, hspans, hq, hmade⟩, hafter⟩

/-- The calls so far, one more, and the calls after it. -/
theorem Made.join {call : Call} {r : Ret} {p q : ℕ} (h : Made history t lo made p) (hpq : p < q)
    (hspans : Spans history t call p q) (hq : At history q (.returned t call r))
    (hrest : Made history t (q + 1) rest hi) : Made history t lo (made ++ (call, r) :: rest) hi := by
  induction made generalizing lo with
  | nil => exact ⟨p, q, h, hpq, hspans, hq, hrest⟩
  | cons first made ih =>
      obtain ⟨p', q', hlo, hpq', hspans', hq', hmade⟩ := h
      exact ⟨p', q', hlo, hpq', hspans', hq', ih hmade⟩

/-- One call that was made is a completed call. -/
theorem Made.completed {call : Call} {r : Ret} (h : Made history t lo [(call, r)] hi) :
    ∃ p q, lo ≤ p ∧ q < hi ∧ Completed history t call r p q := by
  obtain ⟨p, q, hlo, hpq, hspans, hq, hhi⟩ := h
  exact ⟨p, q, hlo, hhi, hspans, hq, hpq⟩

/-- Each of several calls made in a row is completed. -/
theorem Made.completed_part {before after : List (Call × Ret)} {call : Call} {r : Ret}
    (h : Made history t lo (before ++ ([(call, r)] ++ after)) hi) :
    ∃ p q, lo ≤ p ∧ q < hi ∧ Completed history t call r p q := by
  obtain ⟨mid, hbefore, hrest⟩ := h.split
  obtain ⟨mid', hcall, hafter⟩ := hrest.split
  obtain ⟨p, q, hp, hq, hcompleted⟩ := hcall.completed
  have hlo := hbefore.le
  have hhi := hafter.le
  exact ⟨p, q, by omega, by omega, hcompleted⟩

/-- A call that has just been invoked has begun. -/
theorem begun_invoked (history : List (Event T ι Cmd Res Call Ret)) (t : T) (call : Call) :
    Begun (history ++ [.invoked t call]) t call history.length := by
  refine ⟨at_last _ _, ?_⟩
  intro j other hlt hat
  have hle := hat.le_last
  omega

/-- A call that has begun spans what comes after. -/
theorem Begun.spans {call : Call} (h : Begun history t call i) (j : ℕ) : Spans history t call i j :=
  ⟨h.1, fun k event hik _ hk => h.2 k event hik hk⟩

/-- Events of other threads do not end it. -/
theorem Begun.append {call : Call} (h : Begun history t call i)
    (hmore : ∀ event ∈ more, ¬ event.Bounds t) :
    Begun (history ++ more) t call i := by
  refine ⟨h.1.append more, fun j event hij hj => ?_⟩
  rcases List.mem_append.mp (List.mem_of_getElem? hj) with hmem | hmem
  · by_cases hlt : j < history.length
    · unfold At at hj
      rw [List.getElem?_append_left hlt] at hj
      exact h.2 j event hij hj
    · unfold At at hj
      rw [List.getElem?_append_right (by omega)] at hj
      exact hmore event (List.mem_of_getElem? hj)
  · exact hmore event hmem

end Made

/-! ## Following the front end below -/

section Below

variable (service : Service ι Cmd Res Call Ret σ)

/-- A script whose calls began at `lo` has come to where the front end's program `program` and the
thread below stand: at its end with the thread idle, or in a call that is about to open a
channel. -/
def Standing {α : Type} (history : List (Event T ι Cmd Res Call Ret)) (t : T) (lo : ℕ)
    (script : Script Call Ret α) (program : Prog ι Cmd Res α) (thread : Thread ι Cmd Res Call Ret) :
    Prop :=
  ∃ made rest, script.Plays made rest ∧
    ((∃ a, rest = .ret a ∧ program = .ret a ∧ thread = .idle ∧
        Made history t lo made history.length) ∨
      ∃ c k server command next p, rest = .call c k ∧
        thread = .running c (.call server command next) ∧
        program = (Prog.call server command next).bind (fun r => (k r).prog service.program) ∧
        Begun history t c p ∧ Made history t lo made p)

variable {service} {init : ι → σ} {history : List (Event T ι Cmd Res Call Ret)}
  {net : Net T ι Cmd Res Call Ret σ} {t : T} {α : Type}

/-- What stands for the rest of a script stands for the whole. -/
theorem Standing.after {history : List (Event T ι Cmd Res Call Ret)} {lo lo' : ℕ}
    {script rest : Script Call Ret α} {program : Prog ι Cmd Res α}
    (h : Standing service history t lo' rest program thread) (before : List (Call × Ret))
    (hplays : ∀ {made q}, rest.Plays made q → script.Plays (before ++ made) q)
    (hmade : ∀ made hi, Made history t lo' made hi → Made history t lo (before ++ made) hi) :
    Standing service history t lo script program thread := by
  obtain ⟨made, q, hrest, hend⟩ := h
  refine ⟨before ++ made, q, hplays hrest, ?_⟩
  rcases hend with ⟨a, hq, hprogram, hthread, hlast⟩ |
    ⟨c, k, server, command, next, p, hq, hthread, hprogram, hbegun, hlast⟩
  · exact Or.inl ⟨a, hq, hprogram, hthread, hmade made _ hlast⟩
  · exact Or.inr ⟨c, k, server, command, next, p, hq, hthread, hprogram, hbegun, hmade made p hlast⟩

/-- A call under way, with the script it belongs to. -/
def InCall (history : List (Event T ι Cmd Res Call Ret)) (t : T) (lo : ℕ)
    (script : Script Call Ret α) (c : Call) (k : Ret → Script Call Ret α) : Prop :=
  ∃ made p, script.Plays made (.call c k) ∧ Begun history t c p ∧ Made history t lo made p

/-- Events of other threads leave a call under way. -/
theorem InCall.append {lo : ℕ} {script : Script Call Ret α} {c : Call} {k : Ret → Script Call Ret α}
    (h : InCall history t lo script c k) (hmore : ∀ event ∈ more, ¬ event.Bounds t) :
    InCall (history ++ more) t lo script c k := by
  obtain ⟨made, p, hplays, hbegun, hmade⟩ := h
  exact ⟨made, p, hplays, hbegun.append hmore, hmade.append more⟩

/-- They leave a thread where it stands. -/
theorem Standing.append {lo : ℕ} {script : Script Call Ret α} {program : Prog ι Cmd Res α}
    (h : Standing service history t lo script program thread)
    (hmore : ∀ event ∈ more, ¬ event.Bounds t) :
    Standing service (history ++ more) t lo script program thread := by
  obtain ⟨made, q, hplays, hend⟩ := h
  refine ⟨made, q, hplays, ?_⟩
  rcases hend with ⟨a, hq, hprogram, hthread, hmade⟩ |
    ⟨c, k, server, command, next, p, hq, hthread, hprogram, hbegun, hmade⟩
  · exact Or.inl ⟨a, hq, hprogram, hthread, (hmade.append more).mono (by simp)⟩
  · exact Or.inr ⟨c, k, server, command, next, p, hq, hthread, hprogram, hbegun.append hmore,
      hmade.append more⟩

variable [DecidableEq T]

/-- Of two updates of a thread the last one counts. -/
theorem setThread_setThread (thread thread' : Thread ι Cmd Res Call Ret) :
    (net.setThread t thread).setThread t thread' = net.setThread t thread' := by
  unfold Net.setThread
  simp

/-- Putting a thread where it stands changes nothing. -/
theorem setThread_of_eq (h : net.threads t = thread) : net.setThread t thread = net := by
  unfold Net.setThread
  rw [← h, Function.update_eq_self]

variable [DecidableEq ι]

/-- An idle thread starts a script: calls that send nothing come and go, until one sends or the
script is over. -/
theorem settle (script : Script Call Ret α) (h : Runs service init history net)
    (ht : net.threads t = .idle) :
    ∃ piece thread, Runs service init (history ++ piece) (net.setThread t thread) ∧
      (∀ event ∈ piece, event.Bounds t) ∧
      Standing service (history ++ piece) t history.length script (script.prog service.program)
        thread := by
  induction script generalizing history net with
  | ret a =>
      refine ⟨[], .idle, ?_, by simp, [], .ret a, (Script.plays_nil _ _).mpr rfl, Or.inl
        ⟨a, rfl, rfl, rfl, ?_⟩⟩
      · rw [List.append_nil, setThread_of_eq ht]
        exact h
      · rw [List.append_nil]
        exact Nat.le_refl _
  | call c k ih =>
      have hinvoked : Runs service init (history ++ [.invoked t c])
          (net.setThread t (.running c (service.program c))) := h.snoc (.invoke c ht)
      have hthread : (net.setThread t (.running c (service.program c))).threads t =
          .running c (service.program c) := Function.update_self ..
      rcases hprogram : service.program c with r | ⟨server, command, next⟩
      · -- the call returns at once, and the script goes on
        rw [hprogram] at hinvoked hthread
        have hreturned := hinvoked.snoc (.finish hthread)
        rw [setThread_setThread] at hreturned
        obtain ⟨piece, thread, hruns, hpiece, hstanding⟩ :=
          ih r hreturned (Function.update_self ..)
        rw [setThread_setThread, List.append_assoc, List.append_assoc] at hruns
        refine ⟨[.invoked t c] ++ ([.returned t c r] ++ piece), thread, hruns, ?_, ?_⟩
        · intro event hevent
          rcases List.mem_append.mp hevent with hmem | hmem
          · rw [List.mem_singleton.mp hmem]
            rfl
          rcases List.mem_append.mp hmem with hmem | hmem
          · rw [List.mem_singleton.mp hmem]
            rfl
          · exact hpiece event hmem
        · rw [List.append_assoc, List.append_assoc] at hstanding
          have hprog : (Script.call c k).prog service.program = (k r).prog service.program := by
            rw [Script.prog, hprogram]
            rfl
          rw [hprog]
          refine hstanding.after [(c, r)] (fun hplays => ⟨rfl, hplays⟩) ?_
          intro made hi hmade
          refine ⟨history.length, history.length + 1, Nat.le_refl _, Nat.lt_succ_self _, ⟨?_, ?_⟩, ?_,
            ?_⟩
          · simp [At]
          · intro j event hlt hlt'
            omega
          · simp [At]
          · simpa using hmade
      · refine ⟨[.invoked t c], .running c (service.program c), hinvoked, ?_, ?_⟩
        · intro event hevent
          rw [List.mem_singleton.mp hevent]
          rfl
        · refine ⟨[], .call c k, (Script.plays_nil _ _).mpr rfl, Or.inr
            ⟨c, k, server, command, next, history.length, rfl, by rw [hprogram], ?_,
              begun_invoked history t c, Nat.le_refl _⟩⟩
          rw [Script.prog, hprogram]

/-- An exchange of the call under way is over: the call goes on, or returns and the script does. -/
theorem resume {lo : ℕ} {script : Script Call Ret α} {c : Call} {k : Ret → Script Call Ret α}
    (hcall : InCall history t lo script c k) (h : Runs service init history net)
    {program : Prog ι Cmd Res Ret} (ht : net.threads t = .running c program) :
    ∃ piece thread, Runs service init (history ++ piece) (net.setThread t thread) ∧
      (∀ event ∈ piece, event.Bounds t) ∧
      Standing service (history ++ piece) t lo script
        (program.bind fun r => (k r).prog service.program) thread := by
  obtain ⟨made, p, hplays, hbegun, hmade⟩ := hcall
  rcases program with r | ⟨server, command, next⟩
  · have hreturned := h.snoc (.finish ht)
    obtain ⟨piece, thread, hruns, hpiece, hstanding⟩ :=
      settle (k r) hreturned (Function.update_self ..)
    rw [setThread_setThread, List.append_assoc] at hruns
    rw [List.append_assoc] at hstanding
    refine ⟨[.returned t c r] ++ piece, thread, hruns, ?_, ?_⟩
    · intro event hevent
      rcases List.mem_append.mp hevent with hmem | hmem
      · rw [List.mem_singleton.mp hmem]
        rfl
      · exact hpiece event hmem
    · refine hstanding.after (made ++ [(c, r)]) ?_ ?_
      · intro more q hmore
        rw [List.append_assoc]
        exact hplays.append hmore
      · intro more hi hmore
        rw [List.append_assoc]
        refine (hmade.append _).join hbegun.1.lt ((hbegun.spans _).append (Nat.le_refl _) _) ?_ ?_
        · simp [At]
        · simpa using hmore
  · refine ⟨[], .running c (.call server command next), ?_, by simp, ?_⟩
    · rw [List.append_nil, setThread_of_eq ht]
      exact h
    · rw [List.append_nil]
      exact ⟨made, .call c k, hplays, Or.inr ⟨c, k, server, command, next, p, rfl, rfl, rfl, hbegun,
        hmade⟩⟩

end Below

/-! ## Front end and service, step by step -/

section Layered

/-- A pending exchange of a call, as the front end sees it. -/
def Pending.extend (p : Pending ι Cmd Res Ret) (f : Ret → Prog ι Cmd Res Ret') :
    Pending ι Cmd Res Ret' :=
  ⟨p.chan, p.server, p.command, fun reply => (p.next reply).bind f, p.left⟩

variable (service : Service ι Cmd Res Call Ret σ) (scripts : Call' → Script Call Ret Ret')

/-- A thread of the front end and the same thread below. -/
def ThreadSim (beats : List (Beat T ι Cmd Res Call Ret Call' Ret')) (t : T) :
    Thread ι Cmd Res Call' Ret' → Thread ι Cmd Res Call Ret → Prop
  | .idle, thread => thread = .idle
  | .running request program, thread => ∃ i, Begun (above beats) t request i ∧
      Standing service (below beats) t (start beats i) (scripts request) program thread
  | .sending request pending, thread => ∃ i c k p, Begun (above beats) t request i ∧
      thread = .sending c p ∧ pending = p.extend (fun r => (k r).prog service.program) ∧
      InCall (below beats) t (start beats i) (scripts request) c k
  | .waiting request pending, thread => ∃ i c k p, Begun (above beats) t request i ∧
      thread = .waiting c p ∧ pending = p.extend (fun r => (k r).prog service.program) ∧
      InCall (below beats) t (start beats i) (scripts request) c k

/-- Every request that returned made the calls of its script between its invocation and its
return. -/
def Scripted (beats : List (Beat T ι Cmd Res Call Ret Call' Ret')) : Prop :=
  ∀ j t request result, At (above beats) j (.returned t request result) →
    ∃ i < j, Spans (above beats) t request i j ∧ ∃ made,
      (scripts request).Plays made (.ret result) ∧
      Made (below beats) t (start beats i) made (start beats j)

variable {service scripts} {beats : List (Beat T ι Cmd Res Call Ret Call' Ret')} {t : T}

/-- Where a request under way started does not move. -/
theorem start_of_begun (h : Begun (above beats) t request i)
    (beat : Beat T ι Cmd Res Call Ret Call' Ret') : start (beats ++ [beat]) i = start beats i := by
  have hlt := h.1.lt
  rw [length_above] at hlt
  exact start_snoc beats beat (Nat.le_of_lt hlt)

/-- A beat that neither begins nor ends anything for a thread leaves it where it stands. -/
theorem ThreadSim.snoc {thread' : Thread ι Cmd Res Call' Ret'} {thread : Thread ι Cmd Res Call Ret}
    (h : ThreadSim service scripts beats t thread' thread)
    {beat : Beat T ι Cmd Res Call Ret Call' Ret'} (habove : ¬ beat.1.Bounds t)
    (hbelow : ∀ event ∈ beat.2, ¬ event.Bounds t) :
    ThreadSim service scripts (beats ++ [beat]) t thread' thread := by
  unfold ThreadSim at h ⊢
  rw [above_snoc, below_snoc]
  cases thread' with
  | idle => exact h
  | running request program =>
      obtain ⟨i, hbegun, hstanding⟩ := h
      refine ⟨i, hbegun.snoc habove, ?_⟩
      rw [start_of_begun hbegun]
      exact hstanding.append hbelow
  | sending request pending =>
      obtain ⟨i, c, k, p, hbegun, hthread, hpending, hcall⟩ := h
      refine ⟨i, c, k, p, hbegun.snoc habove, hthread, hpending, ?_⟩
      rw [start_of_begun hbegun]
      exact hcall.append hbelow
  | waiting request pending =>
      obtain ⟨i, c, k, p, hbegun, hthread, hpending, hcall⟩ := h
      refine ⟨i, c, k, p, hbegun.snoc habove, hthread, hpending, ?_⟩
      rw [start_of_begun hbegun]
      exact hcall.append hbelow

/-- A thread of the front end that opens a channel does so in a call below. -/
theorem ThreadSim.calling {server : ι} {command : Cmd}
    {next : Except Fault Res → Prog ι Cmd Res Ret'}
    (h : ThreadSim service scripts beats t (.running request (.call server command next)) thread) :
    ∃ i c k next', Begun (above beats) t request i ∧
      thread = .running c (.call server command next') ∧
      next = (fun reply => (next' reply).bind fun r => (k r).prog service.program) ∧
      InCall (below beats) t (start beats i) (scripts request) c k := by
  obtain ⟨i, hbegun, made, rest, hplays, ⟨a, -, hret, -⟩ |
    ⟨c, k, server', command', next', p, rfl, hthread, hcall, hinner, hmade⟩⟩ := h
  · cases hret
  · cases hcall
    exact ⟨i, c, k, next', hbegun, hthread, rfl, made, p, hplays, hinner, hmade⟩

/-- A thread of the front end that is done is idle below. -/
theorem ThreadSim.over {result : Ret'}
    (h : ThreadSim service scripts beats t (.running request (.ret result)) thread) :
    thread = .idle ∧ ∃ i made, Begun (above beats) t request i ∧
      (scripts request).Plays made (.ret result) ∧
      Made (below beats) t (start beats i) made (below beats).length := by
  obtain ⟨i, hbegun, made, rest, hplays, ⟨a, rfl, hret, hthread, hmade⟩ |
    ⟨c, k, server, command, next, p, -, -, hcall, -⟩⟩ := h
  · cases hret
    exact ⟨hthread, i, made, hbegun, hplays, hmade⟩
  · cases hcall

/-- An event that begins and ends nothing, above and below. -/
theorem InCall.inner {c : Call} {k : Ret → Script Call Ret Ret'}
    (hcall : InCall (below beats) t (start beats i) (scripts request) c k)
    (hbegun : Begun (above beats) t request i) (event : Event T ι Cmd Res Call' Ret')
    (event' : Event T ι Cmd Res Call Ret) (habove : ¬ event.Bounds t) (hbelow : ¬ event'.Bounds t) :
    Begun (above (beats ++ [(event, [event'])])) t request i ∧
      InCall (below (beats ++ [(event, [event'])])) t (start (beats ++ [(event, [event'])]) i)
        (scripts request) c k := by
  rw [above_snoc, below_snoc, start_of_begun hbegun]
  refine ⟨hbegun.snoc habove, hcall.append ?_⟩
  intro other hmem
  rw [List.mem_singleton.mp hmem]
  exact hbelow

/-- Invocations and returns are no inner events. -/
theorem inner_of_bounds {event : Event T ι Cmd Res Call Ret} (h : event.Bounds t) :
    event.inner = none := by
  cases event with
  | invoked => rfl
  | returned => rfl
  | _ => exact h.elim

/-- A piece of them has no inner event. -/
theorem filterMap_inner_bounds (h : ∀ event ∈ piece, event.Bounds t) :
    piece.filterMap Event.inner = [] :=
  List.filterMap_eq_nil_iff.mpr fun event hevent => inner_of_bounds (h event hevent)

/-- The invocations and returns of one thread are those of no other. -/
theorem not_bounds_of_bounds (h : ∀ event ∈ piece, event.Bounds t) {t' : T} (hne : t' ≠ t) :
    ∀ event ∈ piece, ¬ event.Bounds t' := by
  intro event hevent hbounds
  have hof := h event hevent
  cases event with
  | invoked t'' call => exact hne (hbounds.symm.trans hof)
  | returned t'' call result => exact hne (hbounds.symm.trans hof)
  | _ => exact hof.elim

variable [DecidableEq T] [DecidableEq ι]

/-- The front end and the service below, after the same beats. -/
structure Layered (service : Service ι Cmd Res Call Ret σ)
    (scripts : Call' → Script Call Ret Ret') (init : ι → σ)
    (beats : List (Beat T ι Cmd Res Call Ret Call' Ret')) (net : Net T ι Cmd Res Call' Ret' σ)
    (net' : Net T ι Cmd Res Call Ret σ) : Prop where
  runs : Runs service init (below beats) net'
  servers : net'.servers = net.servers
  replies : net'.replies = net.replies
  nextChan : net'.nextChan = net.nextChan
  threads : ∀ t, ThreadSim service scripts beats t (net.threads t) (net'.threads t)
  inner : ∀ beat ∈ beats, beat.2.filterMap Event.inner = beat.1.inner.toList
  scripted : Scripted scripts beats

variable {init : ι → σ} {net net₂ : Net T ι Cmd Res Call' Ret' σ}
  {net₁ net₃ : Net T ι Cmd Res Call Ret σ}

/-- One thread moves, above and below. -/
theorem Layered.update (h : Layered service scripts init beats net net₁)
    {beat : Beat T ι Cmd Res Call Ret Call' Ret'} {thread' : Thread ι Cmd Res Call' Ret'}
    (habove : ∀ t', t' ≠ t → ¬ beat.1.Bounds t')
    (hbelow : ∀ t', t' ≠ t → ∀ event ∈ beat.2, ¬ event.Bounds t')
    (hthread : ThreadSim service scripts (beats ++ [beat]) t thread' thread) (t' : T) :
    ThreadSim service scripts (beats ++ [beat]) t' (Function.update net.threads t thread' t')
      (Function.update net₁.threads t thread t') := by
  by_cases ht : t' = t
  · subst ht
    rw [Function.update_self, Function.update_self]
    exact hthread
  · rw [Function.update_of_ne ht, Function.update_of_ne ht]
    exact (h.threads t').snoc (habove t' ht) (hbelow t' ht)

/-- One beat more. -/
theorem Layered.beat (h : Layered service scripts init beats net net₁)
    (hruns : Runs service init (below beats ++ piece) net₃) (hservers : net₃.servers = net₂.servers)
    (hreplies : net₃.replies = net₂.replies) (hnextChan : net₃.nextChan = net₂.nextChan)
    (hinner : piece.filterMap Event.inner = event.inner.toList)
    (hthreads : ∀ t, ThreadSim service scripts (beats ++ [(event, piece)]) t (net₂.threads t)
      (net₃.threads t)) (hreturned : ∀ t request result, event = .returned t request result →
      ∃ i < beats.length, Spans (above beats) t request i beats.length ∧ ∃ made,
        (scripts request).Plays made (.ret result) ∧
        Made (below beats) t (start beats i) made (below beats).length) :
    Layered service scripts init (beats ++ [(event, piece)]) net₂ net₃ where
  runs := by rwa [below_snoc]
  servers := hservers
  replies := hreplies
  nextChan := hnextChan
  threads := hthreads
  inner beat hbeat := by
    rcases List.mem_append.mp hbeat with hmem | hmem
    · exact h.inner beat hmem
    · rw [List.mem_singleton.mp hmem]
      exact hinner
  scripted j t request result hj := by
    rw [above_snoc] at hj ⊢
    rw [below_snoc]
    rcases at_snoc.mp hj with hold | ⟨hlast, heq⟩
    · have hlt := hold.lt
      rw [length_above] at hlt
      obtain ⟨i, hij, hspans, made, hplays, hmade⟩ := h.scripted j t request result hold
      refine ⟨i, hij, hspans.append (Nat.le_of_lt hold.lt) _, made, hplays, ?_⟩
      rw [start_snoc _ _ (by omega), start_snoc _ _ (by omega)]
      exact hmade.append piece
    · rw [length_above] at hlast
      subst hlast
      obtain ⟨i, hij, hspans, made, hplays, hmade⟩ := hreturned t request result heq.symm
      refine ⟨i, hij, hspans.append (Nat.le_of_eq (length_above beats).symm) _, made, hplays, ?_⟩
      rw [start_snoc _ _ (by omega), start_snoc _ _ (Nat.le_refl _), start_length]
      exact hmade.append piece

/-- An exchange is over: the thread goes on below until it sends again or its script is over. -/
theorem Layered.exchangeOver (h : Layered service scripts init beats net net₁) {c : Call}
    {k : Ret → Script Call Ret Ret'}
    (hcall : InCall (below beats) t (start beats i) (scripts request) c k)
    (hbegun : Begun (above beats) t request i) {event' : Event T ι Cmd Res Call Ret}
    (habove : ∀ t, ¬ event.Bounds t) (hbelow : ∀ t, ¬ event'.Bounds t)
    (hinner : [event'].filterMap Event.inner = event.inner.toList)
    (hruns : Runs service init (below beats ++ [event']) net₃)
    (hservers : net₃.servers = net₂.servers) (hreplies : net₃.replies = net₂.replies)
    (hnextChan : net₃.nextChan = net₂.nextChan) {program : Prog ι Cmd Res Ret}
    (hnet₃ : net₃.threads = Function.update net₁.threads t (.running c program))
    (hnet₂ : net₂.threads = Function.update net.threads t
      (.running request (program.bind fun r => (k r).prog service.program))) :
    ∃ piece net₃, Layered service scripts init (beats ++ [(event, piece)]) net₂ net₃ := by
  obtain ⟨hbegun', hcall'⟩ := hcall.inner hbegun event event' (habove t) (hbelow t)
  rw [below_snoc, start_of_begun hbegun] at hcall'
  rw [above_snoc] at hbegun'
  obtain ⟨piece, thread, hruns', hpiece, hstanding⟩ :=
    resume hcall' hruns (by rw [hnet₃, Function.update_self])
  rw [List.append_assoc] at hruns' hstanding
  refine ⟨_, _, h.beat hruns' hservers hreplies hnextChan ?_ ?_ ?_⟩
  · rw [List.filterMap_append, filterMap_inner_bounds hpiece, List.append_nil, hinner]
  · intro t'
    show ThreadSim _ _ _ t' _ (Function.update net₃.threads t thread t')
    rw [hnet₂, hnet₃, Function.update_idem]
    refine h.update (fun t' _ => habove t') (fun t' hne other hmem => ?_) ?_ t'
    · rcases List.mem_append.mp hmem with hmem | hmem
      · exact List.mem_singleton.mp hmem ▸ hbelow t'
      · exact not_bounds_of_bounds hpiece hne other hmem
    · refine ⟨i, ?_, ?_⟩
      · rw [above_snoc]
        exact hbegun'
      · rw [below_snoc, start_of_begun hbegun]
        exact hstanding
  · rintro t' _ _ rfl
    exact absurd rfl (habove t')

/-- **A step of the front end is matched below.** -/
theorem Layered.step (h : Layered service scripts init beats net net₁)
    (hstep : Step (service.layer scripts) net event net₂) :
    ∃ piece net₃, Layered service scripts init (beats ++ [(event, piece)]) net₂ net₃ := by
  cases hstep with
  | @invoke t request ht =>
      have hidle : net₁.threads t = .idle := by
        have hsim := h.threads t
        rw [ht] at hsim
        exact hsim
      obtain ⟨piece, thread, hruns, hpiece, hstanding⟩ := settle (scripts request) h.runs hidle
      refine ⟨piece, _, h.beat hruns h.servers h.replies h.nextChan (filterMap_inner_bounds hpiece)
        (h.update ?_ (fun t' hne => not_bounds_of_bounds hpiece hne) ?_) (by simp)⟩
      · exact fun t' hne heq => hne heq.symm
      · refine ⟨beats.length, ?_, ?_⟩
        · rw [above_snoc, ← length_above beats]
          exact begun_invoked _ _ _
        · rw [below_snoc, start_snoc _ _ (Nat.le_refl _), start_length]
          exact hstanding
  | @openChan t request server command next ht =>
      obtain ⟨i, c, k, next', hbegun, hthread, rfl, hcall⟩ := (ht ▸ h.threads t).calling
      have hruns := h.runs.snoc (.openChan hthread)
      rw [h.nextChan] at hruns
      refine ⟨_, _, h.beat hruns h.servers h.replies rfl rfl (h.update ?_ ?_ ?_) (by simp)⟩
      · exact fun _ _ => id
      · exact fun _ _ _ hmem => List.mem_singleton.mp hmem ▸ id
      · obtain ⟨hbegun', hcall'⟩ := hcall.inner hbegun (.opened t net.nextChan server command)
          (.opened t net.nextChan server command) id id
        exact ⟨i, c, k, _, hbegun', rfl, rfl, hcall'⟩
  | @send t request pending ht hleft hroom =>
      obtain ⟨i, c, k, p, hbegun, hthread, rfl, hcall⟩ := ht ▸ h.threads t
      have hroom' : (net₁.servers p.server).mailbox.length < service.capacity := by
        rw [h.servers]
        exact hroom
      refine ⟨_, _, h.beat (h.runs.snoc (.send hthread hleft hroom')) ?_ h.replies h.nextChan rfl
        (h.update (fun _ _ => id) (fun _ _ _ hmem => List.mem_singleton.mp hmem ▸ id) ?_) (by simp)⟩
      · show Function.update net₁.servers _ _ = Function.update net.servers _ _
        rw [h.servers]
        rfl
      · obtain ⟨hbegun', hcall'⟩ := hcall.inner hbegun (.sent t p.chan) (.sent t p.chan) id id
        exact ⟨i, c, k, _, hbegun', rfl, rfl, hcall'⟩
  | @refuse t request pending ht hleft =>
      obtain ⟨i, c, k, p, hbegun, hthread, rfl, hcall⟩ := ht ▸ h.threads t
      refine ⟨_, _, h.beat (h.runs.snoc (.refuse hthread hleft)) h.servers h.replies h.nextChan rfl
        (h.update (fun _ _ => id) (fun _ _ _ hmem => List.mem_singleton.mp hmem ▸ id) ?_) (by simp)⟩
      obtain ⟨hbegun', hcall'⟩ := hcall.inner hbegun (.refused t) (.refused t) id id
      exact ⟨i, c, k, _, hbegun', rfl, rfl, hcall'⟩
  | @giveUp t request pending ht hleft =>
      obtain ⟨i, c, k, p, hbegun, hthread, rfl, hcall⟩ := ht ▸ h.threads t
      exact h.exchangeOver hcall hbegun (fun _ => id) (fun _ => id) rfl
        (h.runs.snoc (.giveUp hthread hleft)) h.servers h.replies h.nextChan rfl rfl
  | @take server envelope rest hphase hbox =>
      refine ⟨_, _, h.beat (h.runs.snoc (.take (h.servers ▸ hphase) (h.servers ▸ hbox))) ?_ h.replies
        h.nextChan rfl (fun t => (h.threads t).snoc id fun _ hmem => List.mem_singleton.mp hmem ▸ id)
        (by simp)⟩
      show Function.update net₁.servers _ _ = Function.update net.servers _ _
      rw [h.servers]
  | @apply server envelope hphase =>
      have hruns := h.runs.snoc (.apply (h.servers ▸ hphase))
      rw [h.servers] at hruns
      refine ⟨_, _, h.beat hruns ?_ h.replies
        h.nextChan rfl (fun t => (h.threads t).snoc id fun _ hmem => List.mem_singleton.mp hmem ▸ id)
        (by simp)⟩
      show Function.update net₁.servers _ _ = Function.update net.servers _ _
      rw [h.servers]
      rfl
  | @answer server chan result hphase =>
      refine ⟨_, _, h.beat (h.runs.snoc (.answer (h.servers ▸ hphase))) ?_ ?_
        h.nextChan rfl (fun t => (h.threads t).snoc id fun _ hmem => List.mem_singleton.mp hmem ▸ id)
        (by simp)⟩
      · show Function.update net₁.servers _ _ = Function.update net.servers _ _
        rw [h.servers]
      · show Function.update net₁.replies _ _ = Function.update net.replies _ _
        rw [h.replies]
  | @poll t request pending ht hleft hnone =>
      obtain ⟨i, c, k, p, hbegun, hthread, rfl, hcall⟩ := ht ▸ h.threads t
      refine ⟨_, _, h.beat (h.runs.snoc (.poll hthread hleft (h.replies ▸ hnone))) h.servers h.replies
        h.nextChan rfl
        (h.update (fun _ _ => id) (fun _ _ _ hmem => List.mem_singleton.mp hmem ▸ id) ?_) (by simp)⟩
      obtain ⟨hbegun', hcall'⟩ := hcall.inner hbegun (.polled t) (.polled t) id id
      exact ⟨i, c, k, _, hbegun', rfl, rfl, hcall'⟩
  | @receive t request pending result ht hleft hsome =>
      obtain ⟨i, c, k, p, hbegun, hthread, rfl, hcall⟩ := ht ▸ h.threads t
      refine h.exchangeOver hcall hbegun (fun _ => id) (fun _ => id) rfl
        (h.runs.snoc (.receive hthread hleft (h.replies ▸ hsome))) h.servers ?_ h.nextChan rfl rfl
      show Function.update net₁.replies _ _ = Function.update net.replies _ _
      rw [h.replies]
      rfl
  | @timeOut t request pending ht hleft =>
      obtain ⟨i, c, k, p, hbegun, hthread, rfl, hcall⟩ := ht ▸ h.threads t
      exact h.exchangeOver hcall hbegun (fun _ => id) (fun _ => id) rfl
        (h.runs.snoc (.timeOut hthread hleft)) h.servers h.replies h.nextChan rfl rfl
  | @finish t request result ht =>
      obtain ⟨hidle, i, made, hbegun, hplays, hmade⟩ := (ht ▸ h.threads t).over
      refine ⟨[], net₁, h.beat (by rw [List.append_nil]; exact h.runs) h.servers h.replies h.nextChan
        rfl ?_ ?_⟩
      · have hupdate : ∀ t', ThreadSim service scripts (beats ++ [(.returned t request result, [])])
            t' (Function.update net.threads t .idle t') (Function.update net₁.threads t .idle t') :=
          h.update (fun t' hne heq => hne heq.symm) (by simp) rfl
        have hsame : Function.update net₁.threads t .idle = net₁.threads := by
          rw [← hidle, Function.update_eq_self]
        rw [hsame] at hupdate
        exact hupdate
      · rintro _ _ _ ⟨⟩
        have hlt := hbegun.1.lt
        rw [length_above] at hlt
        exact ⟨i, hlt, hbegun.spans _, made, hplays, hmade⟩

/-- **Every run of the front end is a run of the service below**, in which every request makes the
calls of its script. -/
theorem Runs.layered {history : List (Event T ι Cmd Res Call' Ret')}
    (h : Runs (service.layer scripts) init history net) :
    ∃ beats net', above beats = history ∧ Layered service scripts init beats net net' := by
  induction h with
  | nil =>
      refine ⟨[], .start init, rfl, .nil, rfl, rfl, rfl, fun _ => rfl, by simp, ?_⟩
      intro j t request result hj
      exact absurd hj not_at_nil
  | snoc h hstep ih =>
      obtain ⟨beats, net', rfl, hlayered⟩ := ih
      obtain ⟨piece, net'', hlayered'⟩ := hlayered.step hstep
      exact ⟨_, net'', above_snoc .., hlayered'⟩

/-- The inner events are the same, in the same order. -/
theorem Layered.filterMap_inner (h : Layered service scripts init beats net net₁) :
    (below beats).filterMap Event.inner = (above beats).filterMap Event.inner := by
  have hinner := h.inner
  clear h
  induction beats with
  | nil => rfl
  | cons beat beats ih =>
      have hrest := ih fun beat' hbeat' => hinner beat' (List.mem_cons_of_mem _ hbeat')
      have hfirst := hinner beat List.mem_cons_self
      unfold below above at hrest ⊢
      rw [List.flatMap_cons, List.filterMap_append, hfirst, hrest, List.map_cons]
      cases hevent : beat.1.inner with
      | none =>
          rw [List.filterMap_cons_none hevent]
          rfl
      | some event =>
          rw [List.filterMap_cons_some hevent]
          rfl

end Layered

end Rpc

end CharlotteBroker.Lib
