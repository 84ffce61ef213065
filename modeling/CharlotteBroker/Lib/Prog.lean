import Mathlib.Tactic.Common
import Mathlib.Logic.Function.Basic

/-!
# Client programs over remote calls

A client of a set of servers is a tree: it returns, or sends a command to one server and goes on
with whatever comes back (`Prog`). One tree has two readings.

* `Prog.exec` runs it alone, every call served at once: the sequential meaning. Two services that
  agree up to a relation run it to related states (`Prog.exec_simulates`).
* `Prog.Follows` says where the tree stands after a list of finished exchanges, whatever came
  back: the reading used when calls of many clients interleave.

`Prog.exec_bind` and `Prog.run_bind` let sequential programs be reasoned about one statement at
a time.
-/

namespace CharlotteBroker.Lib

/-- What a remote call can fail with before any answer: the command could not be handed over, or
no answer came in time. -/
inductive Fault
  | unavailable
  | timeout
  deriving DecidableEq, Repr

/-- A client program over servers `ι`, commands `Cmd` and results `Res`. -/
inductive Prog (ι Cmd Res α : Type) : Type
  | ret (a : α)
  | call (server : ι) (command : Cmd) (k : Except Fault Res → Prog ι Cmd Res α)

variable {ι Cmd Res α β ε : Type}

namespace Prog

/-- Sequencing. -/
def bind : Prog ι Cmd Res α → (α → Prog ι Cmd Res β) → Prog ι Cmd Res β
  | ret a, f => f a
  | call server command k, f => call server command fun reply => (k reply).bind f

instance : Monad (Prog ι Cmd Res) where
  pure := ret
  bind := bind

@[simp] theorem ret_bind (a : α) (f : α → Prog ι Cmd Res β) :
    ((ret a : Prog ι Cmd Res α) >>= f) = f a := rfl

@[simp] theorem pure_eq_ret (a : α) : (pure a : Prog ι Cmd Res α) = ret a := rfl

@[simp] theorem call_bind (server : ι) (command : Cmd)
    (k : Except Fault Res → Prog ι Cmd Res α) (f : α → Prog ι Cmd Res β) :
    (call server command k >>= f) = call server command fun reply => k reply >>= f := rfl

protected theorem id_map (p : Prog ι Cmd Res α) : id <$> p = p := by
  induction p with
  | ret a => rfl
  | call server command k ih => exact congrArg (call server command) (funext ih)

protected theorem bind_assoc {γ : Type} (p : Prog ι Cmd Res α) (f : α → Prog ι Cmd Res β)
    (g : β → Prog ι Cmd Res γ) : p >>= f >>= g = p >>= fun a => f a >>= g := by
  induction p with
  | ret a => rfl
  | call server command k ih => exact congrArg (call server command) (funext ih)

instance : LawfulMonad (Prog ι Cmd Res) :=
  .mk' _ Prog.id_map (fun _ _ => rfl) Prog.bind_assoc

/-! ## Alone -/

variable {S S' : Type} (serve : S → ι → Cmd → S × Res)

/-- The program run alone from state `s`: every call reaches its server and is answered at
once. `serve` is what one command at one server does to the state of all of them. -/
def exec (s : S) : Prog ι Cmd Res α → S × α
  | ret a => (s, a)
  | call server command k => exec (serve s server command).1 (k (.ok (serve s server command).2))

@[simp] theorem exec_ret (s : S) (a : α) :
    exec serve s (ret a : Prog ι Cmd Res α) = (s, a) := rfl

@[simp] theorem exec_call (s : S) (server : ι) (command : Cmd)
    (k : Except Fault Res → Prog ι Cmd Res α) :
    exec serve s (call server command k) =
      exec serve (serve s server command).1 (k (.ok (serve s server command).2)) := rfl

theorem exec_bind (s : S) (p : Prog ι Cmd Res α) (f : α → Prog ι Cmd Res β) :
    exec serve s (p >>= f) = exec serve (exec serve s p).1 (f (exec serve s p).2) := by
  induction p generalizing s with
  | ret a => rfl
  | call server command k ih =>
      rw [call_bind, exec_call, exec_call]
      exact ih _ _

theorem exec_map (s : S) (p : Prog ι Cmd Res α) (f : α → β) :
    exec serve s (f <$> p) = ((exec serve s p).1, f (exec serve s p).2) := by
  rw [map_eq_pure_bind, exec_bind]
  rfl

/-- Every command the program may send satisfies `P`. -/
def Issues (P : ι → Cmd → Prop) : Prog ι Cmd Res α → Prop
  | ret _ => True
  | call server command k => P server command ∧ ∀ reply, Issues P (k reply)

theorem Issues.bind {P : ι → Cmd → Prop} {p : Prog ι Cmd Res α} {f : α → Prog ι Cmd Res β}
    (hp : p.Issues P) (hf : ∀ a, (f a).Issues P) : (p >>= f).Issues P := by
  induction p with
  | ret a => exact hf a
  | call server command k ih => exact ⟨hp.1, fun reply => ih reply (hp.2 reply)⟩

theorem Issues.mono {P Q : ι → Cmd → Prop} {p : Prog ι Cmd Res α} (hp : p.Issues P)
    (h : ∀ server command, P server command → Q server command) : p.Issues Q := by
  induction p with
  | ret a => trivial
  | call server command k ih => exact ⟨h _ _ hp.1, fun reply => ih reply (hp.2 reply)⟩

/-- What a program sends does not depend on what is made of its result. -/
theorem Issues.of_map {P : ι → Cmd → Prop} {p : Prog ι Cmd Res α} {f : α → β}
    (h : (f <$> p).Issues P) : p.Issues P := by
  induction p with
  | ret a => trivial
  | call server command k ih => exact ⟨h.1, fun reply => ih reply (h.2 reply)⟩

/-! ### Loops -/

theorem Issues.mapM {P : ι → Cmd → Prop} {f : α → Prog ι Cmd Res β} {items : List α}
    (h : ∀ a ∈ items, (f a).Issues P) : (items.mapM f).Issues P := by
  induction items with
  | nil => trivial
  | cons a items ih =>
      rw [List.mapM_cons]
      refine (h a List.mem_cons_self).bind fun b => ?_
      exact (ih fun a' ha => h a' (List.mem_cons_of_mem _ ha)).bind fun bs => trivial

/-- A loop whose rounds change nothing. -/
theorem exec_mapM_of_const {f : α → Prog ι Cmd Res β} {g : α → β} {s : S} {items : List α}
    (h : ∀ a ∈ items, exec serve s (f a) = (s, g a)) :
    exec serve s (items.mapM f) = (s, items.map g) := by
  induction items with
  | nil => rfl
  | cons a items ih =>
      rw [List.mapM_cons, exec_bind, h a List.mem_cons_self, exec_bind,
        ih fun a' ha => h a' (List.mem_cons_of_mem _ ha)]
      rfl

/-- What each round keeps of its item, the loop keeps of the list. -/
theorem map_exec_mapM {γ : Type} {f : α → Prog ι Cmd Res β} {g : α → γ} {g' : β → γ} (s : S)
    (items : List α) (h : ∀ s, ∀ a ∈ items, g' (exec serve s (f a)).2 = g a) :
    (exec serve s (items.mapM f)).2.map g' = items.map g := by
  induction items generalizing s with
  | nil => rfl
  | cons a items ih =>
      rw [List.mapM_cons, exec_bind, exec_bind, List.map_cons, ← h s a List.mem_cons_self,
        ← ih (exec serve s (f a)).1 fun s' a' ha => h s' a' (List.mem_cons_of_mem _ ha)]
      rfl

theorem length_exec_mapM (s : S) (f : α → Prog ι Cmd Res β) (items : List α) :
    (exec serve s (items.mapM f)).2.length = items.length := by
  have hunit : (exec serve s (items.mapM f)).2.map (fun _ => ()) = items.map fun _ => () :=
    map_exec_mapM serve s items fun _ _ _ => rfl
  simpa only [List.length_map] using congrArg List.length hunit

/-- The items are visited one after another, each from the state the one before it left; `visits`
pairs every item with its result. -/
inductive Sweeps (f : α → Prog ι Cmd Res β) : S → List (α × β) → S → Prop
  | nil (s : S) : Sweeps f s [] s
  | cons {s s' s'' : S} {a : α} {b : β} {visits : List (α × β)}
      (visit : exec serve s (f a) = (s', b)) (rest : Sweeps f s' visits s'') :
      Sweeps f s ((a, b) :: visits) s''

variable {serve} in
theorem Sweeps.append {f : α → Prog ι Cmd Res β} {s s' s'' : S} {visits visits' : List (α × β)}
    (h : Sweeps serve f s visits s') (h' : Sweeps serve f s' visits' s'') :
    Sweeps serve f s (visits ++ visits') s'' := by
  induction h with
  | nil s => exact h'
  | cons visit rest ih => exact .cons visit (ih h')

variable {serve} in
/-- The items may be given by other names. -/
theorem Sweeps.comap {γ : Type} {f : α → Prog ι Cmd Res β} {g : γ → α} {s s' : S}
    {visits : List (γ × β)} (h : Sweeps serve (fun c => f (g c)) s visits s') :
    Sweeps serve f s (visits.map fun visit => (g visit.1, visit.2)) s' := by
  induction h with
  | nil s => exact .nil s
  | cons visit rest ih => exact .cons visit ih

variable {serve} in
/-- Where the visits lead. -/
theorem Sweeps.eq_foldl {f : α → Prog ι Cmd Res β} {s s' : S} {visits : List (α × β)}
    (h : Sweeps serve f s visits s') :
    s' = (visits.map Prod.fst).foldl (fun s a => (exec serve s (f a)).1) s := by
  induction h with
  | nil s => rfl
  | cons visit rest ih => rw [List.map_cons, List.foldl_cons, visit, ih]

/-- A loop visits its items in order. -/
theorem sweeps_mapM (s : S) (f : α → Prog ι Cmd Res β) (items : List α) :
    ∃ visits, Sweeps serve f s visits (exec serve s (items.mapM f)).1 ∧
      visits.map Prod.fst = items ∧ visits.map Prod.snd = (exec serve s (items.mapM f)).2 := by
  induction items generalizing s with
  | nil => exact ⟨[], .nil s, rfl, rfl⟩
  | cons a items ih =>
      obtain ⟨visits, hsweeps, hitems, hresults⟩ := ih (exec serve s (f a)).1
      rw [List.mapM_cons, exec_bind, exec_bind]
      refine ⟨(a, (exec serve s (f a)).2) :: visits, .cons rfl hsweeps, ?_, ?_⟩
      · rw [List.map_cons, hitems]
      · rw [List.map_cons, hresults]
        rfl

/-! ### Relations between runs -/

/-- **Simulation.** If two ways of serving commands agree on the commands the program sends, up
to a relation between their states, they run the program to related states and one result. -/
theorem exec_simulates {serve : S → ι → Cmd → S × Res} {serve' : S' → ι → Cmd → S' × Res}
    {R : S → S' → Prop} {P : ι → Cmd → Prop}
    (hserve : ∀ s s' server command, R s s' → P server command →
      R (serve s server command).1 (serve' s' server command).1 ∧
        (serve s server command).2 = (serve' s' server command).2)
    {p : Prog ι Cmd Res α} (hp : p.Issues P) {s : S} {s' : S'} (h : R s s') :
    R (exec serve s p).1 (exec serve' s' p).1 ∧ (exec serve s p).2 = (exec serve' s' p).2 := by
  induction p generalizing s s' with
  | ret a => exact ⟨h, rfl⟩
  | call server command k ih =>
      obtain ⟨hstate, hresult⟩ := hserve s s' server command h hp.1
      rw [exec_call, exec_call, ← hresult]
      exact ih _ (hp.2 _) hstate

/-- **Invariants.** What every command the program sends keeps, the whole program keeps. -/
theorem exec_preserves {serve : S → ι → Cmd → S × Res} {Inv : S → Prop} {P : ι → Cmd → Prop}
    (hserve : ∀ s server command, Inv s → P server command → Inv (serve s server command).1)
    {p : Prog ι Cmd Res α} (hp : p.Issues P) {s : S} (h : Inv s) : Inv (exec serve s p).1 := by
  induction p generalizing s with
  | ret a => exact h
  | call server command k ih => exact ih _ (hp.2 _) (hserve s server command h hp.1)

/-- A program that stops at the first error. -/
abbrev Fallible (ι Cmd Res ε α : Type) : Type := ExceptT ε (Prog ι Cmd Res) α

/-- Running a fallible program alone. -/
def run (s : S) (p : Fallible ι Cmd Res ε α) : S × Except ε α := exec serve s p.run

@[simp] theorem run_pure (s : S) (a : α) :
    run serve s (pure a : Fallible ι Cmd Res ε α) = (s, .ok a) := rfl

@[simp] theorem run_throw (s : S) (e : ε) :
    run serve s (throw e : Fallible ι Cmd Res ε α) = (s, .error e) := rfl

/-- What is left of a fallible program once a statement of it has ended in `s` with `result`. -/
def andThen (s : S) (result : Except ε α) (f : α → Fallible ι Cmd Res ε β) : S × Except ε β :=
  match result with
  | .ok a => run serve s (f a)
  | .error e => (s, .error e)

variable {serve} in
/-- **One statement at a time.** -/
theorem run_bind {s s' : S} {p : Fallible ι Cmd Res ε α} {result : Except ε α}
    (h : run serve s p = (s', result)) (f : α → Fallible ι Cmd Res ε β) :
    run serve s (p >>= f) = andThen serve s' result f := by
  unfold run at h
  show exec serve s (p >>= f).run = _
  rw [ExceptT.run_bind, exec_bind, h]
  cases result <;> rfl

end Prog

/-! ## Among others -/

/-- One finished call of a program: the reply channel it used, what it sent where, and what the
program then went on with. -/
structure Exchange (ι Cmd Res : Type) where
  chan : ℕ
  server : ι
  command : Cmd
  reply : Except Fault Res

/-- The program stands at `q` after the exchanges. -/
def Prog.Follows : Prog ι Cmd Res α → List (Exchange ι Cmd Res) → Prog ι Cmd Res α → Prop
  | p, [], q => p = q
  | .ret _, _ :: _, _ => False
  | .call server command k, exchange :: rest, q =>
      exchange.server = server ∧ exchange.command = command ∧ (k exchange.reply).Follows rest q

@[simp] theorem Prog.follows_nil (p q : Prog ι Cmd Res α) : p.Follows [] q ↔ p = q := by
  cases p <;> exact Iff.rfl

/-- A program that has returned goes through no exchange. -/
@[simp] theorem Prog.follows_ret (a : α) (exchanges : List (Exchange ι Cmd Res))
    (q : Prog ι Cmd Res α) :
    (Prog.ret a).Follows exchanges q ↔ exchanges = [] ∧ q = .ret a := by
  rcases exchanges with _ | ⟨exchange, rest⟩
  · rw [Prog.follows_nil]
    exact ⟨fun h => ⟨rfl, h.symm⟩, fun h => h.2.symm⟩
  · exact ⟨fun h => h.elim, fun h => by cases h.1⟩

@[simp] theorem Prog.follows_call_cons (server : ι) (command : Cmd)
    (k : Except Fault Res → Prog ι Cmd Res α) (exchange : Exchange ι Cmd Res)
    (rest : List (Exchange ι Cmd Res)) (q : Prog ι Cmd Res α) :
    (Prog.call server command k).Follows (exchange :: rest) q ↔
      exchange.server = server ∧ exchange.command = command ∧
        (k exchange.reply).Follows rest q := Iff.rfl

/-- The next exchange takes the program one call further. -/
theorem Prog.Follows.snoc {p : Prog ι Cmd Res α} {exchanges : List (Exchange ι Cmd Res)}
    {server : ι} {command : Cmd} {k : Except Fault Res → Prog ι Cmd Res α}
    (h : p.Follows exchanges (.call server command k)) (chan : ℕ) (reply : Except Fault Res) :
    p.Follows (exchanges ++ [⟨chan, server, command, reply⟩]) (k reply) := by
  induction exchanges generalizing p with
  | nil =>
      rw [Prog.follows_nil] at h
      subst h
      exact ⟨rfl, rfl, (Prog.follows_nil _ _).mpr rfl⟩
  | cons exchange rest ih =>
      cases p with
      | ret a => exact h.elim
      | call server' command' k' => exact ⟨h.1, h.2.1, ih h.2.2⟩

/-- What is left of a program issues nothing new. -/
theorem Prog.Issues.follows {P : ι → Cmd → Prop} {p q : Prog ι Cmd Res α}
    {exchanges : List (Exchange ι Cmd Res)} (hp : p.Issues P) (h : p.Follows exchanges q) :
    q.Issues P := by
  induction exchanges generalizing p with
  | nil =>
      rw [Prog.follows_nil] at h
      rwa [← h]
  | cons exchange rest ih =>
      cases p with
      | ret a => exact h.elim
      | call server command k => exact ih (hp.2 exchange.reply) h.2.2

/-- A program in two parts has its exchanges in two parts. -/
theorem Prog.Follows.of_bind_ret {p : Prog ι Cmd Res α} {f : α → Prog ι Cmd Res β}
    {exchanges : List (Exchange ι Cmd Res)} {b : β} (h : (p >>= f).Follows exchanges (.ret b)) :
    ∃ first second a, exchanges = first ++ second ∧ p.Follows first (.ret a) ∧
      (f a).Follows second (.ret b) := by
  induction p generalizing exchanges with
  | ret a => exact ⟨[], exchanges, a, rfl, (Prog.follows_nil _ _).mpr rfl, h⟩
  | call server command k ih =>
      rw [Prog.call_bind] at h
      rcases exchanges with _ | ⟨exchange, rest⟩
      · rw [Prog.follows_nil] at h
        cases h
      · obtain ⟨first, second, a, rfl, hp, hf⟩ := ih _ h.2.2
        exact ⟨exchange :: first, second, a, rfl, ⟨h.1, h.2.1, hp⟩, hf⟩

/-- A program in two parts stands at a call of the first or of the second. -/
theorem Prog.Follows.of_bind_call {p : Prog ι Cmd Res α} {f : α → Prog ι Cmd Res β}
    {exchanges : List (Exchange ι Cmd Res)} {server : ι} {command : Cmd}
    {k : Except Fault Res → Prog ι Cmd Res β}
    (h : (p >>= f).Follows exchanges (.call server command k)) :
    (∃ k', p.Follows exchanges (.call server command k')) ∨
      ∃ first second a, exchanges = first ++ second ∧ p.Follows first (.ret a) ∧
        (f a).Follows second (.call server command k) := by
  induction p generalizing exchanges with
  | ret a => exact Or.inr ⟨[], exchanges, a, rfl, (Prog.follows_nil _ _).mpr rfl, h⟩
  | call server' command' k' ih =>
      rw [Prog.call_bind] at h
      rcases exchanges with _ | ⟨exchange, rest⟩
      · rw [Prog.follows_nil] at h
        cases h
        exact Or.inl ⟨k', (Prog.follows_nil _ _).mpr rfl⟩
      · rcases ih _ h.2.2 with ⟨k'', hp⟩ | ⟨first, second, a, rfl, hp, hf⟩
        · exact Or.inl ⟨k'', h.1, h.2.1, hp⟩
        · exact Or.inr ⟨exchange :: first, second, a, rfl, ⟨h.1, h.2.1, hp⟩, hf⟩

section Fallible

variable {ε : Type} {p : Prog.Fallible ι Cmd Res ε α} {f : α → Prog.Fallible ι Cmd Res ε β}
  {exchanges : List (Exchange ι Cmd Res)}

/-- A fallible program that succeeded went through both its parts. -/
theorem Prog.Follows.of_bind_ok {b : β} (h : (p >>= f).run.Follows exchanges (.ret (.ok b))) :
    ∃ first second a, exchanges = first ++ second ∧ p.run.Follows first (.ret (.ok a)) ∧
      (f a).run.Follows second (.ret (.ok b)) := by
  rw [ExceptT.run_bind] at h
  obtain ⟨first, second, result, rfl, hp, hf⟩ := Prog.Follows.of_bind_ret h
  rcases result with e | a
  · cases ((Prog.follows_ret _ _ _).mp hf).2
  · exact ⟨first, second, a, rfl, hp, hf⟩

/-- A fallible program stands at a call of its first part, or its first part succeeded. -/
theorem Prog.Follows.of_bind_ok_call {server : ι} {command : Cmd}
    {k : Except Fault Res → Prog ι Cmd Res (Except ε β)}
    (h : (p >>= f).run.Follows exchanges (.call server command k)) :
    (∃ k', p.run.Follows exchanges (.call server command k')) ∨
      ∃ first second a, exchanges = first ++ second ∧ p.run.Follows first (.ret (.ok a)) ∧
        (f a).run.Follows second (.call server command k) := by
  rw [ExceptT.run_bind] at h
  rcases Prog.Follows.of_bind_call h with hp | ⟨first, second, result, rfl, hp, hf⟩
  · exact Or.inl hp
  · rcases result with e | a
    · cases ((Prog.follows_ret _ _ _).mp hf).2
    · exact Or.inr ⟨first, second, a, rfl, hp, hf⟩

end Fallible

end CharlotteBroker.Lib
