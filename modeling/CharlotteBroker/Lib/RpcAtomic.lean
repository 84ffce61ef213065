import CharlotteBroker.Lib.RpcHistory

/-!
# Calls that ask once are atomic

A call whose program sends one command at most acts at one moment between its invocation and its
return, whatever the other threads do meanwhile; or it was not heard; or it was not answered in
time, and acts once, at some moment, or never.

The state it acts on is any state the applied commands determine (`Abstracts`): the servers' own, or
one that forgets how it is spread over servers.

* `Served`: a command of the call was applied at that moment.
* `Atomic`: the three ways a call can end.
* `Runs.atomic`: every returned call that asks once ended in one of them.
-/

namespace CharlotteBroker.Lib

variable {ι Cmd Res α : Type}

/-- The program sends one command at most. -/
inductive Prog.Single : Prog ι Cmd Res α → Prop
  | ret (a : α) : Prog.Single (.ret a)
  | call (server : ι) (command : Cmd) (finish : Except Fault Res → α) :
      Prog.Single (.call server command fun reply => .ret (finish reply))

/-- What the program makes of a fault of its one exchange. -/
def Prog.FailsWith (program : Prog ι Cmd Res α) (fault : Fault) (result : α) : Prop :=
  ∃ chan server command, program.Follows [⟨chan, server, command, .error fault⟩] (.ret result)

/-- A program that asks once goes through no exchange or one. -/
theorem Prog.Single.follows {program : Prog ι Cmd Res α} (h : program.Single)
    {exchanges : List (Exchange ι Cmd Res)} {result : α}
    (hfollows : program.Follows exchanges (.ret result)) :
    exchanges = [] ∧ program = .ret result ∨
      ∃ chan server command reply, ∃ finish : Except Fault Res → α,
        exchanges = [⟨chan, server, command, reply⟩] ∧
        program = .call server command (fun reply => .ret (finish reply)) ∧
        result = finish reply := by
  cases h with
  | ret a =>
      obtain ⟨hnil, hret⟩ := (Prog.follows_ret _ _ _).mp hfollows
      exact Or.inl ⟨hnil, hret.symm⟩
  | call server command finish =>
      rcases exchanges with _ | ⟨⟨chan, server', command', reply⟩, rest⟩
      · cases (Prog.follows_nil _ _).mp hfollows
      · obtain ⟨hserver, hcommand, hrest⟩ := hfollows
        simp only at hserver hcommand
        subst hserver hcommand
        obtain ⟨rfl, hret⟩ := (Prog.follows_ret _ _ _).mp hrest
        exact Or.inr ⟨chan, _, _, reply, finish, rfl, rfl, Prog.ret.inj hret⟩

end CharlotteBroker.Lib

namespace CharlotteBroker.Lib.Rpc

variable {T ι Cmd Res Call Ret σ S : Type}

/-- The call of `t` that ran from `i` to `j` had a command of its own applied at `k`. -/
def Served (history : List (Event T ι Cmd Res Call Ret)) (t : T) (i j k : ℕ) : Prop :=
  ∃ p chan server command result, i < p ∧ p < j ∧
    At history p (.opened t chan server command) ∧
    At history k (.applied server chan command result)

/-- The applied commands determine the state: each acts on it as `serve` does and gets its answer,
nothing else changes it. -/
structure Abstracts (serve : S → ι → Cmd → S × Res)
    (state : List (Event T ι Cmd Res Call Ret) → S)
    (history : List (Event T ι Cmd Res Call Ret)) : Prop where
  applied : ∀ k server chan command result, At history k (.applied server chan command result) →
    serve (state (history.take k)) server command = (state (history.take (k + 1)), result)
  invoked : ∀ k t call, At history k (.invoked t call) →
    state (history.take (k + 1)) = state (history.take k)

/-- How a call of `t` from `i` to `j` that asks once can end. -/
inductive Atomic (serve : S → ι → Cmd → S × Res)
    (state : List (Event T ι Cmd Res Call Ret) → S)
    (history : List (Event T ι Cmd Res Call Ret)) (t : T) (i j : ℕ) (program : Prog ι Cmd Res Ret)
    (result : Ret) : Prop
  /-- It acted at one moment, on the state of that moment. -/
  | acted (k : ℕ) (from_invoked : i ≤ k) (before_returned : k < j)
      (asked : Served history t i j k ∨ program = .ret result)
      (only : ∀ k', Served history t i j k' → k' = k)
      (exec : program.exec serve (state (history.take k)) = (state (history.take (k + 1)), result))
  /-- Its command was not accepted. -/
  | unheard (fails : program.FailsWith .unavailable result)
      (never : ∀ k, ¬ Served history t i j k)
  /-- The answer did not come in time: it acts as a whole, once, or not at all. -/
  | unanswered (fails : program.FailsWith .timeout result)
      (once : ∀ k k', Served history t i j k → Served history t i j k' → k = k')
      (acts : ∀ k, Served history t i j k →
        (program.exec serve (state (history.take k))).1 = state (history.take (k + 1)))

section Runs

variable {service : Service ι Cmd Res Call Ret σ} {init : ι → σ}
  {history : List (Event T ι Cmd Res Call Ret)} {net : Net T ι Cmd Res Call Ret σ}
  {serve : S → ι → Cmd → S × Res} {state : List (Event T ι Cmd Res Call Ret) → S}

/-- A call that went through one exchange has commands applied on that channel only. -/
theorem Complete.served {t : T} {i j : ℕ} {e : Exchange ι Cmd Res}
    (hcomplete : Complete history t i [e] j) {k : ℕ} (hk : Served history t i j k) :
    ∃ server command answer, At history k (.applied server e.chan command answer) := by
  obtain ⟨p, chan, server, command, answer, hip, hpj, hopened, happlied⟩ := hk
  obtain ⟨e', he', rfl⟩ := hcomplete p chan server command hip hpj hopened
  rw [List.mem_singleton] at he'
  subst he'
  exact ⟨server, command, answer, happlied⟩

variable [DecidableEq T] [DecidableEq ι]

/-- **A returned call that asks once is atomic.** -/
theorem Runs.atomic (h : Runs service init history net) (habstracts : Abstracts serve state history)
    {j : ℕ} {t : T} {call : Call} {result : Ret} (hat : At history j (.returned t call result))
    (hsingle : (service.program call).Single) :
    ∃ i < j, Spans history t call i j ∧
      Atomic serve state history t i j (service.program call) result := by
  obtain ⟨i, hspans, exchanges, hfollows, hexplained, hcomplete⟩ := h.returned hat
  refine ⟨i, hexplained.lt, hspans, ?_⟩
  rcases hsingle.follows hfollows with
    ⟨rfl, hprogram⟩ | ⟨chan, server, command, reply, finish, rfl, hprogram, rfl⟩
  · -- nothing was sent: any moment will do, such as the invocation
    have hnever : ∀ k, ¬ Served history t i j k := by
      rintro k ⟨p, chan, server, command, answer, hip, hpj, hopened, -⟩
      obtain ⟨e, he, -⟩ := hcomplete p chan server command hip hpj hopened
      exact absurd he List.not_mem_nil
    refine .acted i (Nat.le_refl i) hexplained (Or.inr hprogram)
      (fun k hk => absurd hk (hnever k)) ?_
    rw [hprogram, habstracts.invoked i t call hspans.1]
    rfl
  · obtain ⟨p, k, hip, hpk, hopened, htold, hkj⟩ := hexplained
    have hkj : k < j := hkj
    have honce : ∀ k₁ k₂, Served history t i j k₁ → Served history t i j k₂ → k₁ = k₂ := by
      intro k₁ k₂ hk₁ hk₂
      obtain ⟨_, _, _, happlied₁⟩ := hcomplete.served hk₁
      obtain ⟨_, _, _, happlied₂⟩ := hcomplete.served hk₂
      exact h.applied_once happlied₁ happlied₂
    rcases reply with (_ | _) | answer
    · refine .unheard ⟨chan, server, command, ?_⟩ ?_
      · rw [hprogram]
        exact ⟨rfl, rfl, rfl⟩
      · intro k' hk'
        obtain ⟨server', command', answer', happlied⟩ := hcomplete.served hk'
        exact htold k' server' command' answer' happlied
    · refine .unanswered ⟨chan, server, command, ?_⟩ honce ?_
      · rw [hprogram]
        exact ⟨rfl, rfl, rfl⟩
      · intro k' hk'
        obtain ⟨server', command', answer', happlied⟩ := hcomplete.served hk'
        -- the command applied on the channel is the one that was sent there
        obtain ⟨p', t', -, hopened'⟩ := h.applied_opened happlied
        obtain rfl := h.opened_once hopened hopened'
        cases hopened.eq hopened'
        rw [hprogram, Prog.exec_call, habstracts.applied k' _ _ _ _ happlied]
        rfl
    · have happlied : At history k (.applied server chan command answer) := htold
      have hserved : Served history t i j k :=
        ⟨p, chan, server, command, answer, hip, by omega, hopened, happlied⟩
      refine .acted k (by omega) hkj (Or.inl hserved) (fun k' hk' => honce k' k hk' hserved) ?_
      rw [hprogram, Prog.exec_call, habstracts.applied k _ _ _ _ happlied]
      rfl

end Runs

end CharlotteBroker.Lib.Rpc
