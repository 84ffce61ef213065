import CharlotteBroker.Lib.Rpc
import Mathlib.Data.List.Nodup

/-!
# What the history of a run says

Every reply channel goes through one life: it is opened by one call of one thread, its command is
dropped by the sender or accepted by the mailbox, taken, applied once and answered. The life of a
channel is kept in a ticket beside the run (`Ticket`, `Stage`), and the invariant `Inv` says which
stage each place of the system stands for.

* `Runs.applied_once`: no channel's command is applied twice.
* `Runs.returned`: a call that returned went through exchanges its program explains, one after the
  other; an answered one was applied after it was opened and before the return, with that answer;
  one whose sender gave up is never applied.
* `Runs.opened`: every command was issued by a call that had come to it through such exchanges.
* `Runs.server_state`, `Runs.applied_result`: a server's state is the applied commands' doing, and
  so is every answer.
-/

namespace CharlotteBroker.Lib.Rpc

/-! ## Positions in a history -/

/-- The history has this event at position `i`. -/
def At {E : Type} (history : List E) (i : ℕ) (event : E) : Prop := history[i]? = some event

section At

variable {E : Type} {history : List E} {i : ℕ} {event other : E}

theorem At.lt (h : At history i event) : i < history.length :=
  (List.getElem?_eq_some_iff.mp h).1

theorem At.eq (h : At history i event) (h' : At history i other) : event = other :=
  Option.some.inj (h.symm.trans h')

theorem At.append (h : At history i event) (more : List E) : At (history ++ more) i event := by
  unfold At
  rw [List.getElem?_append_left h.lt]
  exact h

theorem At.of_take {k : ℕ} (h : At (history.take k) i event) : At history i event := by
  unfold At at h
  rw [List.getElem?_take] at h
  split at h
  · exact h
  · cases h

theorem At.take_succ (h : At history i event) :
    history.take (i + 1) = history.take i ++ [event] := by
  rw [List.take_add_one, h]
  rfl

theorem at_last (history : List E) (event : E) : At (history ++ [event]) history.length event :=
  List.getElem?_concat_length

theorem At.le_last (h : At (history ++ [other]) i event) : i ≤ history.length := by
  have hlt := h.lt
  rw [List.length_append, List.length_singleton] at hlt
  omega

theorem at_snoc : At (history ++ [other]) i event ↔
    At history i event ∨ i = history.length ∧ event = other := by
  constructor
  · intro h
    rcases Nat.lt_or_ge i history.length with hlt | hge
    · left
      unfold At at h
      rwa [List.getElem?_append_left hlt] at h
    · have hle := h.le_last
      obtain rfl : i = history.length := by omega
      exact Or.inr ⟨rfl, h.eq (at_last history other)⟩
  · rintro (h | ⟨rfl, rfl⟩)
    · exact h.append _
    · exact at_last _ _

theorem not_at_nil : ¬ At ([] : List E) i event := by
  intro h
  cases h

instance [DecidableEq E] : Decidable (At history i event) :=
  inferInstanceAs (Decidable (history[i]? = some event))

/-- Every event strictly between the two positions satisfies `P`. -/
def Between (history : List E) (i j : ℕ) (P : E → Prop) : Prop :=
  ∀ k event, i < k → k < j → At history k event → P event

/-- Some event strictly between the two positions satisfies `P`. -/
def Occurs (history : List E) (i j : ℕ) (P : E → Prop) : Prop :=
  ∃ k event, i < k ∧ k < j ∧ At history k event ∧ P event

instance {j : ℕ} {P : E → Prop} [DecidablePred P] : Decidable (Between history i j P) :=
  decidable_of_iff (∀ k < j, i < k → ∀ event ∈ history[k]?, P event)
    ⟨fun h k event hik hkj hat => h k hkj hik event hat,
      fun h k hkj hik event hat => h k event hik hkj hat⟩

instance {j : ℕ} {P : E → Prop} [DecidablePred P] : Decidable (Occurs history i j P) :=
  decidable_of_iff (∃ k < j, i < k ∧ ∃ event ∈ history[k]?, P event)
    ⟨fun ⟨k, hkj, hik, event, hat, hP⟩ => ⟨k, event, hik, hkj, hat, hP⟩,
      fun ⟨k, event, hik, hkj, hat, hP⟩ => ⟨k, hkj, hik, event, hat, hP⟩⟩

theorem Between.mono {j i' j' : ℕ} {P : E → Prop} (h : Between history i j P) (hi : i ≤ i')
    (hj : j' ≤ j) : Between history i' j' P :=
  fun k event hik hkj => h k event (Nat.lt_of_le_of_lt hi hik) (Nat.lt_of_lt_of_le hkj hj)

/-- What `pick` picked last from the events strictly between the two positions. -/
def lastBetween {α : Type} (pick : E → Option α) (history : List E) (i j : ℕ) : Option α :=
  (((history.take j).drop (i + 1)).filterMap pick).getLast?

theorem lastBetween_self {α : Type} (pick : E → Option α) (history : List E) (i : ℕ) :
    lastBetween pick history i (i + 1) = none := by
  have hnone : (history.take (i + 1)).drop (i + 1) = [] :=
    List.drop_eq_nil_of_le (List.length_take_le _ _)
  rw [lastBetween, hnone]
  rfl

theorem lastBetween_succ {α : Type} (pick : E → Option α) {j : ℕ} (hat : At history j event)
    (hij : i < j) :
    lastBetween pick history i (j + 1) = (pick event).or (lastBetween pick history i j) := by
  have hlen : i + 1 ≤ (history.take j).length := by
    rw [List.length_take]
    have := hat.lt
    omega
  unfold lastBetween
  rw [hat.take_succ, List.drop_append_of_le_length hlen, List.filterMap_append,
    List.getLast?_append]
  rcases hpick : pick event with _ | a <;> simp [hpick]

/-- What was picked last was picked from an event after which nothing was picked. -/
theorem lastBetween_some {α : Type} {pick : E → Option α} {j : ℕ} {a : α}
    (h : lastBetween pick history i j = some a) (hj : j ≤ history.length) :
    ∃ k event, i < k ∧ k < j ∧ At history k event ∧ pick event = some a ∧
      Between history k j fun event => pick event = none := by
  induction j with
  | zero => simp [lastBetween] at h
  | succ j ih =>
      rcases Nat.lt_or_ge i j with hij | hji
      · have hat : At history j (history.get ⟨j, by omega⟩) := List.getElem?_eq_getElem _
        rw [lastBetween_succ pick hat hij] at h
        rcases hpick : pick (history.get ⟨j, by omega⟩) with _ | b
        · rw [hpick] at h
          obtain ⟨k, event, hik, hkj, hk, hevent, hbetween⟩ := ih h (by omega)
          refine ⟨k, event, hik, by omega, hk, hevent, fun m other hkm hmj hm => ?_⟩
          rcases Nat.lt_succ_iff_lt_or_eq.mp hmj with hlt | rfl
          · exact hbetween m other hkm hlt hm
          · rw [hm.eq hat, hpick]
        · rw [hpick] at h
          cases h
          exact ⟨j, _, hij, by omega, hat, hpick, fun m other hkm hmj => by omega⟩
      · have hnone : (history.take (j + 1)).drop (i + 1) = [] :=
          List.drop_eq_nil_of_le (Nat.le_trans (List.length_take_le _ _) (by omega))
        rw [lastBetween, hnone] at h
        cases h

end At

/-! ## The life of a reply channel -/

/-- How far the command of a channel has got. -/
inductive Stage (Res : Type)
  | opened
  | dropped
  | sent
  | taken
  | applied (result : Res)
  | answered (result : Res)

/-- The mailbox accepted the command. -/
def Stage.Accepted {Res : Type} : Stage Res → Prop
  | .opened => False
  | .dropped => False
  | _ => True

/-- The answer, once the command is applied. -/
def Stage.result {Res : Type} : Stage Res → Option Res
  | .applied result => some result
  | .answered result => some result
  | _ => none

/-- What is fixed about a channel when it is opened, and how far it has got. -/
structure Ticket (T ι Cmd Res : Type) where
  owner : T
  server : ι
  command : Cmd
  stage : Stage Res

variable {T ι Cmd Res Call Ret σ : Type}

/-- The event begins or ends a call of the thread. -/
def Event.Bounds (t : T) : Event T ι Cmd Res Call Ret → Prop
  | .invoked t' _ => t' = t
  | .returned t' _ _ => t' = t
  | _ => False

/-- The thread opens a channel in the event. -/
def Event.Opens (t : T) : Event T ι Cmd Res Call Ret → Prop
  | .opened t' _ _ _ => t' = t
  | _ => False

/-- The thread begins a call in the event, ends one or opens a channel. -/
def Event.Of (t : T) : Event T ι Cmd Res Call Ret → Prop
  | .invoked t' _ => t' = t
  | .opened t' _ _ _ => t' = t
  | .returned t' _ _ => t' = t
  | _ => False

/-- The event neither opens a channel, nor applies a command, nor ends a call. -/
def Event.Silent : Event T ι Cmd Res Call Ret → Prop
  | .opened _ _ _ _ => False
  | .applied _ _ _ _ => False
  | .returned _ _ _ => False
  | _ => True

/-- What the history says about the tickets. -/
structure Recorded (history : List (Event T ι Cmd Res Call Ret))
    (tickets : ℕ → Option (Ticket T ι Cmd Res)) : Prop where
  opened : ∀ i t chan server command, At history i (.opened t chan server command) →
    ∃ stage, tickets chan = some ⟨t, server, command, stage⟩ ∧
      ∀ result, stage.result = some result →
        ∃ j, i < j ∧ At history j (.applied server chan command result)
  opened_once : ∀ i j t t' chan server server' command command',
    At history i (.opened t chan server command) → At history j (.opened t' chan server' command') →
      i = j
  ticket : ∀ chan k, tickets chan = some k →
    ∃ i, At history i (.opened k.owner chan k.server k.command)
  applied : ∀ i server chan command result, At history i (.applied server chan command result) →
    ∃ t stage, tickets chan = some ⟨t, server, command, stage⟩ ∧ stage.result = some result
  applied_once : ∀ i j server server' chan command command' result result',
    At history i (.applied server chan command result) →
      At history j (.applied server' chan command' result') → i = j

/-- Which tickets the places of the system stand for. -/
structure Placed (net : Net T ι Cmd Res Call Ret σ)
    (tickets : ℕ → Option (Ticket T ι Cmd Res)) : Prop where
  fresh : ∀ chan, net.nextChan ≤ chan → tickets chan = none
  mailbox : ∀ server, ∀ envelope ∈ (net.servers server).mailbox,
    ∃ t, tickets envelope.chan = some ⟨t, server, envelope.command, .sent⟩
  nodup : ∀ server, ((net.servers server).mailbox.map Envelope.chan).Nodup
  received : ∀ server envelope, (net.servers server).phase = .received envelope →
    ∃ t, tickets envelope.chan = some ⟨t, server, envelope.command, .taken⟩
  answering : ∀ server chan result, (net.servers server).phase = .answering chan result →
    ∃ t command, tickets chan = some ⟨t, server, command, .applied result⟩
  replies : ∀ chan result, net.replies chan = some result →
    ∃ t server command, tickets chan = some ⟨t, server, command, .answered result⟩

/-- The call of the thread that began at position `i` is still under way. -/
def Begun (history : List (Event T ι Cmd Res Call Ret)) (t : T) (call : Call) (i : ℕ) : Prop :=
  At history i (.invoked t call) ∧ ∀ j event, i < j → At history j event → ¬ event.Bounds t

/-- What the history has to say about the end of an exchange, at position `k`. -/
def Ended (history : List (Event T ι Cmd Res Call Ret))
    (tickets : ℕ → Option (Ticket T ι Cmd Res)) (e : Exchange ι Cmd Res) (k : ℕ) : Prop :=
  match e.reply with
  | .ok result => At history k (.applied e.server e.chan e.command result)
  | .error .unavailable => ∃ ticket, tickets e.chan = some ticket ∧ ticket.stage = .dropped
  | .error .timeout => True

/-- The exchanges of `t` took place one after the other, between the positions `i` and `m`, and
each ended as `ended` says. -/
def Explained (history : List (Event T ι Cmd Res Call Ret)) (ended : Exchange ι Cmd Res → ℕ → Prop)
    (t : T) : ℕ → List (Exchange ι Cmd Res) → ℕ → Prop
  | i, [], m => i < m
  | i, e :: exchanges, m => ∃ j k, i < j ∧ j ≤ k ∧
      At history j (.opened t e.chan e.server e.command) ∧ ended e k ∧
      Explained history ended t k exchanges m

/-- The channels `t` opened between the positions `i` and `m` are those of the exchanges. -/
def Complete (history : List (Event T ι Cmd Res Call Ret)) (t : T) (i : ℕ)
    (exchanges : List (Exchange ι Cmd Res)) (m : ℕ) : Prop :=
  ∀ j chan server command, i < j → j < m → At history j (.opened t chan server command) →
    ∃ e ∈ exchanges, e.chan = chan

variable (service : Service ι Cmd Res Call Ret σ)

/-- Before position `m`, the thread had come to `program` in the call it began at `i`. -/
def Reaches (history : List (Event T ι Cmd Res Call Ret))
    (tickets : ℕ → Option (Ticket T ι Cmd Res)) (t : T) (call : Call) (i : ℕ)
    (program : Prog ι Cmd Res Ret) (m : ℕ) : Prop :=
  Begun history t call i ∧ ∃ exchanges, (service.program call).Follows exchanges program ∧
    Explained history (Ended history tickets) t i exchanges m ∧ Complete history t i exchanges m

/-- What `t` does at position `j` is part of the call it began at `i`, or the end of it. -/
def Spans (history : List (Event T ι Cmd Res Call Ret)) (t : T) (call : Call) (i j : ℕ) : Prop :=
  At history i (.invoked t call) ∧
    ∀ k event, i < k → k < j → At history k event → ¬ event.Bounds t

/-- The event at position `j` is one of a call that had come to `program`. -/
def Before (history : List (Event T ι Cmd Res Call Ret)) (ended : Exchange ι Cmd Res → ℕ → Prop)
    (t : T) (call : Call) (program : Prog ι Cmd Res Ret) (j : ℕ) : Prop :=
  ∃ i, Spans history t call i j ∧
    ∃ exchanges, (service.program call).Follows exchanges program ∧
      Explained history ended t i exchanges j ∧ Complete history t i exchanges j

instance [DecidableEq T] (t : T) :
    DecidablePred (Event.Bounds t : Event T ι Cmd Res Call Ret → Prop)
  | .invoked t' _ => inferInstanceAs (Decidable (t' = t))
  | .returned t' _ _ => inferInstanceAs (Decidable (t' = t))
  | .opened .. | .sent .. | .refused .. | .gaveUp .. | .took .. | .applied .. | .answered ..
  | .polled .. | .received .. | .timedOut .. => isFalse id

instance [DecidableEq T] [DecidableEq ι] [DecidableEq Cmd] [DecidableEq Res] [DecidableEq Call]
    [DecidableEq Ret] (history : List (Event T ι Cmd Res Call Ret)) (t : T) (call : Call)
    (i j : ℕ) :
    Decidable (Spans history t call i j) :=
  inferInstanceAs (Decidable
    (At history i (.invoked t call) ∧ Between history i j fun event => ¬ event.Bounds t))

/-- A thread is in one call at a time. -/
theorem Spans.unique {history : List (Event T ι Cmd Res Call Ret)} {t : T} {call call' : Call}
    {i i' j j' p : ℕ} (h : Spans history t call i j) (h' : Spans history t call' i' j')
    (hip : i < p) (hpj : p ≤ j) (hip' : i' < p) (hpj' : p ≤ j') : i = i' ∧ call = call' := by
  rcases Nat.lt_trichotomy i i' with hlt | rfl | hgt
  · exact absurd rfl (h.2 i' _ hlt (by omega) h'.1)
  · cases h.1.eq h'.1
    exact ⟨rfl, rfl⟩
  · exact absurd rfl (h'.2 i _ hgt (by omega) h.1)

theorem Spans.mono {history : List (Event T ι Cmd Res Call Ret)} {t : T} {call : Call} {i j j' : ℕ}
    (h : Spans history t call i j) (hj : j' ≤ j) : Spans history t call i j' :=
  ⟨h.1, Between.mono h.2 (Nat.le_refl _) hj⟩

/-- A call of the thread from its invocation at `i` to its return at `j`. -/
structure Completed (history : List (Event T ι Cmd Res Call Ret)) (t : T) (call : Call)
    (result : Ret) (i j : ℕ) : Prop where
  spans : Spans history t call i j
  returned : At history j (.returned t call result)
  lt : i < j

instance [DecidableEq T] [DecidableEq ι] [DecidableEq Cmd] [DecidableEq Res] [DecidableEq Call]
    [DecidableEq Ret] (history : List (Event T ι Cmd Res Call Ret)) (t : T) (call : Call)
    (result : Ret) (i j : ℕ) : Decidable (Completed history t call result i j) :=
  decidable_of_iff
    (Spans history t call i j ∧ At history j (.returned t call result) ∧ i < j)
    ⟨fun ⟨hspans, hat, hlt⟩ => ⟨hspans, hat, hlt⟩, fun ⟨hspans, hat, hlt⟩ => ⟨hspans, hat, hlt⟩⟩

/-- The channel of the thread's pending exchange was opened at `j`, its last. -/
def Opening (history : List (Event T ι Cmd Res Call Ret)) (t : T) (p : Pending ι Cmd Res Ret)
    (j : ℕ) : Prop :=
  At history j (.opened t p.chan p.server p.command) ∧
    ∀ k event, j < k → At history k event → ¬ event.Opens t

/-- What the history says about a thread. -/
def ThreadInv (history : List (Event T ι Cmd Res Call Ret))
    (tickets : ℕ → Option (Ticket T ι Cmd Res)) (t : T) : Thread ι Cmd Res Call Ret → Prop
  | .idle => True
  | .running call program =>
      ∃ i, Reaches service history tickets t call i program history.length
  | .sending call p =>
      ∃ i j, Reaches service history tickets t call i (.call p.server p.command p.next) j ∧
        Opening history t p j ∧ tickets p.chan = some ⟨t, p.server, p.command, .opened⟩
  | .waiting call p =>
      ∃ i j, Reaches service history tickets t call i (.call p.server p.command p.next) j ∧
        Opening history t p j ∧ ∃ stage : Stage Res, stage.Accepted ∧
          tickets p.chan = some ⟨t, p.server, p.command, stage⟩

/-- The invariant of all runs. -/
structure Inv (history : List (Event T ι Cmd Res Call Ret)) (net : Net T ι Cmd Res Call Ret σ)
    (tickets : ℕ → Option (Ticket T ι Cmd Res)) : Prop where
  recorded : Recorded history tickets
  placed : Placed net tickets
  threads : ∀ t, ThreadInv service history tickets t (net.threads t)
  returns : ∀ j t call result, At history j (.returned t call result) →
    Before service history (Ended history tickets) t call (.ret result) j
  opens : ∀ j t chan server command, At history j (.opened t chan server command) →
    ∃ call next, Before service history (Ended history tickets) t call (.call server command next) j

/-! ## Moving tickets and longer histories -/

/-- One ticket moved to another stage. -/
def advance (tickets : ℕ → Option (Ticket T ι Cmd Res)) (chan : ℕ) (stage : Stage Res) :
    ℕ → Option (Ticket T ι Cmd Res) :=
  Function.update tickets chan ((tickets chan).map fun k => { k with stage := stage })

section Tickets

variable {history : List (Event T ι Cmd Res Call Ret)} {tickets : ℕ → Option (Ticket T ι Cmd Res)}
  {chan : ℕ} {k : Ticket T ι Cmd Res} {stage : Stage Res}

@[simp] theorem advance_self (hk : tickets chan = some k) :
    advance tickets chan stage chan = some { k with stage := stage } := by
  simp [advance, hk]

theorem advance_of_ne {chan' : ℕ} (h : chan' ≠ chan) :
    advance tickets chan stage chan' = tickets chan' :=
  Function.update_of_ne h ..

/-- A ticket found after the move was there before it, if need be in the old stage. -/
theorem advance_eq_some (hk : tickets chan = some k) {chan' : ℕ} {k' : Ticket T ι Cmd Res}
    (h : advance tickets chan stage chan' = some k') :
    chan' ≠ chan ∧ tickets chan' = some k' ∨ chan' = chan ∧ k' = { k with stage := stage } := by
  by_cases hne : chan' = chan
  · subst hne
    rw [advance_self hk] at h
    exact Or.inr ⟨rfl, (Option.some.inj h).symm⟩
  · rw [advance_of_ne hne] at h
    exact Or.inl ⟨hne, h⟩

/-- The move leaves every ticket in another stage than the moved one's. -/
theorem advance_of_stage (hk : tickets chan = some k) {chan' : ℕ} {k' : Ticket T ι Cmd Res}
    (hk' : tickets chan' = some k') (hstage : k'.stage ≠ k.stage) :
    advance tickets chan stage chan' = some k' := by
  have hne : chan' ≠ chan := by
    rintro rfl
    rw [hk] at hk'
    cases hk'
    exact hstage rfl
  rw [advance_of_ne hne, hk']

/-- A silent event says nothing about tickets. -/
theorem Recorded.silent (h : Recorded history tickets) {event : Event T ι Cmd Res Call Ret}
    (hopened : ∀ t chan server command, event ≠ .opened t chan server command)
    (happlied : ∀ server chan command result, event ≠ .applied server chan command result) :
    Recorded (history ++ [event]) tickets := by
  have hold_opened : ∀ {i t chan server command},
      At (history ++ [event]) i (.opened t chan server command) →
        At history i (.opened t chan server command) := by
    intro i t chan server command hat
    exact (at_snoc.mp hat).resolve_right fun hlast => hopened _ _ _ _ hlast.2.symm
  have hold_applied : ∀ {i server chan command result},
      At (history ++ [event]) i (.applied server chan command result) →
        At history i (.applied server chan command result) := by
    intro i server chan command result hat
    exact (at_snoc.mp hat).resolve_right fun hlast => happlied _ _ _ _ hlast.2.symm
  refine ⟨?_, ?_, ?_, ?_, ?_⟩
  · intro i t chan server command hat
    obtain ⟨stage, hticket, hresult⟩ := h.opened i t chan server command (hold_opened hat)
    refine ⟨stage, hticket, fun result hr => ?_⟩
    obtain ⟨j, hlt, hj⟩ := hresult result hr
    exact ⟨j, hlt, hj.append _⟩
  · intro i j t t' chan server server' command command' hi hj
    exact h.opened_once i j t t' chan server server' command command' (hold_opened hi)
      (hold_opened hj)
  · intro chan k hk
    obtain ⟨i, hi⟩ := h.ticket chan k hk
    exact ⟨i, hi.append _⟩
  · intro i server chan command result hat
    exact h.applied i server chan command result (hold_applied hat)
  · intro i j server server' chan command command' result result' hi hj
    exact h.applied_once i j server server' chan command command' result result'
      (hold_applied hi) (hold_applied hj)

/-- A move that does not change what is known of the answer. -/
theorem Recorded.advance (h : Recorded history tickets) (hk : tickets chan = some k)
    (stage : Stage Res) (hresult : stage.result = k.stage.result) :
    Recorded history (advance tickets chan stage) := by
  refine ⟨?_, h.opened_once, ?_, ?_, h.applied_once⟩
  · intro i t chan' server command hat
    obtain ⟨stage', hticket, hanswer⟩ := h.opened i t chan' server command hat
    by_cases hne : chan' = chan
    · subst hne
      rw [hk] at hticket
      cases hticket
      exact ⟨stage, advance_self hk, fun result hr => hanswer result (hresult ▸ hr)⟩
    · exact ⟨stage', by rw [advance_of_ne hne, hticket], hanswer⟩
  · intro chan' k' hk'
    rcases advance_eq_some hk hk' with ⟨-, hold⟩ | ⟨rfl, rfl⟩
    · exact h.ticket chan' k' hold
    · exact h.ticket _ k hk
  · intro i server chan' command result hat
    obtain ⟨t, stage', hticket, hanswer⟩ := h.applied i server chan' command result hat
    by_cases hne : chan' = chan
    · subst hne
      rw [hk] at hticket
      cases hticket
      exact ⟨t, stage, advance_self hk, hresult.trans hanswer⟩
    · exact ⟨t, stage', by rw [advance_of_ne hne, hticket], hanswer⟩

/-- A channel not used before is opened. -/
theorem Recorded.openChan (h : Recorded history tickets) (hfresh : tickets chan = none) (t : T)
    (server : ι) (command : Cmd) :
    Recorded (history ++ [.opened t chan server command])
      (Function.update tickets chan (some ⟨t, server, command, .opened⟩)) := by
  have hne : ∀ {chan' k'}, tickets chan' = some k' → chan' ≠ chan := by
    rintro chan' k' hk' rfl
    rw [hfresh] at hk'
    cases hk'
  have hkeep : ∀ {chan' k'}, tickets chan' = some k' →
      Function.update tickets chan (some ⟨t, server, command, .opened⟩) chan' = some k' := by
    intro chan' k' hk'
    rw [Function.update_of_ne (hne hk'), hk']
  refine ⟨?_, ?_, ?_, ?_, ?_⟩
  · intro i t' chan' server' command' hat
    rcases at_snoc.mp hat with hold | ⟨-, heq⟩
    · obtain ⟨stage, hticket, hanswer⟩ := h.opened i t' chan' server' command' hold
      refine ⟨stage, hkeep hticket, fun result hr => ?_⟩
      obtain ⟨j, hlt, hj⟩ := hanswer result hr
      exact ⟨j, hlt, hj.append _⟩
    · cases heq
      exact ⟨.opened, Function.update_self .., fun result hr => by cases hr⟩
  · intro i j t₁ t₂ chan' server₁ server₂ command₁ command₂ hi hj
    rcases at_snoc.mp hi with hi' | ⟨rfl, hi'⟩ <;> rcases at_snoc.mp hj with hj' | ⟨rfl, hj'⟩
    · exact h.opened_once i j t₁ t₂ chan' server₁ server₂ command₁ command₂ hi' hj'
    · cases hj'
      obtain ⟨stage, hticket, -⟩ := h.opened _ _ _ _ _ hi'
      exact absurd rfl (hne hticket)
    · cases hi'
      obtain ⟨stage, hticket, -⟩ := h.opened _ _ _ _ _ hj'
      exact absurd rfl (hne hticket)
    · rfl
  · intro chan' k' hk'
    by_cases hsame : chan' = chan
    · subst hsame
      rw [Function.update_self] at hk'
      cases hk'
      exact ⟨_, at_last _ _⟩
    · rw [Function.update_of_ne hsame] at hk'
      obtain ⟨i, hi⟩ := h.ticket chan' k' hk'
      exact ⟨i, hi.append _⟩
  · intro i server' chan' command' result hat
    rcases at_snoc.mp hat with hold | ⟨-, heq⟩
    · obtain ⟨t', stage, hticket, hanswer⟩ := h.applied i server' chan' command' result hold
      exact ⟨t', stage, hkeep hticket, hanswer⟩
    · cases heq
  · intro i j server₁ server₂ chan' command₁ command₂ result₁ result₂ hi hj
    rcases at_snoc.mp hi with hi' | ⟨-, heq⟩ <;> rcases at_snoc.mp hj with hj' | ⟨-, heq'⟩
    · exact h.applied_once i j server₁ server₂ chan' command₁ command₂ result₁ result₂ hi' hj'
    · cases heq'
    · cases heq
    · cases heq

/-- A command not applied before is applied. -/
theorem Recorded.apply (h : Recorded history tickets) (hk : tickets chan = some k)
    (hnone : k.stage.result = none) (result : Res) :
    Recorded (history ++ [.applied k.server chan k.command result])
      (Rpc.advance tickets chan (.applied result)) := by
  have hnot : ∀ {i server command result'},
      ¬ At history i (.applied server chan command result') := by
    intro i server command result' hat
    obtain ⟨t, stage', hticket, hanswer⟩ := h.applied i server chan command result' hat
    rw [hk] at hticket
    cases hticket
    rw [hnone] at hanswer
    cases hanswer
  refine ⟨?_, ?_, ?_, ?_, ?_⟩
  · intro i t chan' server command hat
    rcases at_snoc.mp hat with hold | ⟨-, heq⟩
    · obtain ⟨stage', hticket, hanswer⟩ := h.opened i t chan' server command hold
      by_cases hne : chan' = chan
      · subst hne
        rw [hk] at hticket
        cases hticket
        refine ⟨.applied result, advance_self hk, fun result' hr => ?_⟩
        cases hr
        exact ⟨_, hold.lt, at_last _ _⟩
      · refine ⟨stage', by rw [advance_of_ne hne, hticket], fun result' hr => ?_⟩
        obtain ⟨j, hlt, hj⟩ := hanswer result' hr
        exact ⟨j, hlt, hj.append _⟩
    · cases heq
  · intro i j t₁ t₂ chan' server₁ server₂ command₁ command₂ hi hj
    rcases at_snoc.mp hi with hi' | ⟨-, heq⟩ <;> rcases at_snoc.mp hj with hj' | ⟨-, heq'⟩
    · exact h.opened_once i j t₁ t₂ chan' server₁ server₂ command₁ command₂ hi' hj'
    · cases heq'
    · cases heq
    · cases heq
  · intro chan' k' hk'
    rcases advance_eq_some hk hk' with ⟨-, hold⟩ | ⟨rfl, rfl⟩
    · obtain ⟨i, hi⟩ := h.ticket chan' k' hold
      exact ⟨i, hi.append _⟩
    · obtain ⟨i, hi⟩ := h.ticket _ k hk
      exact ⟨i, hi.append _⟩
  · intro i server chan' command result' hat
    rcases at_snoc.mp hat with hold | ⟨-, heq⟩
    · obtain ⟨t, stage', hticket, hanswer⟩ := h.applied i server chan' command result' hold
      have hne : chan' ≠ chan := by
        rintro rfl
        exact hnot hold
      exact ⟨t, stage', by rw [advance_of_ne hne, hticket], hanswer⟩
    · cases heq
      exact ⟨k.owner, .applied result, advance_self hk, rfl⟩
  · intro i j server₁ server₂ chan' command₁ command₂ result₁ result₂ hi hj
    rcases at_snoc.mp hi with hi' | ⟨rfl, heq⟩ <;> rcases at_snoc.mp hj with hj' | ⟨rfl, heq'⟩
    · exact h.applied_once i j server₁ server₂ chan' command₁ command₂ result₁ result₂ hi' hj'
    · cases heq'
      exact absurd hi' hnot
    · cases heq
      exact absurd hj' hnot
    · rfl

end Tickets

/-! ## What later steps cannot take back -/

/-- Tickets that dropped commands stand on are kept. -/
def KeepsDropped (tickets tickets' : ℕ → Option (Ticket T ι Cmd Res)) : Prop :=
  ∀ chan k, tickets chan = some k → k.stage = .dropped → tickets' chan = some k

section Stable

variable {history : List (Event T ι Cmd Res Call Ret)}
  {tickets tickets' : ℕ → Option (Ticket T ι Cmd Res)} {t : T} {call : Call} {i : ℕ}

theorem keepsDropped_refl (tickets : ℕ → Option (Ticket T ι Cmd Res)) :
    KeepsDropped tickets tickets :=
  fun _ _ hk _ => hk

theorem keepsDropped_advance {chan : ℕ} {k : Ticket T ι Cmd Res} (hk : tickets chan = some k)
    (hstage : k.stage ≠ .dropped) (stage : Stage Res) :
    KeepsDropped tickets (advance tickets chan stage) := by
  intro chan' k' hk' hdropped
  have hne : chan' ≠ chan := by
    rintro rfl
    rw [hk] at hk'
    cases hk'
    exact hstage hdropped
  rw [advance_of_ne hne, hk']

theorem keepsDropped_update {chan : ℕ} (hfresh : tickets chan = none)
    (new : Option (Ticket T ι Cmd Res)) :
    KeepsDropped tickets (Function.update tickets chan new) := by
  intro chan' k' hk' _
  have hne : chan' ≠ chan := by
    rintro rfl
    rw [hfresh] at hk'
    cases hk'
  rw [Function.update_of_ne hne, hk']

theorem Ended.mono {e : Exchange ι Cmd Res} {k : ℕ} (h : Ended history tickets e k)
    (hkeep : KeepsDropped tickets tickets') (more : List (Event T ι Cmd Res Call Ret)) :
    Ended (history ++ more) tickets' e k := by
  obtain ⟨chan, server, command, reply⟩ := e
  rcases reply with (_ | _) | result
  · obtain ⟨k, hk, hdropped⟩ := h
    exact ⟨k, hkeep _ _ hk hdropped, hdropped⟩
  · trivial
  · exact h.append _

section Explained

variable {ended ended' : Exchange ι Cmd Res → ℕ → Prop} {exchanges : List (Exchange ι Cmd Res)}

theorem Explained.lt {m : ℕ} (h : Explained history ended t i exchanges m) : i < m := by
  induction exchanges generalizing i with
  | nil => exact h
  | cons e exchanges ih =>
      obtain ⟨j, k, hij, hjk, -, -, hrest⟩ := h
      have hkm := ih hrest
      omega

theorem Explained.mono {m m' : ℕ} (h : Explained history ended t i exchanges m)
    (hended : ∀ e k, ended e k → ended' e k) (more : List (Event T ι Cmd Res Call Ret))
    (hm : m ≤ m') : Explained (history ++ more) ended' t i exchanges m' := by
  induction exchanges generalizing i with
  | nil => exact Nat.lt_of_lt_of_le h hm
  | cons e exchanges ih =>
      obtain ⟨j, k, hij, hjk, hopened, hend, hrest⟩ := h
      exact ⟨j, k, hij, hjk, hopened.append _, hended e k hend, ih hrest⟩

/-- Every exchange has its place between the two positions. -/
theorem Explained.mem {m : ℕ} (h : Explained history ended t i exchanges m)
    {e : Exchange ι Cmd Res} (he : e ∈ exchanges) :
    ∃ j k, i < j ∧ j ≤ k ∧ k < m ∧ At history j (.opened t e.chan e.server e.command) ∧
      ended e k := by
  induction exchanges generalizing i with
  | nil => exact absurd he List.not_mem_nil
  | cons first exchanges ih =>
      obtain ⟨j, k, hij, hjk, hopened, hend, hrest⟩ := h
      rcases List.mem_cons.mp he with rfl | he'
      · exact ⟨j, k, hij, hjk, hrest.lt, hopened, hend⟩
      · obtain ⟨j', k', hkj', hjk', hkm', hopened', hend'⟩ := ih hrest he'
        exact ⟨j', k', by omega, hjk', hkm', hopened', hend'⟩

/-- One more exchange, opened after the others. -/
theorem Explained.snoc {e : Exchange ι Cmd Res} {j k m : ℕ}
    (h : Explained history ended t i exchanges j)
    (hopened : At history j (.opened t e.chan e.server e.command)) (hjk : j ≤ k)
    (hended : ended e k) (hkm : k < m) : Explained history ended t i (exchanges ++ [e]) m := by
  induction exchanges generalizing i with
  | nil => exact ⟨j, k, h, hjk, hopened, hended, hkm⟩
  | cons e' exchanges ih =>
      obtain ⟨j', k', hij, hjk', hopened', hended', hrest⟩ := h
      exact ⟨j', k', hij, hjk', hopened', hended', ih hrest⟩

end Explained

theorem Event.of_bounds {event : Event T ι Cmd Res Call Ret} (h : event.Bounds t) :
    event.Of t := by
  cases event <;> first | exact h | exact h.elim

theorem Event.of_opens {event : Event T ι Cmd Res Call Ret} (h : event.Opens t) : event.Of t := by
  cases event <;> first | exact h | exact h.elim

/-- Where the thread opens nothing, the exchanges stay complete. -/
theorem Complete.mono {exchanges : List (Exchange ι Cmd Res)} {m m' : ℕ}
    (h : Complete history t i exchanges m)
    (hquiet : ∀ j event, m ≤ j → j < m' → At history j event → ¬ event.Opens t) :
    Complete history t i exchanges m' := by
  intro j chan server command hij hjm hat
  rcases Nat.lt_or_ge j m with hlt | hge
  · exact h j chan server command hij hlt hat
  · exact absurd rfl (hquiet j _ hge hjm hat)

theorem Complete.append {exchanges : List (Exchange ι Cmd Res)} {m : ℕ}
    (h : Complete history t i exchanges m) (hm : m ≤ history.length)
    (event : Event T ι Cmd Res Call Ret) : Complete (history ++ [event]) t i exchanges m := by
  intro j chan server command hij hjm hat
  rcases at_snoc.mp hat with hold | ⟨rfl, -⟩
  · exact h j chan server command hij hjm hold
  · omega

/-- One more exchange, the last one the thread opened a channel for. -/
theorem Complete.snoc {exchanges : List (Exchange ι Cmd Res)} {p : Pending ι Cmd Res Ret} {j : ℕ}
    (h : Complete history t i exchanges j) (hopening : Opening history t p j)
    (reply : Except Fault Res) (m : ℕ) :
    Complete history t i (exchanges ++ [⟨p.chan, p.server, p.command, reply⟩]) m := by
  intro k chan server command hik _ hat
  rcases Nat.lt_trichotomy k j with hlt | rfl | hgt
  · obtain ⟨e, he, hchan⟩ := h k chan server command hik hlt hat
    exact ⟨e, List.mem_append_left _ he, hchan⟩
  · cases hat.eq hopening.1
    exact ⟨_, List.mem_append_right _ (List.mem_singleton_self _), rfl⟩
  · exact absurd rfl (hopening.2 k _ hgt hat)

theorem Opening.snoc {p : Pending ι Cmd Res Ret} {j : ℕ} (h : Opening history t p j)
    {event : Event T ι Cmd Res Call Ret} (hevent : ¬ event.Opens t) :
    Opening (history ++ [event]) t p j := by
  refine ⟨h.1.append _, ?_⟩
  intro k event' hjk hat
  rcases at_snoc.mp hat with hold | ⟨-, rfl⟩
  · exact h.2 k event' hjk hold
  · exact hevent

theorem Begun.snoc (h : Begun history t call i) {event : Event T ι Cmd Res Call Ret}
    (hbounds : ¬ event.Bounds t) : Begun (history ++ [event]) t call i := by
  refine ⟨h.1.append _, ?_⟩
  intro j event' hlt hat
  rcases at_snoc.mp hat with hold | ⟨-, rfl⟩
  · exact h.2 j event' hlt hold
  · exact hbounds

variable {service} in
theorem Reaches.snoc {program : Prog ι Cmd Res Ret} {m : ℕ}
    (h : Reaches service history tickets t call i program m)
    (hkeep : KeepsDropped tickets tickets') {event : Event T ι Cmd Res Call Ret}
    (hbounds : ¬ event.Bounds t) (hm : m ≤ history.length) :
    Reaches service (history ++ [event]) tickets' t call i program m := by
  obtain ⟨hbegun, exchanges, hfollows, hexplained, hcomplete⟩ := h
  exact ⟨hbegun.snoc hbounds, exchanges, hfollows,
    hexplained.mono (fun _ _ hend => hend.mono hkeep _) _ (Nat.le_refl _), hcomplete.append hm _⟩

variable {service} in
/-- A running thread, after an event that is none of its own. -/
theorem Reaches.snoc_length {program : Prog ι Cmd Res Ret}
    (h : Reaches service history tickets t call i program history.length)
    (hkeep : KeepsDropped tickets tickets') {event : Event T ι Cmd Res Call Ret}
    (hevent : ¬ event.Of t) :
    Reaches service (history ++ [event]) tickets' t call i program (history ++ [event]).length := by
  obtain ⟨hbegun, exchanges, hfollows, hexplained, hcomplete⟩ := h
  refine ⟨hbegun.snoc (mt Event.of_bounds hevent), exchanges, hfollows,
    hexplained.mono (fun _ _ hend => hend.mono hkeep _) _ (by simp), ?_⟩
  refine (hcomplete.append (Nat.le_refl _) event).mono ?_
  intro j event' hge _ hat
  rcases at_snoc.mp hat with hold | ⟨-, rfl⟩
  · exact absurd hold.lt (Nat.not_lt.mpr hge)
  · exact mt Event.of_opens hevent

variable {service} in
/-- A thread is not concerned by a step that leaves its open ticket, drops nothing of it and does
not begin or end its call. -/
theorem ThreadInv.snoc {thread : Thread ι Cmd Res Call Ret}
    (h : ThreadInv service history tickets t thread) (hkeep : KeepsDropped tickets tickets')
    (hopen : ∀ chan k, tickets chan = some k → k.owner = t → k.stage = .opened →
      tickets' chan = some k)
    (haccepted : ∀ chan k, tickets chan = some k → k.owner = t → k.stage.Accepted →
      ∃ stage : Stage Res, stage.Accepted ∧ tickets' chan = some { k with stage := stage })
    {event : Event T ι Cmd Res Call Ret} (hevent : ¬ event.Of t) :
    ThreadInv service (history ++ [event]) tickets' t thread := by
  have hbounds := mt Event.of_bounds hevent
  have hopens := mt Event.of_opens hevent
  cases thread with
  | idle => trivial
  | running call program =>
      obtain ⟨i, hreaches⟩ := h
      exact ⟨i, hreaches.snoc_length hkeep hevent⟩
  | sending call p =>
      obtain ⟨i, j, hreaches, hopening, hticket⟩ := h
      exact ⟨i, j, hreaches.snoc hkeep hbounds (Nat.le_of_lt hopening.1.lt),
        hopening.snoc hopens, hopen _ _ hticket rfl rfl⟩
  | waiting call p =>
      obtain ⟨i, j, hreaches, hopening, stage, hstage, hticket⟩ := h
      obtain ⟨stage', hstage', hticket'⟩ := haccepted _ _ hticket rfl hstage
      exact ⟨i, j, hreaches.snoc hkeep hbounds (Nat.le_of_lt hopening.1.lt),
        hopening.snoc hopens, stage', hstage', hticket'⟩

variable {service} in
theorem Before.snoc {ended ended' : Exchange ι Cmd Res → ℕ → Prop} {program : Prog ι Cmd Res Ret}
    {j : ℕ} (h : Before service history ended t call program j) (hj : j ≤ history.length)
    (event : Event T ι Cmd Res Call Ret) (hended : ∀ e k, ended e k → ended' e k) :
    Before service (history ++ [event]) ended' t call program j := by
  obtain ⟨i, ⟨hinvoked, hquiet⟩, exchanges, hfollows, hexplained, hcomplete⟩ := h
  refine ⟨i, ⟨hinvoked.append _, ?_⟩, exchanges, hfollows,
    hexplained.mono hended _ (Nat.le_refl _), hcomplete.append hj _⟩
  intro k event' hik hkj hat
  rcases at_snoc.mp hat with hold | ⟨rfl, -⟩
  · exact hquiet k event' hik hkj hold
  · omega

variable {service} in
/-- What the thread is about to do comes after what its call did so far. -/
theorem Reaches.before {program : Prog ι Cmd Res Ret}
    (h : Reaches service history tickets t call i program history.length)
    (event : Event T ι Cmd Res Call Ret) (hkeep : KeepsDropped tickets tickets') :
    Before service (history ++ [event]) (Ended (history ++ [event]) tickets') t call program
      history.length := by
  obtain ⟨⟨hinvoked, hquiet⟩, hreaches⟩ := h
  have hbefore : Before service history (Ended history tickets) t call program history.length :=
    ⟨i, ⟨hinvoked, fun k event hik _ => hquiet k event hik⟩, hreaches⟩
  exact hbefore.snoc (Nat.le_refl _) event fun _ _ hend => hend.mono hkeep _

end Stable

/-! ## Steps -/

section Steps

variable {service} {history : List (Event T ι Cmd Res Call Ret)}
  {net : Net T ι Cmd Res Call Ret σ} {tickets tickets' : ℕ → Option (Ticket T ι Cmd Res)}

/-- Returns recorded before stay explained. -/
theorem returns_snoc (h : Inv service history net tickets) (hkeep : KeepsDropped tickets tickets')
    {event : Event T ι Cmd Res Call Ret}
    (hevent : ∀ t call result, event = .returned t call result →
      Before service (history ++ [event]) (Ended (history ++ [event]) tickets') t call (.ret result)
        history.length)
    (j : ℕ) (t : T) (call : Call) (result : Ret)
    (hat : At (history ++ [event]) j (.returned t call result)) :
    Before service (history ++ [event]) (Ended (history ++ [event]) tickets') t call (.ret result)
      j := by
  rcases at_snoc.mp hat with hold | ⟨rfl, heq⟩
  · exact (h.returns j t call result hold).snoc (Nat.le_of_lt hold.lt) _
      fun _ _ hend => hend.mono hkeep _
  · exact hevent t call result heq.symm

/-- Channels opened before stay explained. -/
theorem opens_snoc (h : Inv service history net tickets) (hkeep : KeepsDropped tickets tickets')
    {event : Event T ι Cmd Res Call Ret}
    (hevent : ∀ t chan server command, event = .opened t chan server command →
      ∃ call next, Before service (history ++ [event]) (Ended (history ++ [event]) tickets') t call
        (.call server command next) history.length)
    (j : ℕ) (t : T) (chan : ℕ) (server : ι) (command : Cmd)
    (hat : At (history ++ [event]) j (.opened t chan server command)) :
    ∃ call next, Before service (history ++ [event]) (Ended (history ++ [event]) tickets') t call
      (.call server command next) j := by
  rcases at_snoc.mp hat with hold | ⟨rfl, heq⟩
  · obtain ⟨call, next, hbefore⟩ := h.opens j t chan server command hold
    exact ⟨call, next, hbefore.snoc (Nat.le_of_lt hold.lt) _ fun _ _ hend => hend.mono hkeep _⟩
  · exact hevent t chan server command heq.symm

/-- The places that tickets stand for do not include the threads. -/
theorem Placed.setThread [DecidableEq T] (h : Placed net tickets) (t : T)
    (thread : Thread ι Cmd Res Call Ret) : Placed (net.setThread t thread) tickets :=
  ⟨h.fresh, h.mailbox, h.nodup, h.received, h.answering, h.replies⟩

/-- A channel is opened: no place knows it yet. -/
theorem Placed.openChan (h : Placed net tickets) (new : Ticket T ι Cmd Res) :
    Placed { net with nextChan := net.nextChan + 1 }
      (Function.update tickets net.nextChan (some new)) := by
  have hkeep : ∀ {chan k}, tickets chan = some k →
      Function.update tickets net.nextChan (some new) chan = some k := by
    intro chan k hk
    have hne : chan ≠ net.nextChan := by
      rintro rfl
      rw [h.fresh _ (Nat.le_refl _)] at hk
      cases hk
    rw [Function.update_of_ne hne, hk]
  refine ⟨?_, ?_, ?_, ?_, ?_, ?_⟩
  · intro chan hle
    have hlt : net.nextChan < chan := hle
    rw [Function.update_of_ne (by omega)]
    exact h.fresh chan (by omega)
  · intro server envelope hmem
    obtain ⟨t, ht⟩ := h.mailbox server envelope hmem
    exact ⟨t, hkeep ht⟩
  · exact h.nodup
  · intro server envelope hphase
    obtain ⟨t, ht⟩ := h.received server envelope hphase
    exact ⟨t, hkeep ht⟩
  · intro server chan result hphase
    obtain ⟨t, command, ht⟩ := h.answering server chan result hphase
    exact ⟨t, command, hkeep ht⟩
  · intro chan result hr
    obtain ⟨t, server, command, ht⟩ := h.replies chan result hr
    exact ⟨t, server, command, hkeep ht⟩

section Advance

variable {chan : ℕ} {k : Ticket T ι Cmd Res} {stage : Stage Res} (h : Placed net tickets)
  (hk : tickets chan = some k)

include h hk

theorem Placed.fresh_advance : ∀ chan', net.nextChan ≤ chan' →
    advance tickets chan stage chan' = none := by
  intro chan' hle
  have hne : chan' ≠ chan := by
    rintro rfl
    rw [h.fresh _ hle] at hk
    cases hk
  rw [advance_of_ne hne]
  exact h.fresh chan' hle

theorem Placed.mailbox_advance (hstage : k.stage ≠ .sent) {server : ι} {envelope : Envelope Cmd}
    (hmem : envelope ∈ (net.servers server).mailbox) :
    ∃ t, advance tickets chan stage envelope.chan =
      some ⟨t, server, envelope.command, .sent⟩ := by
  obtain ⟨t, ht⟩ := h.mailbox server envelope hmem
  exact ⟨t, advance_of_stage hk ht hstage.symm⟩

theorem Placed.received_advance (hstage : k.stage ≠ .taken) {server : ι} {envelope : Envelope Cmd}
    (hphase : (net.servers server).phase = .received envelope) :
    ∃ t, advance tickets chan stage envelope.chan =
      some ⟨t, server, envelope.command, .taken⟩ := by
  obtain ⟨t, ht⟩ := h.received server envelope hphase
  exact ⟨t, advance_of_stage hk ht hstage.symm⟩

theorem Placed.answering_advance (hstage : ∀ result, k.stage ≠ .applied result) {server : ι}
    {chan' : ℕ} {result : Res} (hphase : (net.servers server).phase = .answering chan' result) :
    ∃ t command, advance tickets chan stage chan' =
      some ⟨t, server, command, .applied result⟩ := by
  obtain ⟨t, command, ht⟩ := h.answering server chan' result hphase
  exact ⟨t, command, advance_of_stage hk ht (hstage result).symm⟩

theorem Placed.replies_advance (hstage : ∀ result, k.stage ≠ .answered result) {chan' : ℕ}
    {result : Res} (hreply : net.replies chan' = some result) :
    ∃ t server command, advance tickets chan stage chan' =
      some ⟨t, server, command, .answered result⟩ := by
  obtain ⟨t, server, command, ht⟩ := h.replies chan' result hreply
  exact ⟨t, server, command, advance_of_stage hk ht (hstage result).symm⟩

end Advance

/-- The sender gives up: the command was in no place. -/
theorem Placed.giveUp (h : Placed net tickets) {chan : ℕ} {k : Ticket T ι Cmd Res}
    (hk : tickets chan = some k) (hstage : k.stage = .opened) :
    Placed net (advance tickets chan .dropped) := by
  refine ⟨h.fresh_advance hk, ?_, h.nodup, ?_, ?_, ?_⟩
  · exact fun _ _ hmem => h.mailbox_advance hk (by simp [hstage]) hmem
  · exact fun _ _ hphase => h.received_advance hk (by simp [hstage]) hphase
  · exact fun _ _ _ hphase => h.answering_advance hk (by simp [hstage]) hphase
  · exact fun _ _ hreply => h.replies_advance hk (by simp [hstage]) hreply

section OneServer

variable [DecidableEq ι] {chan : ℕ} {k : Ticket T ι Cmd Res} {stage : Stage Res}

/-- A step of one server, or into its mailbox, moves the ticket of one of its own commands: only
that server's places have to be looked at. -/
theorem Placed.server_step (h : Placed net tickets) (hk : tickets chan = some k)
    {net' : Net T ι Cmd Res Call Ret σ} {s : Server Cmd Res σ}
    (hservers : net'.servers = Function.update net.servers k.server s)
    (hnext : net'.nextChan = net.nextChan)
    (hmailbox : ∀ envelope ∈ s.mailbox, ∃ t, advance tickets chan stage envelope.chan =
      some ⟨t, k.server, envelope.command, .sent⟩)
    (hnodup : (s.mailbox.map Envelope.chan).Nodup)
    (hreceived : ∀ envelope, s.phase = .received envelope →
      ∃ t, advance tickets chan stage envelope.chan = some ⟨t, k.server, envelope.command, .taken⟩)
    (hanswering : ∀ chan' result, s.phase = .answering chan' result →
      ∃ t command, advance tickets chan stage chan' = some ⟨t, k.server, command, .applied result⟩)
    (hreplies : ∀ chan' result, net'.replies chan' = some result →
      ∃ t server command, advance tickets chan stage chan' =
        some ⟨t, server, command, .answered result⟩) :
    Placed net' (advance tickets chan stage) := by
  have hother : ∀ {server chan' k'}, server ≠ k.server → tickets chan' = some k' →
      k'.server = server → advance tickets chan stage chan' = some k' := by
    intro server chan' k' hne hk' hserver
    rw [advance_of_ne, hk']
    rintro rfl
    rw [hk] at hk'
    exact hne (hserver ▸ congrArg Ticket.server (Option.some.inj hk').symm)
  refine ⟨?_, ?_, ?_, ?_, ?_, hreplies⟩
  · rw [hnext]
    exact h.fresh_advance hk
  · intro server envelope hmem
    rw [hservers] at hmem
    by_cases hsame : server = k.server
    · subst hsame
      rw [Function.update_self] at hmem
      exact hmailbox envelope hmem
    · rw [Function.update_of_ne hsame] at hmem
      obtain ⟨t, ht⟩ := h.mailbox server envelope hmem
      exact ⟨t, hother hsame ht rfl⟩
  · intro server
    rw [hservers]
    by_cases hsame : server = k.server
    · subst hsame
      rwa [Function.update_self]
    · rw [Function.update_of_ne hsame]
      exact h.nodup server
  · intro server envelope hphase
    rw [hservers] at hphase
    by_cases hsame : server = k.server
    · subst hsame
      rw [Function.update_self] at hphase
      exact hreceived envelope hphase
    · rw [Function.update_of_ne hsame] at hphase
      obtain ⟨t, ht⟩ := h.received server envelope hphase
      exact ⟨t, hother hsame ht rfl⟩
  · intro server chan' result hphase
    rw [hservers] at hphase
    by_cases hsame : server = k.server
    · subst hsame
      rw [Function.update_self] at hphase
      exact hanswering chan' result hphase
    · rw [Function.update_of_ne hsame] at hphase
      obtain ⟨t, command, ht⟩ := h.answering server chan' result hphase
      exact ⟨t, command, hother hsame ht rfl⟩

/-- The mailbox accepts the command, as its last. -/
theorem Placed.send (h : Placed net tickets) (hk : tickets chan = some k)
    (hstage : k.stage = .opened) :
    Placed
      (net.setServer k.server
        { net.servers k.server with
          mailbox := (net.servers k.server).mailbox ++ [⟨k.command, chan⟩] })
      (advance tickets chan .sent) := by
  refine h.server_step hk rfl rfl ?_ ?_ ?_ ?_ ?_
  · intro envelope hmem
    rcases List.mem_append.mp hmem with hold | hnew
    · exact h.mailbox_advance hk (by simp [hstage]) hold
    · rw [List.mem_singleton] at hnew
      subst hnew
      exact ⟨k.owner, advance_self hk⟩
  · rw [List.map_append, List.nodup_append]
    refine ⟨h.nodup _, by simp, ?_⟩
    -- a command in the mailbox is sent, and this one was not
    rintro chan' hold chan'' hnew rfl
    obtain ⟨envelope, hmem, rfl⟩ := List.mem_map.mp hold
    rw [List.map_singleton, List.mem_singleton] at hnew
    obtain ⟨t, ht⟩ := h.mailbox _ envelope hmem
    rw [hnew, hk] at ht
    rw [Option.some.inj ht] at hstage
    cases hstage
  · exact fun _ hphase => h.received_advance hk (by simp [hstage]) hphase
  · exact fun _ _ hphase => h.answering_advance hk (by simp [hstage]) hphase
  · exact fun _ _ hreply => h.replies_advance hk (by simp [hstage]) hreply

/-- The server takes the oldest command. -/
theorem Placed.take (h : Placed net tickets) {server : ι} {envelope : Envelope Cmd}
    {rest : List (Envelope Cmd)} (hbox : (net.servers server).mailbox = envelope :: rest) :
    Placed
      (net.setServer server
        { net.servers server with mailbox := rest, phase := .received envelope })
      (advance tickets envelope.chan .taken) := by
  obtain ⟨t, hk⟩ := h.mailbox server envelope (by simp [hbox])
  have hnodup := h.nodup server
  rw [hbox, List.map_cons, List.nodup_cons] at hnodup
  refine h.server_step hk rfl rfl ?_ hnodup.2 ?_ ?_ ?_
  · intro envelope' hmem
    obtain ⟨t', ht'⟩ := h.mailbox server envelope' (by simp only [hbox, List.mem_cons, hmem, or_true])
    refine ⟨t', ?_⟩
    rw [advance_of_ne, ht']
    intro heq
    exact hnodup.1 (List.mem_map.mpr ⟨envelope', hmem, heq⟩)
  · intro envelope' hphase
    cases hphase
    exact ⟨t, advance_self hk⟩
  · intro chan' result hphase
    cases hphase
  · exact fun _ _ hreply => h.replies_advance hk (by simp) hreply

/-- The server applies the command it took. -/
theorem Placed.apply (h : Placed net tickets) {server : ι} {envelope : Envelope Cmd}
    (hphase : (net.servers server).phase = .received envelope) (state : σ) (result : Res) :
    Placed
      (net.setServer server
        { net.servers server with
          state := state
          phase := .answering envelope.chan result })
      (advance tickets envelope.chan (.applied result)) := by
  obtain ⟨t, hk⟩ := h.received server envelope hphase
  refine h.server_step hk rfl rfl ?_ (h.nodup server) ?_ ?_ ?_
  · exact fun _ hmem => h.mailbox_advance hk (by simp) hmem
  · intro envelope' hphase'
    cases hphase'
  · intro chan' result' hphase'
    cases hphase'
    exact ⟨t, envelope.command, advance_self hk⟩
  · exact fun _ _ hreply => h.replies_advance hk (by simp) hreply

/-- The server answers. -/
theorem Placed.answer (h : Placed net tickets) {server : ι} {result : Res}
    (hphase : (net.servers server).phase = .answering chan result) :
    Placed
      { net.setServer server { net.servers server with phase := .idle } with
        replies := Function.update net.replies chan (some result) }
      (advance tickets chan (.answered result)) := by
  obtain ⟨t, command, hk⟩ := h.answering server chan result hphase
  refine h.server_step hk rfl rfl ?_ (h.nodup server) ?_ ?_ ?_
  · exact fun _ hmem => h.mailbox_advance hk (by simp) hmem
  · intro envelope' hphase'
    cases hphase'
  · intro chan' result' hphase'
    cases hphase'
  · intro chan' result' hreply
    by_cases hsame : chan' = chan
    · subst hsame
      simp only [Function.update_self, Option.some.injEq] at hreply
      subst hreply
      exact ⟨t, server, command, advance_self hk⟩
    · simp only [Function.update_of_ne hsame] at hreply
      obtain ⟨t', server', command', ht'⟩ := h.replies chan' result' hreply
      exact ⟨t', server', command', by rw [advance_of_ne hsame, ht']⟩

end OneServer

/-- A thread is not concerned by the move of a ticket that is not its open one. -/
theorem ThreadInv.advance {t : T} {thread : Thread ι Cmd Res Call Ret}
    (h : ThreadInv service history tickets t thread) {chan : ℕ} {k : Ticket T ι Cmd Res}
    (hk : tickets chan = some k) (stage : Stage Res) (hdropped : k.stage ≠ .dropped)
    (hopen : k.stage = .opened → k.owner ≠ t) (haccepted : k.stage.Accepted → stage.Accepted)
    (event : Event T ι Cmd Res Call Ret) (hevent : ¬ event.Of t) :
    ThreadInv service (history ++ [event]) (Rpc.advance tickets chan stage) t thread := by
  refine h.snoc (keepsDropped_advance hk hdropped stage) ?_ ?_ hevent
  · intro chan' k' hk' howner hstage
    have hne : chan' ≠ chan := by
      rintro rfl
      obtain rfl := Option.some.inj (hk.symm.trans hk')
      exact hopen hstage howner
    rw [advance_of_ne hne, hk']
  · intro chan' k' hk' howner hstage
    by_cases hsame : chan' = chan
    · subst hsame
      obtain rfl := Option.some.inj (hk.symm.trans hk')
      exact ⟨stage, haccepted hstage, advance_self hk⟩
    · exact ⟨k'.stage, hstage, by rw [advance_of_ne hsame, hk']⟩

/-- The threads after a step of one of them. -/
theorem threads_update [DecidableEq T] {t : T} {thread : Thread ι Cmd Res Call Ret}
    {event : Event T ι Cmd Res Call Ret}
    (hthread : ThreadInv service (history ++ [event]) tickets' t thread)
    (hothers : ∀ t', t' ≠ t → ThreadInv service (history ++ [event]) tickets' t' (net.threads t'))
    (t' : T) :
    ThreadInv service (history ++ [event]) tickets' t'
      (Function.update net.threads t thread t') := by
  by_cases hsame : t' = t
  · subst hsame
    rw [Function.update_self]
    exact hthread
  · rw [Function.update_of_ne hsame]
    exact hothers t' hsame

/-- A thread is not concerned by a step that moves no ticket. -/
theorem ThreadInv.silent {t : T} {thread : Thread ι Cmd Res Call Ret}
    (h : ThreadInv service history tickets t thread) {event : Event T ι Cmd Res Call Ret}
    (hevent : ¬ event.Of t) : ThreadInv service (history ++ [event]) tickets t thread := by
  refine h.snoc (keepsDropped_refl _) (fun _ _ hk _ _ => hk) ?_ hevent
  intro chan k hk _ hstage
  exact ⟨k.stage, hstage, hk⟩

/-- **A step of one thread that moves no ticket.** -/
theorem Inv.thread_step [DecidableEq T] (h : Inv service history net tickets) (t : T)
    (thread : Thread ι Cmd Res Call Ret) (event : Event T ι Cmd Res Call Ret)
    (hsilent : event.Silent) (hevent : ∀ t', t' ≠ t → ¬ event.Of t')
    (hthread : ThreadInv service (history ++ [event]) tickets t thread) :
    Inv service (history ++ [event]) (net.setThread t thread) tickets := by
  refine ⟨h.recorded.silent ?_ ?_, h.placed.setThread t thread, ?_,
    returns_snoc h (keepsDropped_refl _) ?_, opens_snoc h (keepsDropped_refl _) ?_⟩
  · rintro t chan server command rfl
    exact hsilent
  · rintro server chan command result rfl
    exact hsilent
  · exact threads_update hthread fun t' hne => (h.threads t').silent (hevent t' hne)
  · rintro t call result rfl
    exact hsilent.elim
  · rintro t chan server command rfl
    exact hsilent.elim

/-- A reply that was read is gone. -/
theorem Inv.forget (h : Inv service history net tickets) (chan : ℕ) :
    Inv service history { net with replies := Function.update net.replies chan none } tickets := by
  refine ⟨h.recorded, ⟨h.placed.fresh, h.placed.mailbox, h.placed.nodup, h.placed.received,
    h.placed.answering, ?_⟩, h.threads, h.returns, h.opens⟩
  intro chan' result hr
  by_cases hsame : chan' = chan
  · subst hsame
    simp only [Function.update_self, reduceCtorEq] at hr
  · simp only [Function.update_of_ne hsame] at hr
    exact h.placed.replies chan' result hr

/-- **A step of one server**, which moves the ticket of an accepted command. -/
theorem Inv.server_step (h : Inv service history net tickets) {chan : ℕ} {k : Ticket T ι Cmd Res}
    (hk : tickets chan = some k) (hold : k.stage.Accepted) (stage : Stage Res)
    (hnew : stage.Accepted) (event : Event T ι Cmd Res Call Ret) (hevent : ∀ t, ¬ event.Of t)
    (hrecorded : Recorded (history ++ [event]) (advance tickets chan stage))
    {net' : Net T ι Cmd Res Call Ret σ} (hplaced : Placed net' (advance tickets chan stage))
    (hthreads : net'.threads = net.threads) :
    Inv service (history ++ [event]) net' (advance tickets chan stage) := by
  have hdropped : k.stage ≠ .dropped := by
    intro hstage
    rw [hstage] at hold
    exact hold
  have hopened : k.stage ≠ .opened := by
    intro hstage
    rw [hstage] at hold
    exact hold
  have hkeep := keepsDropped_advance hk hdropped stage
  refine ⟨hrecorded, hplaced, ?_, returns_snoc h hkeep ?_, opens_snoc h hkeep ?_⟩
  · intro t
    rw [hthreads]
    exact (h.threads t).advance hk stage hdropped (fun hstage => absurd hstage hopened)
      (fun _ => hnew) event (hevent t)
  · rintro t call result rfl
    exact absurd rfl (hevent t)
  · rintro t chan server command rfl
    exact absurd rfl (hevent t)

/-- An exchange that has just ended takes the thread's program on. -/
theorem Reaches.exchange {t : T} {call : Call} {i j k m : ℕ} {p : Pending ι Cmd Res Ret}
    (h : Reaches service history tickets t call i (.call p.server p.command p.next) j)
    (hopening : Opening history t p j) (reply : Except Fault Res) (hjk : j ≤ k)
    (hended : Ended history tickets ⟨p.chan, p.server, p.command, reply⟩ k) (hkm : k < m) :
    Reaches service history tickets t call i (p.next reply) m := by
  obtain ⟨hbegun, exchanges, hfollows, hexplained, hcomplete⟩ := h
  exact ⟨hbegun, exchanges ++ [⟨p.chan, p.server, p.command, reply⟩],
    hfollows.snoc p.chan reply, hexplained.snoc hopening.1 hjk hended hkm,
    hcomplete.snoc hopening reply m⟩

/-- **One step keeps the invariant.** -/
theorem Inv.step [DecidableEq T] [DecidableEq ι] (h : Inv service history net tickets)
    {event : Event T ι Cmd Res Call Ret} {net' : Net T ι Cmd Res Call Ret σ}
    (hstep : Step service net event net') :
    ∃ tickets', Inv service (history ++ [event]) net' tickets' := by
  cases hstep with
  | @invoke t call ht =>
      refine ⟨tickets, h.thread_step t _ _ trivial (fun t' hne heq => hne (Eq.symm heq)) ?_⟩
      refine ⟨history.length, ⟨at_last _ _, ?_⟩, [], by simp, by simp [Explained], ?_⟩
      · intro j event hlt hat
        exact absurd hat.le_last (Nat.not_le.mpr hlt)
      · intro j chan server command hlt hj _
        simp only [List.length_append, List.length_singleton] at hj
        omega
  | @openChan t call server command next ht =>
      have hfresh := h.placed.fresh net.nextChan (Nat.le_refl _)
      have hne : ∀ {chan k}, tickets chan = some k → chan ≠ net.nextChan := by
        rintro chan k hk rfl
        rw [hfresh] at hk
        cases hk
      have hkeep := keepsDropped_update hfresh (some ⟨t, server, command, .opened⟩)
      have hthread := h.threads t
      rw [ht] at hthread
      obtain ⟨i, hreaches⟩ := hthread
      refine ⟨_, h.recorded.openChan hfresh t server command, (h.placed.setThread t _).openChan _,
        threads_update ?_ ?_, returns_snoc h hkeep (by simp), opens_snoc h hkeep ?_⟩
      · refine ⟨i, history.length, hreaches.snoc hkeep id (Nat.le_refl _), ⟨at_last _ _, ?_⟩,
          Function.update_self ..⟩
        intro j event hlt hat
        exact absurd hat.le_last (Nat.not_le.mpr hlt)
      · intro t' hne'
        refine (h.threads t').snoc hkeep ?_ ?_ fun heq => hne' (Eq.symm heq)
        · intro chan k hk _ _
          rw [Function.update_of_ne (hne hk), hk]
        · intro chan k hk _ hstage
          exact ⟨k.stage, hstage, by rw [Function.update_of_ne (hne hk), hk]⟩
      · intro t' chan' server' command' heq
        cases heq
        exact ⟨call, next, hreaches.before _ hkeep⟩
  | @send t call p ht hleft hroom =>
      have hthread := h.threads t
      rw [ht] at hthread
      obtain ⟨i, j, hreaches, hopening, hk⟩ := hthread
      have hkeep := keepsDropped_advance hk (by simp) (Stage.sent : Stage Res)
      refine ⟨_, (h.recorded.advance hk .sent rfl).silent (by simp) (by simp),
        (h.placed.setThread t _).send hk rfl, threads_update ?_ ?_,
        returns_snoc h hkeep (by simp), opens_snoc h hkeep (by simp)⟩
      · exact ⟨i, j, hreaches.snoc hkeep id (Nat.le_of_lt hopening.1.lt), hopening.snoc id, .sent,
          trivial, advance_self hk⟩
      · intro t' hne
        exact (h.threads t').advance hk .sent (by simp) (fun _ heq => hne heq.symm)
          (fun _ => trivial) _ id
  | @refuse t call p ht hleft =>
      have hthread := h.threads t
      rw [ht] at hthread
      exact ⟨tickets, h.thread_step t _ _ trivial (fun _ _ => id)
        (@ThreadInv.silent _ _ _ _ _ _ _ service _ _ t
          (.sending call { p with left := p.left - 1 }) hthread _ id)⟩
  | @giveUp t call p ht hleft =>
      have hthread := h.threads t
      rw [ht] at hthread
      obtain ⟨i, j, hreaches, hopening, hk⟩ := hthread
      have hlt := hopening.1.lt
      have hkeep := keepsDropped_advance hk (by simp) (Stage.dropped : Stage Res)
      refine ⟨_, (h.recorded.advance hk .dropped rfl).silent (by simp) (by simp),
        (h.placed.giveUp hk rfl).setThread t _, threads_update ?_ ?_,
        returns_snoc h hkeep (by simp), opens_snoc h hkeep (by simp)⟩
      · exact ⟨i, (hreaches.snoc hkeep id (Nat.le_of_lt hlt)).exchange (hopening.snoc id)
          (.error .unavailable) (Nat.le_refl _) ⟨_, advance_self hk, rfl⟩ (hopening.snoc id).1.lt⟩
      · intro t' hne
        exact (h.threads t').advance hk .dropped (by simp) (fun _ heq => hne heq.symm) id _ id
  | @take server envelope rest hphase hbox =>
      obtain ⟨t, hk⟩ := h.placed.mailbox server envelope (by simp [hbox])
      exact ⟨_, h.server_step hk trivial .taken trivial (.took server envelope.chan) (fun _ => id)
        ((h.recorded.advance hk .taken rfl).silent (by simp) (by simp)) (h.placed.take hbox) rfl⟩
  | @apply server envelope hphase =>
      obtain ⟨t, hk⟩ := h.placed.received server envelope hphase
      exact ⟨_, h.server_step hk trivial (.applied _) trivial (.applied _ _ _ _) (fun _ => id)
        (h.recorded.apply hk rfl _) (h.placed.apply hphase _ _) rfl⟩
  | @answer server chan result hphase =>
      obtain ⟨t, command, hk⟩ := h.placed.answering server chan result hphase
      exact ⟨_, h.server_step hk trivial (.answered result) trivial (.answered server chan)
        (fun _ => id) ((h.recorded.advance hk (.answered result) rfl).silent (by simp) (by simp))
        (h.placed.answer hphase) rfl⟩
  | @poll t call p ht hleft hnone =>
      have hthread := h.threads t
      rw [ht] at hthread
      exact ⟨tickets, h.thread_step t _ _ trivial (fun _ _ => id)
        (@ThreadInv.silent _ _ _ _ _ _ _ service _ _ t
          (.waiting call { p with left := p.left - 1 }) hthread _ id)⟩
  | @receive t call p result ht hleft hsome =>
      have hthread := h.threads t
      rw [ht] at hthread
      obtain ⟨i, j, hreaches, hopening, stage, hstage, hk⟩ := hthread
      -- the reply is the answer of this very channel
      obtain ⟨t', server', command', hk'⟩ := h.placed.replies p.chan result hsome
      obtain ⟨stage', hticket, happlied⟩ := h.recorded.opened j t p.chan p.server p.command hopening.1
      obtain rfl : stage' = .answered result :=
        congrArg Ticket.stage (Option.some.inj (hticket.symm.trans hk'))
      obtain ⟨m, hjm, hm⟩ := happlied result rfl
      refine ⟨tickets,
        (h.thread_step t _ (.received t p.chan) trivial (fun _ _ => id) ?_).forget p.chan⟩
      exact ⟨i, (hreaches.snoc (keepsDropped_refl _) id (Nat.le_of_lt hopening.1.lt)).exchange
        (hopening.snoc id) (.ok result) (Nat.le_of_lt hjm) (hm.append _) (hm.append _).lt⟩
  | @timeOut t call p ht hleft =>
      have hthread := h.threads t
      rw [ht] at hthread
      obtain ⟨i, j, hreaches, hopening, -⟩ := hthread
      refine ⟨tickets, h.thread_step t _ _ trivial (fun _ _ => id) ?_⟩
      exact ⟨i, (hreaches.snoc (keepsDropped_refl _) id (Nat.le_of_lt hopening.1.lt)).exchange
        (hopening.snoc id) (.error .timeout) (Nat.le_refl _) trivial (hopening.snoc id).1.lt⟩
  | @finish t call result ht =>
      have hthread := h.threads t
      rw [ht] at hthread
      obtain ⟨i, hreaches⟩ := hthread
      refine ⟨tickets, h.recorded.silent (by simp) (by simp), h.placed.setThread t _,
        threads_update trivial ?_, returns_snoc h (keepsDropped_refl _) ?_,
        opens_snoc h (keepsDropped_refl _) (by simp)⟩
      · exact fun t' hne => (h.threads t').silent fun heq => hne (Eq.symm heq)
      · intro t' call' result' heq
        cases heq
        exact hreaches.before _ (keepsDropped_refl _)

end Steps

/-! ## Whole runs -/

/-- How an exchange ended, in terms of the history alone: an answered command was applied, at `k`;
one whose sender gave up never is. -/
def Told (history : List (Event T ι Cmd Res Call Ret)) (e : Exchange ι Cmd Res) (k : ℕ) : Prop :=
  match e.reply with
  | .ok result => At history k (.applied e.server e.chan e.command result)
  | .error .unavailable => ∀ k' server command result,
      ¬ At history k' (.applied server e.chan command result)
  | .error .timeout => True

/-- The servers' states after the applied commands of a history. -/
def replay [DecidableEq ι] (init : ι → σ) (history : List (Event T ι Cmd Res Call Ret)) : ι → σ :=
  history.foldl
    (fun states event =>
      match event with
      | .applied server _ command _ =>
          Function.update states server (service.handle (states server) command).1
      | _ => states)
    init

section Runs

variable {service} {init : ι → σ} {history : List (Event T ι Cmd Res Call Ret)}
  {net : Net T ι Cmd Res Call Ret σ}

theorem Inv.start (init : ι → σ) : Inv service ([] : List (Event T ι Cmd Res Call Ret))
    (.start init) fun _ => none := by
  refine ⟨⟨?_, ?_, ?_, ?_, ?_⟩, ⟨?_, ?_, ?_, ?_, ?_, ?_⟩, ?_, ?_, ?_⟩ <;>
    simp [At, Net.start, ThreadInv]

theorem Inv.told {tickets : ℕ → Option (Ticket T ι Cmd Res)} (h : Inv service history net tickets)
    (e : Exchange ι Cmd Res) (k : ℕ) (hended : Ended history tickets e k) : Told history e k := by
  obtain ⟨chan, server, command, reply⟩ := e
  rcases reply with (_ | _) | result
  · obtain ⟨ticket, hticket, hdropped⟩ := hended
    intro k' server' command' result' hat
    obtain ⟨t, stage, hticket', hresult⟩ := h.recorded.applied k' server' chan command' result' hat
    obtain rfl := Option.some.inj (hticket.symm.trans hticket')
    cases hdropped
    cases hresult
  · trivial
  · exact hended

theorem Before.told {tickets : ℕ → Option (Ticket T ι Cmd Res)}
    (hinv : Inv service history net tickets) {t : T} {call : Call} {program : Prog ι Cmd Res Ret}
    {j : ℕ} (h : Before service history (Ended history tickets) t call program j) :
    Before service history (Told history) t call program j := by
  obtain ⟨i, hspans, exchanges, hfollows, hexplained, hcomplete⟩ := h
  refine ⟨i, hspans, exchanges, hfollows, ?_, hcomplete⟩
  have hmono := hexplained.mono hinv.told [] (Nat.le_refl _)
  rwa [List.append_nil] at hmono

variable [DecidableEq T] [DecidableEq ι]

/-- **Every run keeps the invariant.** -/
theorem Runs.inv (h : Runs service init history net) :
    ∃ tickets, Inv service history net tickets := by
  induction h with
  | nil => exact ⟨_, Inv.start init⟩
  | snoc _ hstep ih =>
      obtain ⟨tickets, hinv⟩ := ih
      exact hinv.step hstep

/-- **What a returned call went through**: its program explains the result by exchanges, which took
place one after the other between the invocation and the return. -/
theorem Runs.returned (h : Runs service init history net) {j : ℕ} {t : T} {call : Call}
    {result : Ret} (hat : At history j (.returned t call result)) :
    Before service history (Told history) t call (.ret result) j := by
  obtain ⟨tickets, hinv⟩ := h.inv
  exact (hinv.returns j t call result hat).told hinv

/-- **What a command was issued for**: its channel was opened by a call whose exchanges so far led
to this command. -/
theorem Runs.opened (h : Runs service init history net) {j : ℕ} {t : T} {chan : ℕ} {server : ι}
    {command : Cmd} (hat : At history j (.opened t chan server command)) :
    ∃ call next, Before service history (Told history) t call (.call server command next) j := by
  obtain ⟨tickets, hinv⟩ := h.inv
  obtain ⟨call, next, hbefore⟩ := hinv.opens j t chan server command hat
  exact ⟨call, next, hbefore.told hinv⟩

/-- **Channels are not reused.** -/
theorem Runs.opened_once (h : Runs service init history net) {i j : ℕ} {t t' : T} {chan : ℕ}
    {server server' : ι} {command command' : Cmd}
    (hi : At history i (.opened t chan server command))
    (hj : At history j (.opened t' chan server' command')) : i = j := by
  obtain ⟨tickets, hinv⟩ := h.inv
  exact hinv.recorded.opened_once i j t t' chan server server' command command' hi hj

/-- **No command is applied twice.** -/
theorem Runs.applied_once (h : Runs service init history net) {i j : ℕ} {chan : ℕ}
    {server server' : ι} {command command' : Cmd} {result result' : Res}
    (hi : At history i (.applied server chan command result))
    (hj : At history j (.applied server' chan command' result')) : i = j := by
  obtain ⟨tickets, hinv⟩ := h.inv
  exact hinv.recorded.applied_once i j server server' chan command command' result result' hi hj

/-- **Nothing is applied that was not sent**, to that server, before. -/
theorem Runs.applied_opened (h : Runs service init history net) {k : ℕ} {chan : ℕ} {server : ι}
    {command : Cmd} {result : Res} (hk : At history k (.applied server chan command result)) :
    ∃ j t, j < k ∧ At history j (.opened t chan server command) := by
  obtain ⟨tickets, hinv⟩ := h.inv
  obtain ⟨t, stage, hticket, hresult⟩ := hinv.recorded.applied k server chan command result hk
  obtain ⟨j, hopened⟩ := hinv.recorded.ticket chan _ hticket
  obtain ⟨stage', hticket', happlied⟩ := hinv.recorded.opened j t chan server command hopened
  obtain rfl : stage = stage' :=
    congrArg Ticket.stage (Option.some.inj (hticket.symm.trans hticket'))
  obtain ⟨k', hlt, hk'⟩ := happlied result hresult
  obtain rfl := h.applied_once hk hk'
  exact ⟨j, t, hlt, hopened⟩

theorem Runs.opened_lt_applied (h : Runs service init history net) {j k : ℕ} {t : T} {chan : ℕ}
    {server server' : ι} {command command' : Cmd} {result : Res}
    (hj : At history j (.opened t chan server command))
    (hk : At history k (.applied server' chan command' result)) : j < k := by
  obtain ⟨j', t', hlt, hj'⟩ := h.applied_opened hk
  obtain rfl := h.opened_once hj hj'
  exact hlt

omit [DecidableEq T] in
theorem replay_snoc (init : ι → σ) (history : List (Event T ι Cmd Res Call Ret))
    (event : Event T ι Cmd Res Call Ret) :
    replay service init (history ++ [event]) =
      match event with
      | .applied server _ command _ =>
          Function.update (replay service init history) server
            (service.handle (replay service init history server) command).1
      | _ => replay service init history := by
  rw [replay, List.foldl_append]
  rfl

/-- **A server's state is the doing of the commands applied there.** -/
theorem Runs.server_state (h : Runs service init history net) (server : ι) :
    (net.servers server).state = replay service init history server := by
  induction h with
  | nil => rfl
  | snoc _ hstep ih =>
      rw [replay_snoc]
      cases hstep with
      | apply hphase =>
          simp only [Net.setServer, Function.update_apply]
          split <;> simp_all
      | send _ _ _ => 
          simp only [Net.setServer, Function.update_apply]
          split <;> simp_all [Net.setThread]
      | take _ _ =>
          simp only [Net.setServer, Function.update_apply]
          split <;> simp_all
      | answer _ =>
          simp only [Net.setServer, Function.update_apply]
          split <;> simp_all
      | _ => exact ih

/-- **Every answer is the one of the state its command was applied to.** -/
theorem Runs.applied_result (h : Runs service init history net) {k : ℕ} {chan : ℕ} {server : ι}
    {command : Cmd} {result : Res} (hk : At history k (.applied server chan command result)) :
    result = (service.handle (replay service init (history.take k) server) command).2 := by
  induction h with
  | nil => exact absurd hk not_at_nil
  | @snoc history net event net' hrun hstep ih =>
      rcases at_snoc.mp hk with hold | ⟨rfl, heq⟩
      · rw [List.take_append_of_le_length (Nat.le_of_lt hold.lt)]
        exact ih hold
      · subst heq
        rw [List.take_left']
        · cases hstep
          rw [hrun.server_state]
        · rfl

end Runs

end CharlotteBroker.Lib.Rpc
