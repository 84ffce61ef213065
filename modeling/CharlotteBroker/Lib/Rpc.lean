import CharlotteBroker.Lib.Prog

/-!
# Clients and servers over bounded mailboxes

An asynchronous system of client threads and servers, over arbitrary commands, answers and server
states. A thread runs a call's program (`Prog`). Each call of the program opens a reply channel of
its own, offers the command to the server's bounded mailbox a bounded number of times, and then
looks for the reply a bounded number of times; either loop may run out. A server takes the oldest
command, applies it to its state and answers on the command's reply channel.

* `Step` is one step of one party, with an `Event` that says what happened; `Runs` is any
  interleaving of such steps.
* A full mailbox refuses, and an offer may be refused for any other reason too; an accepted command
  is delivered once and in order.
* `fire` is the executable form of a step, chosen by a `Label`; `Runs.fireAll` turns a list of
  labels into a run.
-/

namespace CharlotteBroker.Lib.Rpc

/-- What the threads and the servers do. -/
structure Service (ι Cmd Res Call Ret σ : Type) where
  handle : σ → Cmd → σ × Res
  program : Call → Prog ι Cmd Res Ret
  capacity : ℕ
  attempts : ℕ

/-- A command on its way to a server, with the channel its answer goes to. -/
structure Envelope (Cmd : Type) where
  command : Cmd
  chan : ℕ

/-- Where a server stands between two commands. -/
inductive Phase (Cmd Res : Type)
  | idle
  | received (envelope : Envelope Cmd)
  | answering (chan : ℕ) (result : Res)

structure Server (Cmd Res σ : Type) where
  state : σ
  mailbox : List (Envelope Cmd)
  phase : Phase Cmd Res

/-- One call of a thread's program under way: what goes where, how the program goes on, and how
many attempts the current loop has left. -/
structure Pending (ι Cmd Res Ret : Type) where
  chan : ℕ
  server : ι
  command : Cmd
  next : Except Fault Res → Prog ι Cmd Res Ret
  left : ℕ

/-- Where a thread stands. -/
inductive Thread (ι Cmd Res Call Ret : Type)
  | idle
  | running (call : Call) (program : Prog ι Cmd Res Ret)
  | sending (call : Call) (pending : Pending ι Cmd Res Ret)
  | waiting (call : Call) (pending : Pending ι Cmd Res Ret)

/-- The whole system. -/
structure Net (T ι Cmd Res Call Ret σ : Type) where
  servers : ι → Server Cmd Res σ
  threads : T → Thread ι Cmd Res Call Ret
  replies : ℕ → Option Res
  nextChan : ℕ

/-- What happened in a step. -/
inductive Event (T ι Cmd Res Call Ret : Type)
  | invoked (thread : T) (call : Call)
  | opened (thread : T) (chan : ℕ) (server : ι) (command : Cmd)
  | sent (thread : T) (chan : ℕ)
  | refused (thread : T)
  | gaveUp (thread : T) (chan : ℕ)
  | took (server : ι) (chan : ℕ)
  | applied (server : ι) (chan : ℕ) (command : Cmd) (result : Res)
  | answered (server : ι) (chan : ℕ)
  | polled (thread : T)
  | received (thread : T) (chan : ℕ)
  | timedOut (thread : T) (chan : ℕ)
  | returned (thread : T) (call : Call) (result : Ret)
  deriving DecidableEq

variable {T ι Cmd Res Call Ret σ : Type} [DecidableEq T] [DecidableEq ι]

namespace Net

/-- The system with one thread moved. -/
def setThread (net : Net T ι Cmd Res Call Ret σ) (thread : T) (t : Thread ι Cmd Res Call Ret) :
    Net T ι Cmd Res Call Ret σ :=
  { net with threads := Function.update net.threads thread t }

/-- The system with one server moved. -/
def setServer (net : Net T ι Cmd Res Call Ret σ) (server : ι) (s : Server Cmd Res σ) :
    Net T ι Cmd Res Call Ret σ :=
  { net with servers := Function.update net.servers server s }

/-- All threads idle, all mailboxes empty. -/
def start (init : ι → σ) : Net T ι Cmd Res Call Ret σ where
  servers server := ⟨init server, [], .idle⟩
  threads _ := .idle
  replies _ := none
  nextChan := 0

end Net

variable (service : Service ι Cmd Res Call Ret σ)

/-- One step of the system. -/
inductive Step : Net T ι Cmd Res Call Ret σ → Event T ι Cmd Res Call Ret →
    Net T ι Cmd Res Call Ret σ → Prop
  | invoke {net} {t : T} (call : Call) (ht : net.threads t = .idle) :
      Step net (.invoked t call) (net.setThread t (.running call (service.program call)))
  | openChan {net} {t : T} {call : Call} {server : ι} {command : Cmd}
      {next : Except Fault Res → Prog ι Cmd Res Ret}
      (ht : net.threads t = .running call (.call server command next)) :
      Step net (.opened t net.nextChan server command)
        { net.setThread t (.sending call ⟨net.nextChan, server, command, next, service.attempts⟩)
          with nextChan := net.nextChan + 1 }
  | send {net} {t : T} {call : Call} {p : Pending ι Cmd Res Ret}
      (ht : net.threads t = .sending call p) (hleft : 0 < p.left)
      (hroom : (net.servers p.server).mailbox.length < service.capacity) :
      Step net (.sent t p.chan)
        ((net.setThread t (.waiting call { p with left := service.attempts })).setServer p.server
          { net.servers p.server with
            mailbox := (net.servers p.server).mailbox ++ [⟨p.command, p.chan⟩] })
  | refuse {net} {t : T} {call : Call} {p : Pending ι Cmd Res Ret}
      (ht : net.threads t = .sending call p) (hleft : 0 < p.left) :
      Step net (.refused t) (net.setThread t (.sending call { p with left := p.left - 1 }))
  | giveUp {net} {t : T} {call : Call} {p : Pending ι Cmd Res Ret}
      (ht : net.threads t = .sending call p) (hleft : p.left = 0) :
      Step net (.gaveUp t p.chan) (net.setThread t (.running call (p.next (.error .unavailable))))
  | take {net} {server : ι} {envelope : Envelope Cmd} {rest : List (Envelope Cmd)}
      (hphase : (net.servers server).phase = .idle)
      (hbox : (net.servers server).mailbox = envelope :: rest) :
      Step net (.took server envelope.chan)
        (net.setServer server
          { net.servers server with mailbox := rest, phase := .received envelope })
  | apply {net} {server : ι} {envelope : Envelope Cmd}
      (hphase : (net.servers server).phase = .received envelope) :
      Step net
        (.applied server envelope.chan envelope.command
          (service.handle (net.servers server).state envelope.command).2)
        (net.setServer server
          { net.servers server with
            state := (service.handle (net.servers server).state envelope.command).1
            phase := .answering envelope.chan
              (service.handle (net.servers server).state envelope.command).2 })
  | answer {net} {server : ι} {chan : ℕ} {result : Res}
      (hphase : (net.servers server).phase = .answering chan result) :
      Step net (.answered server chan)
        { net.setServer server { net.servers server with phase := .idle } with
          replies := Function.update net.replies chan (some result) }
  | poll {net} {t : T} {call : Call} {p : Pending ι Cmd Res Ret}
      (ht : net.threads t = .waiting call p) (hleft : 0 < p.left)
      (hnone : net.replies p.chan = none) :
      Step net (.polled t) (net.setThread t (.waiting call { p with left := p.left - 1 }))
  | receive {net} {t : T} {call : Call} {p : Pending ι Cmd Res Ret} {result : Res}
      (ht : net.threads t = .waiting call p) (hleft : 0 < p.left)
      (hsome : net.replies p.chan = some result) :
      Step net (.received t p.chan)
        { net.setThread t (.running call (p.next (.ok result))) with
          replies := Function.update net.replies p.chan none }
  | timeOut {net} {t : T} {call : Call} {p : Pending ι Cmd Res Ret}
      (ht : net.threads t = .waiting call p) (hleft : p.left = 0) :
      Step net (.timedOut t p.chan) (net.setThread t (.running call (p.next (.error .timeout))))
  | finish {net} {t : T} {call : Call} {result : Ret}
      (ht : net.threads t = .running call (.ret result)) :
      Step net (.returned t call result) (net.setThread t .idle)

/-- Any interleaving of steps, with the events in order. -/
inductive Runs (init : ι → σ) : List (Event T ι Cmd Res Call Ret) → Net T ι Cmd Res Call Ret σ →
  Prop
  | nil : Runs init [] (.start init)
  | snoc {history net event net'} (h : Runs init history net) (hstep : Step service net event net') :
      Runs init (history ++ [event]) net'

/-! ## Executable steps -/

/-- The choice of the next step. -/
inductive Label (T ι Call : Type)
  | invoke (thread : T) (call : Call)
  | openChan (thread : T)
  | send (thread : T)
  | refuse (thread : T)
  | giveUp (thread : T)
  | take (server : ι)
  | apply (server : ι)
  | answer (server : ι)
  | poll (thread : T)
  | receive (thread : T)
  | timeOut (thread : T)
  | finish (thread : T)

/-- One exchange of a thread with a server, from beginning to end. -/
def exchange (thread : T) (server : ι) : List (Label T ι Call) :=
  [.openChan thread, .send thread, .take server, .apply server, .answer server, .receive thread]

/-- A call of a thread that has these exchanges and is disturbed by nobody. -/
def visit (thread : T) (call : Call) (servers : List ι) : List (Label T ι Call) :=
  .invoke thread call :: (servers.flatMap (exchange thread) ++ [.finish thread])

/-- The step a label chooses, if it can be taken. -/
def fire (net : Net T ι Cmd Res Call Ret σ) :
    Label T ι Call → Option (Event T ι Cmd Res Call Ret × Net T ι Cmd Res Call Ret σ)
  | .invoke t call =>
      match net.threads t with
      | .idle => some (.invoked t call, net.setThread t (.running call (service.program call)))
      | _ => none
  | .openChan t =>
      match net.threads t with
      | .running call (.call server command next) =>
          some (.opened t net.nextChan server command,
            { net.setThread t
                (.sending call ⟨net.nextChan, server, command, next, service.attempts⟩)
              with nextChan := net.nextChan + 1 })
      | _ => none
  | .send t =>
      match net.threads t with
      | .sending call p =>
          if 0 < p.left ∧ (net.servers p.server).mailbox.length < service.capacity then
            some (.sent t p.chan,
              (net.setThread t (.waiting call { p with left := service.attempts })).setServer
                p.server
                { net.servers p.server with
                  mailbox := (net.servers p.server).mailbox ++ [⟨p.command, p.chan⟩] })
          else none
      | _ => none
  | .refuse t =>
      match net.threads t with
      | .sending call p =>
          if 0 < p.left then
            some (.refused t, net.setThread t (.sending call { p with left := p.left - 1 }))
          else none
      | _ => none
  | .giveUp t =>
      match net.threads t with
      | .sending call p =>
          if p.left = 0 then
            some (.gaveUp t p.chan,
              net.setThread t (.running call (p.next (.error .unavailable))))
          else none
      | _ => none
  | .take server =>
      match (net.servers server).phase, (net.servers server).mailbox with
      | .idle, envelope :: rest =>
          some (.took server envelope.chan,
            net.setServer server
              { net.servers server with mailbox := rest, phase := .received envelope })
      | _, _ => none
  | .apply server =>
      match (net.servers server).phase with
      | .received envelope =>
          let handled := service.handle (net.servers server).state envelope.command
          some (.applied server envelope.chan envelope.command handled.2,
            net.setServer server
              { net.servers server with
                state := handled.1
                phase := .answering envelope.chan handled.2 })
      | _ => none
  | .answer server =>
      match (net.servers server).phase with
      | .answering chan result =>
          some (.answered server chan,
            { net.setServer server { net.servers server with phase := .idle } with
              replies := Function.update net.replies chan (some result) })
      | _ => none
  | .poll t =>
      match net.threads t with
      | .waiting call p =>
          if 0 < p.left ∧ (net.replies p.chan).isNone then
            some (.polled t, net.setThread t (.waiting call { p with left := p.left - 1 }))
          else none
      | _ => none
  | .receive t =>
      match net.threads t with
      | .waiting call p =>
          match net.replies p.chan with
          | some result =>
              if 0 < p.left then
                some (.received t p.chan,
                  { net.setThread t (.running call (p.next (.ok result))) with
                    replies := Function.update net.replies p.chan none })
              else none
          | none => none
      | _ => none
  | .timeOut t =>
      match net.threads t with
      | .waiting call p =>
          if p.left = 0 then
            some (.timedOut t p.chan,
              net.setThread t (.running call (p.next (.error .timeout))))
          else none
      | _ => none
  | .finish t =>
      match net.threads t with
      | .running call (.ret result) => some (.returned t call result, net.setThread t .idle)
      | _ => none

/-- What a label fires is a step. -/
theorem step_of_fire {net net' : Net T ι Cmd Res Call Ret σ} {label : Label T ι Call}
    {event : Event T ι Cmd Res Call Ret} (h : fire service net label = some (event, net')) :
    Step service net event net' := by
  cases label with
  | invoke t call =>
      simp only [fire] at h
      split at h
      · next ht =>
          cases h
          exact .invoke call ht
      · cases h
  | openChan t =>
      simp only [fire] at h
      split at h
      · next ht =>
          cases h
          exact .openChan ht
      · cases h
  | send t =>
      simp only [fire] at h
      split at h
      · next ht =>
          split at h
          · next hcan =>
              cases h
              exact .send ht hcan.1 hcan.2
          · cases h
      · cases h
  | refuse t =>
      simp only [fire] at h
      split at h
      · next ht =>
          split at h
          · next hleft =>
              cases h
              exact .refuse ht hleft
          · cases h
      · cases h
  | giveUp t =>
      simp only [fire] at h
      split at h
      · next ht =>
          split at h
          · next hleft =>
              cases h
              exact .giveUp ht hleft
          · cases h
      · cases h
  | take server =>
      simp only [fire] at h
      split at h
      · next hphase hbox =>
          cases h
          exact .take hphase hbox
      · cases h
  | apply server =>
      simp only [fire] at h
      split at h
      · next hphase =>
          cases h
          exact .apply hphase
      · cases h
  | answer server =>
      simp only [fire] at h
      split at h
      · next hphase =>
          cases h
          exact .answer hphase
      · cases h
  | poll t =>
      simp only [fire] at h
      split at h
      · next ht =>
          split at h
          · next hcan =>
              cases h
              exact .poll ht hcan.1 (Option.isNone_iff_eq_none.mp hcan.2)
          · cases h
      · cases h
  | receive t =>
      simp only [fire] at h
      split at h
      · next ht =>
          split at h
          · next hsome =>
              split at h
              · next hleft =>
                  cases h
                  exact .receive ht hleft hsome
              · cases h
          · cases h
      · cases h
  | timeOut t =>
      simp only [fire] at h
      split at h
      · next ht =>
          split at h
          · next hleft =>
              cases h
              exact .timeOut ht hleft
          · cases h
      · cases h
  | finish t =>
      simp only [fire] at h
      split at h
      · next ht =>
          cases h
          exact .finish ht
      · cases h

/-- The steps a list of labels chooses, one after another. -/
def fireAll (net : Net T ι Cmd Res Call Ret σ) :
    List (Label T ι Call) → Option (List (Event T ι Cmd Res Call Ret) × Net T ι Cmd Res Call Ret σ)
  | [] => some ([], net)
  | label :: labels =>
      match fire service net label with
      | none => none
      | some (event, net') =>
          match fireAll net' labels with
          | none => none
          | some (history, final) => some (event :: history, final)

/-- **A list of labels that can be fired is a run.** -/
theorem Runs.fireAll {init : ι → σ} {before : List (Event T ι Cmd Res Call Ret)}
    {net : Net T ι Cmd Res Call Ret σ} (h : Runs service init before net)
    {labels : List (Label T ι Call)} {history : List (Event T ι Cmd Res Call Ret)}
    {final : Net T ι Cmd Res Call Ret σ}
    (hfire : fireAll service net labels = some (history, final)) :
    Runs service init (before ++ history) final := by
  induction labels generalizing before net history with
  | nil =>
      cases hfire
      rw [List.append_nil]
      exact h
  | cons label labels ih =>
      simp only [Rpc.fireAll] at hfire
      split at hfire
      · cases hfire
      · next event net' hstep =>
          split at hfire
          · cases hfire
          · next rest final' hrest =>
              cases hfire
              rw [List.append_cons]
              exact ih (h.snoc (step_of_fire service hstep)) hrest

/-- A run with a property, from a list of labels that fires and ends with it. -/
theorem exists_run (init : ι → σ) (labels : List (Label T ι Call))
    (P : List (Event T ι Cmd Res Call Ret) → Net T ι Cmd Res Call Ret σ → Prop)
    [∀ history net, Decidable (P history net)]
    (h : (fireAll service (.start init) labels).any (fun fired => decide (P fired.1 fired.2)) =
      true) :
    ∃ history net, Runs service init history net ∧ P history net := by
  obtain ⟨⟨history, net⟩, hfire, hcheck⟩ := (Option.any_eq_true _ _).mp h
  exact ⟨history, net, Runs.nil.fireAll service hfire, of_decide_eq_true hcheck⟩

end CharlotteBroker.Lib.Rpc
