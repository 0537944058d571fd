import Hnw.Base.Channel
import Hnw.Theory.Transition

/-!
# The accept loops of a server channel

`ASIOTcpServerChannel` and `ASIOSSLServerChannel`. `accept` begins as many loops as `accept_num_`
says; each makes a client, waits for a connection, adds the client to the service, raises `ACCEPT`,
has it receive and begins again. The handlers run on the threads of the service, each at its own
pace. An error that a server raises goes through `Service::event_cb`, where a callback is
installed, and closes the server. Clients are counted as they are made.
-/

namespace Hnw.Base

open Hnw.Theory

/-- The error codes that an accept loop raises. -/
inductive AcceptError where
  | acceptFail
  | acceptCliIsNotOpen
deriving DecidableEq, Repr

/-- `ASIOTcpServerChannel`: the fields the accept loops read. -/
structure AcceptServer where
  /-- The options of `Channel`. -/
  options : Channel := {}
  /-- `accept_num_`. -/
  acceptNum : Nat := 1
  /-- `acceptor_.is_open()`. -/
  isOpen : Bool := true
  /-- `event_cb_` is set. -/
  eventCb : Bool
  /-- It is an `ASIOSSLServerChannel`. -/
  ssl : Bool

/-- How an accept completes. -/
inductive AcceptResult where
  /-- With an error. -/
  | failed
  /-- With a client that is not open. -/
  | notOpen
  /-- With a client; whether `before_accept` is going to succeed. -/
  | opened (ready : Bool)
deriving DecidableEq, Repr

/-- What the handler of an accept does for its client. -/
inductive AcceptAction where
  /-- `before_accept` fails, and the client raises an error. -/
  | handshakeFails
  /-- `accept_cb_`: the client is added to `channel_map_`. -/
  | acceptCb
  /-- `EVENT_ACCEPT_CB`. -/
  | accept
  /-- `after_accept`. -/
  | afterAccept
deriving DecidableEq, Repr

/-- Where the accept of a client is. -/
inductive AcceptPhase where
  /-- It was started. -/
  | waiting
  /-- It completed, and no thread runs the handler yet. -/
  | completed (result : AcceptResult)
  /-- The handler runs and has these things to do before it accepts again. -/
  | running (todo : List AcceptAction)
  /-- The handler returned. -/
  | ended
deriving DecidableEq, Repr

/-- A client that an accept loop made. -/
structure AcceptClient where
  /-- The options it got. -/
  options : Channel
  /-- Where its accept is. -/
  phase : AcceptPhase := .waiting
  /-- What was done for it. -/
  done : List AcceptAction := []

/-- A server, its calls of `accept` and its clients. -/
structure Accepting where
  /-- The server. -/
  server : AcceptServer
  /-- The calls of `accept` that did not return, each with its `i`. -/
  callers : List Nat := []
  /-- The clients, in the order they were made. -/
  clients : List AcceptClient := []
  /-- How many loops began. -/
  begun : Nat := 0
  /-- The errors that the server raised. -/
  errors : List AcceptError := []
  /-- The clients that `ACCEPT` was raised for. -/
  accepted : List Nat := []

/-- What happens to a server. -/
inductive AcceptLabel where
  /-- `accept` is called. -/
  | called
  /-- A call of `accept` goes through its loop once more, or returns. -/
  | looped (caller : Nat)
  /-- The transport completes an accept. -/
  | completed (client : Nat) (result : AcceptResult)
  /-- A thread runs the handler of an accept. -/
  | handled (client : Nat)
  /-- The handler of an accept goes on. -/
  | wentOn (client : Nat)
  /-- `close`. -/
  | closed
  /-- `set_accept_num`. -/
  | setAcceptNum (num : Nat)
  /-- `Channel::config`. -/
  | configured (configType : Int) (data : Option Nat)

/-- What the handler does for a client that is open. -/
def acceptTodo (ready : Bool) : List AcceptAction :=
  if ready then [.acceptCb, .accept, .afterAccept]
  else [.handshakeFails, .acceptCb, .accept, .afterAccept]

namespace Accepting

/-- A client is changed. -/
def setClient (s : Accepting) (client : Nat) (changed : AcceptClient) : Accepting :=
  { s with clients := s.clients.set client changed }

/-- `new_client` and `async_one_accept`. -/
def asyncOneAccept (s : Accepting) : Accepting :=
  let options := (Channel.initAccept {} (some s.server.options)).1
  { s with clients := s.clients ++ [{ options }] }

/-- `EVENT_ERR_CB`: the base layer's `event_cb` closes the server. -/
def raise (s : Accepting) (code : AcceptError) : Accepting :=
  { s with
    errors := s.errors ++ [code]
    server := { s.server with isOpen := s.server.isOpen && !s.server.eventCb } }

/-- The body of the loop of `accept`. -/
def loopOnce (s : Accepting) (caller i : Nat) : Accepting :=
  if i < s.server.acceptNum then
    { s.asyncOneAccept with callers := s.callers.set caller (i + 1), begun := s.begun + 1 }
  else { s with callers := s.callers.eraseIdx caller }

/-- The beginning of the handler of an accept. -/
def handle (s : Accepting) (index : Nat) (client : AcceptClient) (result : AcceptResult) :
    Accepting :=
  match result with
  | .failed => (s.setClient index { client with phase := .ended }).raise .acceptFail
  | .notOpen => (s.setClient index { client with phase := .running [] }).raise .acceptCliIsNotOpen
  | .opened ready => s.setClient index { client with phase := .running (acceptTodo ready) }

/-- The handler of an accept goes on. -/
def goOn (s : Accepting) (index : Nat) (client : AcceptClient) (todo : List AcceptAction) :
    Accepting :=
  match todo with
  | [] => (s.setClient index { client with phase := .ended }).asyncOneAccept
  | action :: todo =>
    let s := s.setClient index
      { client with phase := .running todo, done := client.done ++ [action] }
    if action = .accept then { s with accepted := s.accepted ++ [index] } else s

/-- What happens leaves this behind. -/
def after (s : Accepting) : AcceptLabel → Accepting
  | .called => { s with callers := 0 :: s.callers }
  | .looped caller =>
    match s.callers[caller]? with
    | none => s
    | some i => s.loopOnce caller i
  | .completed index result =>
    match s.clients[index]? with
    | none => s
    | some client => s.setClient index { client with phase := .completed result }
  | .handled index =>
    match s.clients[index]? with
    | some ⟨options, .completed result, done⟩ =>
      s.handle index ⟨options, .completed result, done⟩ result
    | _ => s
  | .wentOn index =>
    match s.clients[index]? with
    | some ⟨options, .running todo, done⟩ => s.goOn index ⟨options, .running todo, done⟩ todo
    | _ => s
  | .closed => { s with server := { s.server with isOpen := false } }
  | .setAcceptNum num =>
    if num = 0 then s else { s with server := { s.server with acceptNum := num } }
  | .configured configType data =>
    { s with server :=
        { s.server with options := (s.server.options.config configType data).channel } }

/-- Whether something can happen: a closed acceptor gives no client, and `before_accept` fails only
where it is a handshake. -/
def Enabled (s : Accepting) : AcceptLabel → Prop
  | .called | .closed | .setAcceptNum _ | .configured _ _ => True
  | .looped caller => caller < s.callers.length
  | .completed index result =>
    (∃ client, s.clients[index]? = some client ∧ client.phase = .waiting) ∧
      (result = .failed ∨ s.server.isOpen = true ∧ (result = .opened false → s.server.ssl = true))
  | .handled index =>
    ∃ client result, s.clients[index]? = some client ∧ client.phase = .completed result
  | .wentOn index => ∃ client todo, s.clients[index]? = some client ∧ client.phase = .running todo

end Accepting

/-- Everything that can happen to a server that listens. -/
def accepting (server : AcceptServer) : System Accepting AcceptLabel where
  init s := s = { server }
  step s label next := s.Enabled label ∧ next = s.after label

end Hnw.Base
