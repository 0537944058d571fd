import Hnw.Theory.Transition

/-!
# Channels, sessions and posted events

The base service keeps the channels (`channel_map_`), the HTTP service keeps a session a channel
(`session_map_`), and a channel that closes posts a `CLOSED` event which runs later. One step is
one event handler run to its end; what it does to the two maps and the posted events is listed
by `plan` as operations and then performed in order; a close among them is one operation. A channel
that was removed may still raise events: aborted reads, timers, a failing shutdown. Its object lives
as long as a handler or a posted event holds it.
-/

namespace Hnw.Service

open Hnw.Theory

/-- `HNW_HANDLE`. -/
abbrev Handle := Nat

/-- `HNW_CHANNEL_TYPE`: the types the HTTP service opens. -/
inductive ChannelType where
  | tcpClient
  | tcpServer
  | sslClient
  | sslServer
deriving DecidableEq

/-- What a channel's `event_cb_` reaches. -/
inductive EventCb where
  /-- Nothing is installed. -/
  | unset
  /-- `Service::event_cb` of the base layer around a null callback. -/
  | base
  /-- `Service::event_cb` of the base layer around the HTTP service's `event_cb`. -/
  | http
deriving DecidableEq

/-- A channel object. -/
structure Channel where
  /-- The class of the channel; an accepted connection is a client. -/
  type : ChannelType
  /-- `bconn_` of a connection, `acceptor_.is_open()` of a server. -/
  conn : Bool
  /-- `event_cb_`. -/
  eventCb : EventCb

/-- The destructor of a channel returns: it has nothing to close, or closes an SSL connection. That
of a connected TCP connection ends the program, since `shared_from_this` throws in it. -/
def Channel.Destructible (channel : Channel) : Prop :=
  channel.conn = false ∨ channel.type = .sslClient

/-- The state of both services. -/
structure State where
  /-- The channel objects there are. -/
  channels : Handle → Option Channel := fun _ => none
  /-- `channel_map_`. -/
  channelMap : List Handle := []
  /-- `session_map_`. -/
  sessionMap : List Handle := []
  /-- The `CLOSED` events `HnwBase_Async` has not run, each with the callback it captured. -/
  posted : List (Handle × EventCb) := []
  /-- The handle `generate_handle` gives next. -/
  next : Handle := 0
  /-- Whether `shutdown` of the SSL stream of a channel throws. -/
  shutdownThrows : Handle → Bool := fun _ => false

/-- What an event handler does, one operation after another. -/
inductive Op where
  /-- A channel object is made and put into `channel_map_`. -/
  | addChannel (handle : Handle) (channel : Channel)
  /-- `HnwBase_SetEvntCB`. -/
  | setEventCb (handle : Handle) (cb : EventCb)
  /-- `session_map_[handle] = sp`. -/
  | addSession (handle : Handle)
  /-- `del_session`. -/
  | delSession (handle : Handle)
  /-- `bconn_ = true`. -/
  | setConn (handle : Handle)
  /-- `HnwBase_Close`. -/
  | close (handle : Handle)
  /-- A posted event is taken for running. -/
  | unpost (event : Handle × EventCb)
  /-- The channel object is destroyed. -/
  | release (handle : Handle)

/-- A channel is made or replaced. -/
def State.setChannel (s : State) (handle : Handle) (channel : Channel) : State :=
  { s with channels := fun other => if other = handle then some channel else s.channels other }

/-- `Channel::close`. The client and the acceptor post `CLOSED` with the callback of the moment;
an SSL connection posts nothing, and stays connected where its shutdown throws. -/
def channelClose (s : State) (handle : Handle) (channel : Channel) : State :=
  if channel.conn = false then s
  else
    let closed := s.setChannel handle { channel with conn := false }
    match channel.type with
    | .sslClient => if s.shutdownThrows handle then s else closed
    | _ => { closed with posted := closed.posted ++ [(handle, channel.eventCb)] }

/-- `Service::close`: the channel leaves the map and is closed. -/
def close (s : State) (handle : Handle) : State :=
  if handle ∈ s.channelMap then
    let removed := { s with channelMap := s.channelMap.filter (· != handle) }
    match s.channels handle with
    | none => removed
    | some channel => channelClose removed handle channel
  else s

/-- `Service::set_event_cb`: only a channel in the map is found. -/
def setEventCb (s : State) (handle : Handle) (cb : EventCb) : State :=
  if handle ∈ s.channelMap then
    match s.channels handle with
    | none => s
    | some channel => s.setChannel handle { channel with eventCb := cb }
  else s

/-- One operation. -/
def perform (s : State) : Op → State
  | .addChannel handle channel =>
    { s.setChannel handle channel with
        channelMap := handle :: s.channelMap, next := s.next + 1 }
  | .setEventCb handle cb => setEventCb s handle cb
  | .addSession handle => { s with sessionMap := handle :: s.sessionMap }
  | .delSession handle => { s with sessionMap := s.sessionMap.filter (· != handle) }
  | .setConn handle =>
    match s.channels handle with
    | none => s
    | some channel => s.setChannel handle { channel with conn := true }
  | .close handle => close s handle
  | .unpost event => { s with posted := s.posted.erase event }
  | .release handle =>
    { s with channels := fun other => if other = handle then none else s.channels other }

/-- Operations in order. -/
def performAll (s : State) (ops : List Op) : State := ops.foldl perform s

/-- What the application's callback, or one of the service's own, does while it handles an
event. -/
inductive Call where
  /-- `HnwHttp_Close`. -/
  | close (handle : Handle)
  /-- `HnwBase_SetEvntCB(handle, nullptr)`. -/
  | dropCb (handle : Handle)
deriving DecidableEq

/-- The operation a call makes. -/
def Call.op : Call → Op
  | .close handle => .close handle
  | .dropCb handle => .setEventCb handle .base

/-- How `Service::start` comes out. -/
inductive Start where
  /-- `HnwBase_Add_Channnel` fails; the caller's handle, not overwritten, is closed. -/
  | addFails (stale : Handle)
  /-- `add_session` fails. -/
  | sessionFails
  /-- `HnwBase_Accept` or `HnwBase_Connect` fails. -/
  | refused
  /-- The channel listens or connects. -/
  | started
deriving DecidableEq

/-- The events of a run. -/
inductive Label where
  /-- `Service::start` for a channel of this type. -/
  | start (type : ChannelType) (outcome : Start)
  /-- A connect completes. -/
  | connected (handle : Handle) (calls : List Call)
  /-- A server accepts a connection; `snapshot` is the callback the connection got when it was
  made, `ready` whether its handshake succeeded, `added` whether `add_session` did. -/
  | accept (server : Handle) (snapshot : EventCb) (ready added : Bool) (calls : List Call)
  /-- A channel receives bytes. -/
  | receive (handle : Handle) (calls : List Call)
  /-- A channel raises an error. -/
  | fail (handle : Handle) (calls : List Call)
  /-- The application closes a connection outside of any callback. -/
  | close (handle : Handle)
  /-- A posted `CLOSED` event runs. -/
  | runPosted (event : Handle × EventCb) (calls : List Call)
  /-- The last handler that holds a channel ends, and the channel is destroyed. -/
  | released (handle : Handle)

/-- The HTTP service's `event_cb` for a handle without a session. -/
def unknownHandle (handle : Handle) : List Op := [.close handle, .delSession handle]

/-- The HTTP service's `event_cb` around what it does for a known session. -/
def eventCb (s : State) (handle : Handle) (known : List Op) : List Op :=
  if handle ∈ s.sessionMap then known else unknownHandle handle

/-- An event reaches what is installed. -/
def raise (s : State) (handle : Handle) (known : List Op) : List Op :=
  match (s.channels handle).map Channel.eventCb with
  | some .http => eventCb s handle known
  | _ => []

/-- The base layer's `event_cb` after an `ERROR`: the callback is replaced by none, then the
channel is closed. -/
def errorTail (s : State) (handle : Handle) : List Op :=
  match (s.channels handle).map Channel.eventCb with
  | some .http | some .base => [.setEventCb handle .base, .close handle]
  | _ => []

/-- The class of the connections a server accepts. -/
def ChannelType.accepted : ChannelType → ChannelType
  | .sslServer => .sslClient
  | _ => .tcpClient

/-- What the handler of an event does. -/
def plan (s : State) : Label → List Op
  | .start type outcome =>
    let listens := type = .tcpServer ∨ type = .sslServer
    let channel : Channel := { type, conn := decide listens, eventCb := .unset }
    match outcome with
    | .addFails stale => [.close stale]
    | .sessionFails => [.addChannel s.next channel, .close s.next]
    | .refused =>
      [.addChannel s.next channel, .setEventCb s.next .http, .addSession s.next, .close s.next]
    | .started => [.addChannel s.next channel, .setEventCb s.next .http, .addSession s.next]
  | .connected handle calls => .setConn handle :: raise s handle (calls.map Call.op)
  | .accept server snapshot ready added calls =>
    let type := ((s.channels server).elim .tcpServer (·.type)).accepted
    .addChannel s.next { type, conn := ready, eventCb := snapshot } ::
      raise s server
        ((if added then [.setEventCb s.next .http, .addSession s.next] else [.close server]) ++
          calls.map Call.op)
  | .receive handle calls => raise s handle (calls.map Call.op)
  | .fail handle calls => raise s handle (calls.map Call.op) ++ errorTail s handle
  | .close handle => [.close handle]
  | .runPosted event calls =>
    -- The session is deleted while the event is still listed, so that no state in between has a
    -- session without either.
    match event.2 with
    | .http =>
      if event.1 ∈ s.sessionMap then
        .delSession event.1 :: .unpost event :: calls.map Call.op
      else .unpost event :: unknownHandle event.1
    | _ => [.unpost event]
  | .released handle => [.release handle]

/-- Whether an event can happen. -/
def Enabled (s : State) : Label → Prop
  | .accept server snapshot ready _ _ =>
    ∃ channel, s.channels server = some channel ∧ channel.conn = true ∧
      (channel.type = .tcpServer ∧ ready = true ∨ channel.type = .sslServer) ∧
      (snapshot = .http ∨ snapshot = channel.eventCb)
  | .connected handle _ =>
    ∃ channel, s.channels handle = some channel ∧
      (channel.type = .tcpClient ∨ channel.type = .sslClient)
  | .receive handle _ | .fail handle _ => (s.channels handle).isSome
  | .runPosted event _ => event ∈ s.posted
  | .released handle =>
    handle ∉ s.channelMap ∧ (∀ event ∈ s.posted, event.1 ≠ handle) ∧
      ∃ channel, s.channels handle = some channel ∧ channel.Destructible
  | .start .. | .close _ => True

/-- The state an event leaves behind. -/
def after (s : State) (label : Label) : State := performAll s (plan s label)

/-- Both services, from an empty start. -/
def services : System State Label where
  init s := ∃ throws, s = { shutdownThrows := throws }
  step s label s' := Enabled s label ∧ s' = after s label

end Hnw.Service
