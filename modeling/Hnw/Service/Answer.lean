import Hnw.Parser.Parser
import Hnw.Service.Connections
import Hnw.Theory.Readings

/-!
# The answer to a request

`Service::request` and `get_resource_status` open a channel whose events reach `on_request_once` or
`resource_status_cb`, which call the application back. They do so on two routes: the channel's
`event_cb_`, and the copy of it that the session's parser has. Both lead through the HTTP service's
`event_cb`. Everything else the two services do goes on beside that.
-/

namespace Hnw.Service

open Hnw.Http Hnw.Util Hnw.Util.UnorderedMultimap Hnw.Theory Hnw.Parser

/-- What comes of `HnwHttp_RawRequest`. -/
inductive RawRequest where
  /-- The request is queued, and sent or not. -/
  | sent
  /-- It returns an error code. -/
  | refused
  /-- The channel raises an error event while it is sent, and it returns an error code. -/
  | raises
deriving DecidableEq

/-- The events the two callbacks look at. -/
inductive CallbackEvent where
  /-- `HNW_BASE_CONNECT_ESTABLISH`, and whether the request can be sent. -/
  | connect (sent : Bool)
  /-- `HNW_HTTP_RECV_RESPONSE_HEAD`. -/
  | recvHead
  /-- `HNW_HTTP_RECV_RESPONSE`. -/
  | recv
  /-- `HNW_BASE_ERROR`. -/
  | error
deriving DecidableEq

/-- An event of the parser. -/
def CallbackEvent.ofParser {ι σ : Type} : Event ι σ → CallbackEvent
  | .recvHead .. => .recvHead
  | .recv .. => .recv
  | .error _ => .error

/-- Which of the two callbacks a channel was opened with. -/
inductive Callback where
  | onRequestOnce
  | resourceStatusCb
deriving DecidableEq

/-- `on_request_once`: whether it calls the application back, and what it does then. -/
def onRequestOnce (handle : Handle) : CallbackEvent → Bool × List Call
  | .connect sent => if sent then (false, []) else (true, [.close handle])
  | .recvHead => (false, [])
  | .recv => (true, [.dropCb handle, .close handle])
  | .error => (true, [.dropCb handle, .close handle])

/-- `resource_status_cb`, which drops no callback on an error. -/
def resourceStatusCb (handle : Handle) : CallbackEvent → Bool × List Call
  | .connect sent => if sent then (false, []) else (true, [.close handle])
  | .recvHead => (true, [.dropCb handle, .close handle])
  | .recv => (false, [])
  | .error => (true, [.close handle])

/-- What a callback does. -/
def Callback.react (callback : Callback) (handle : Handle) : CallbackEvent → Bool × List Call :=
  match callback with
  | .onRequestOnce => Service.onRequestOnce handle
  | .resourceStatusCb => Service.resourceStatusCb handle

/-- How often a callback calls the application back. -/
def Callback.answers (callback : Callback) (handle : Handle) (events : List CallbackEvent) : Nat :=
  events.countP fun event => (callback.react handle event).1

/-- What a callback does to channels. -/
def Callback.calls (callback : Callback) (handle : Handle) (events : List CallbackEvent) :
    List Call :=
  events.flatMap fun event => (callback.react handle event).2

/-- A channel a callback was opened with. -/
structure Requesting (σ : Type) where
  /-- Both services. -/
  services : State
  /-- The channel. -/
  handle : Handle
  /-- The parser of its session, and what is unread of the chunk it was given. -/
  reading : Reading (ParserState ResponseLine σ) UInt8
  /-- How often the application was called back. -/
  answers : Nat
  /-- No exception left an event handler. -/
  alive : Bool

/-- What happens. -/
inductive RequestLabel where
  /-- Something that is not an event of the channel. -/
  | other (label : Label)
  /-- The channel is connected; `drains` whether the session's `on_connect_establish`, which has
  nothing to send, comes to its end without an error event of the channel. -/
  | connected (drains : Bool) (request : RawRequest)
  /-- The channel receives a chunk. -/
  | receive (chunk : Bytes)
  /-- The parser reads on in the chunk. -/
  | read
  /-- The channel raises an error. -/
  | fail
  /-- The channel's posted `CLOSED` event runs. -/
  | closed (cb : EventCb)

namespace Requesting

variable {σ : Type} [UnorderedMultimap σ]

/-- An event of the channel reaches the callback. -/
def Reaches (s : Requesting σ) : Prop :=
  (s.services.channels s.handle).map Channel.eventCb = some .http ∧
    s.handle ∈ s.services.sessionMap

instance (s : Requesting σ) : Decidable (Reaches s) := inferInstanceAs (Decidable (_ ∧ _))

/-- The events of a connect, in order, each with what the base layer's `event_cb` does after it. -/
def connectEvents (handle : Handle) (drains : Bool) (request : RawRequest) :
    List (CallbackEvent × List Call) :=
  let error := (CallbackEvent.error, [Call.dropCb handle, Call.close handle])
  (if drains then [] else [error]) ++
    match request with
    | .sent => [(.connect true, [])]
    | .refused => [(.connect false, [])]
    | .raises => [error, (.connect false, [])]

/-- The channel is connected. -/
def connected (callback : Callback) (s : Requesting σ) (drains : Bool) (request : RawRequest) :
    Requesting σ :=
  let events := connectEvents s.handle drains request
  let calls := events.flatMap fun event => (callback.react s.handle event.1).2 ++ event.2
  { s with
    services := after s.services (.connected s.handle calls)
    answers := s.answers +
      if s.Reaches then callback.answers s.handle (events.map Prod.fst) else 0 }

/-- The channel receives a chunk, which a known session gives to its parser. -/
def receive (s : Requesting σ) (chunk : Bytes) : Requesting σ :=
  { s with
    services := after s.services (.receive s.handle [])
    reading := if s.Reaches then { s.reading with unread := chunk } else s.reading }

/-- The parser's next call, whose events go to the HTTP service directly. -/
def read (setting : Setting ResponseLine σ) (callback : Callback) (s : Requesting σ) :
    Requesting σ :=
  let call := callParserCb setting s.reading.state s.reading.unread
  let events := call.out.map CallbackEvent.ofParser
  let known := (callback.calls s.handle events).map Call.op
  { s with
    services :=
      performAll s.services (if events = [] then [] else eventCb s.services s.handle known)
    reading := s.reading.call (callParserCb setting)
    answers := s.answers +
      if s.handle ∈ s.services.sessionMap then callback.answers s.handle events else 0
    alive := !call.stop.any Stop.fatal }

/-- The channel raises an error. -/
def fail (callback : Callback) (s : Requesting σ) : Requesting σ :=
  { s with
    services := after s.services (.fail s.handle (callback.calls s.handle [.error]))
    answers := s.answers + if s.Reaches then callback.answers s.handle [.error] else 0 }

/-- The channel an event is of. -/
def subject : Label → Option Handle
  | .connected handle _ | .receive handle _ | .fail handle _ => some handle
  | .accept server .. => some server
  | .runPosted event _ => some event.1
  | .start .. | .close _ | .released _ => none

/-- What follows. -/
def next (setting : Setting ResponseLine σ) (callback : Callback) (s : Requesting σ) :
    RequestLabel → Requesting σ
  | .other label => { s with services := after s.services label }
  | .connected drains request => s.connected callback drains request
  | .receive chunk => s.receive chunk
  | .read => s.read setting callback
  | .fail => s.fail callback
  | .closed cb => { s with services := after s.services (.runPosted (s.handle, cb) []) }

/-- Whether it can happen. After a `start_send` that fails `send_flag_` stays set, so sending the
request raises nothing then. -/
def Enabled (s : Requesting σ) : RequestLabel → Prop
  | .other label => Service.Enabled s.services label ∧ subject label ≠ some s.handle
  | .connected drains request =>
    Service.Enabled s.services (.connected s.handle []) ∧ (drains = false → request ≠ .raises)
  | .receive _ =>
    Service.Enabled s.services (.receive s.handle []) ∧ s.reading.unread = []
  | .read => s.reading.unread ≠ []
  | .fail => Service.Enabled s.services (.fail s.handle [])
  | .closed cb => (s.handle, cb) ∈ s.services.posted

/-- A channel that was just opened with a callback, in whatever state the services are. -/
def Opened (setting : Setting ResponseLine σ) (s : Requesting σ) : Prop :=
  ∃ before type files, Service.services.Reachable before ∧
    (type = ChannelType.tcpClient ∨ type = .sslClient) ∧
    s = { services := after before (.start type .started), handle := before.next,
          reading := ⟨Parser.fresh setting files [], []⟩, answers := 0, alive := true }

/-- Everything that can happen to a channel that was opened with a callback. -/
def system (setting : Setting ResponseLine σ) (callback : Callback) :
    System (Requesting σ) RequestLabel where
  init := Opened setting
  step s label later := s.alive = true ∧ s.Enabled label ∧ later = s.next setting callback label

end Requesting

end Hnw.Service
