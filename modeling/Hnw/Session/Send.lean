import Hnw.Http.Message
import Hnw.Theory.Transition

/-!
# Sending

The send half of `http::Session`. A session of the type `Server` only ever touches
`response_queue_` and one of the type `Client` only `request_queue_`, so a session is modelled by
the half its type uses. What a null body leads to is `none`, a crash.
-/

namespace Hnw.Http

open Hnw.Util Hnw.Util.UnorderedMultimap Hnw.Theory

/-- `EN_SEND_STATUS`. -/
inductive EnSendStatus where
  | line
  | head
  | body
deriving DecidableEq, Repr

/-- `SendStaus`. -/
structure SendStatus (ι σ : Type) where
  /-- `status`. -/
  status : EnSendStatus
  /-- `response` or `request`. -/
  message : Option (Message ι σ)
  /-- `cache`. -/
  cache : Bytes

/-- `Session`, as far as it sends. -/
structure Session (ι σ : Type) where
  /-- `response_queue_` or `request_queue_`. -/
  queue : List (Message ι σ)
  /-- `send_status_`. -/
  sendStatus : SendStatus ι σ
  /-- `send_flag_`. -/
  sendFlag : Bool
  /-- `connect_flag_`. -/
  connectFlag : Bool
  /-- `close_after_send_flag_`. -/
  closeAfterSendFlag : Bool
  /-- `session_head_`. -/
  sessionHead : σ

/-- What one call of `on_read` does. -/
structure Read (ι σ : Type) where
  /-- The bytes it puts into the buffer; it returns their number. -/
  bytes : Bytes
  /-- Whether it calls `HnwHttp_Close`. -/
  close : Bool
  /-- The session after it. -/
  session : Session ι σ

namespace Session

variable {ι σ : Type} [UnorderedMultimap σ]

/-! ## The session's head -/

/-- `add_session_head`. -/
def addSessionHead (head : σ) (key value : Bytes) : σ := addHead (delHead head key) key value

/-- `session_head_` of a new session of the type `Server`. -/
def serverHead : σ :=
  addSessionHead (addSessionHead empty httpAccept acceptAll) httpConn httpConnClose

/-- `session_head_` of a new session of the type `Client`. -/
def clientHead : σ :=
  addSessionHead (addSessionHead (addSessionHead empty httpUa hnwHttpUa) httpAccept acceptAll)
    httpConn httpConnClose

/-- `session_head_` of a client session that `Service::start` made for a URL of this host. -/
def startedHead (host : Bytes) : σ := addSessionHead clientHead httpHost host

/-- A new session. -/
def generate (sessionHead : σ) : Session ι σ :=
  { queue := [], sendStatus := ⟨.line, none, []⟩, sendFlag := false, connectFlag := false,
    closeAfterSendFlag := false, sessionHead }

/-! ## `pre_send` -/

/-- A message without a `Content-Length` gets the size of its body. -/
def addLength (message : Message ι σ) : Option (Message ι σ) :=
  if getHeadCount message.head httpLen = 0 then
    message.body.map fun body =>
      { message with head := addHeadUint64 message.head httpLen body.bodySize }
  else some message

/-- `pre_send(request)`. -/
def preSendRequest (sessionHead : σ) (request : Request σ) : Option (Request σ) :=
  (addLength request).map fun request =>
    { request with head := merge request.head sessionHead false }

/-- `pre_send(response)`, and whether it sets `close_after_send_flag_`. -/
def preSendResponse (sessionHead : σ) (response : Response σ) : Option (Response σ × Bool) :=
  (addLength response).map fun response =>
    let head :=
      if getHeadCount response.head httpCt = 0 then addHead response.head httpCt htmlMime
      else response.head
    let head := merge head sessionHead false
    ({ response with head }, getHead head httpConn httpConnClose = httpConnClose)

/-! ## `on_read` -/

/-- `move_cache`: what goes into the buffer, and what stays. -/
def moveCache (buffSize : Nat) (cache : Bytes) : Bytes × Bytes :=
  let copySize := if cache.length ≤ buffSize then cache.length else buffSize
  (cache.take copySize, cache.drop copySize)

/-- What the three stages of the loops of `on_read` lead to. -/
inductive Emitted (ι σ : Type) where
  /-- Bytes are returned. -/
  | bytes (bytes : Bytes) (status : SendStatus ι σ)
  /-- The body is at its end. -/
  | bodyEnd

/-- The stage `EN_SEND_BODY`. -/
def sendBody (fs : FileSystem) (buffSize : Nat) (message : Message ι σ) (cache : Bytes) :
    Option (Emitted ι σ) :=
  message.body.map fun body =>
    let (bytes, body) := body.readBody fs buffSize
    if bytes.length = 0 then .bodyEnd
    else .bytes bytes ⟨.body, some { message with body := some body }, cache⟩

/-- The stage `EN_SEND_HEAD`. -/
def sendHead (fs : FileSystem) (buffSize : Nat) (message : Message ι σ) (cache : Bytes) :
    Option (Emitted ι σ) :=
  if cache = [] then sendBody fs buffSize message cache
  else
    let (bytes, cache) := moveCache buffSize cache
    some (.bytes bytes ⟨.head, some message, cache⟩)

/-- The stage `EN_SEND_LINE`. -/
def sendLine (fs : FileSystem) (buffSize : Nat) (message : Message ι σ) (cache : Bytes) :
    Option (Emitted ι σ) :=
  if cache = [] then sendHead fs buffSize message (headString message.head ++ crlf)
  else
    let (bytes, cache) := moveCache buffSize cache
    some (.bytes bytes ⟨.line, some message, cache⟩)

/-- The stages from the current one on. -/
def sendStages (fs : FileSystem) (buffSize : Nat) (status : EnSendStatus)
    (message : Message ι σ) (cache : Bytes) : Option (Emitted ι σ) :=
  match status with
  | .line => sendLine fs buffSize message cache
  | .head => sendHead fs buffSize message cache
  | .body => sendBody fs buffSize message cache

/-- The queue is empty: the end of both loops. -/
def readDrained (s : Session ι σ) : Read ι σ :=
  { bytes := [], close := s.closeAfterSendFlag, session := { s with sendFlag := false } }

/-- The current message is over. -/
def messageEnd (s : Session ι σ) : Session ι σ :=
  { s with sendStatus := { s.sendStatus with message := none } }

/-- The message being sent, or the next one of the queue made ready; `some none` where there is
neither. -/
def takeNext (preSend : Message ι σ → Option (Message ι σ × Bool)) (string : ι → Bytes)
    (s : Session ι σ) : Option (Option (Session ι σ × Message ι σ)) :=
  match s.sendStatus.message with
  | some message => some (some (s, message))
  | none =>
    match s.queue with
    | [] => some none
    | message :: queue =>
      (preSend message).map fun (message, close) =>
        some ({ s with
                queue
                sendStatus := ⟨.line, some message, string message.line ++ crlf⟩
                closeAfterSendFlag := s.closeAfterSendFlag || close }, message)

/-- `on_read_request`. It returns 0 also where a request is over, and then leaves `send_flag_` as
it is. -/
def onReadRequest (fs : FileSystem) (buffSize : Nat) (s : Session RequestLine σ) :
    Option (Read RequestLine σ) := do
  let preSend request := (preSendRequest s.sessionHead request).map fun request => (request, false)
  match ← takeNext preSend RequestLine.string s with
  | none => pure (readDrained s)
  | some (s, request) =>
    match ← sendStages fs buffSize s.sendStatus.status request s.sendStatus.cache with
    | .bytes bytes status => pure ⟨bytes, false, { s with sendStatus := status }⟩
    | .bodyEnd => pure ⟨[], false, messageEnd s⟩

/-- The loop of `on_read_response`, with a bound on its rounds. -/
def onReadResponseFrom (fs : FileSystem) (buffSize : Nat) :
    Nat → Session ResponseLine σ → Option (Read ResponseLine σ)
  | 0, _ => none
  | rounds + 1, s => do
    match ← takeNext (preSendResponse s.sessionHead) ResponseLine.string s with
    | none => pure (readDrained s)
    | some (s, response) =>
      match ← sendStages fs buffSize s.sendStatus.status response s.sendStatus.cache with
      | .bytes bytes status => pure ⟨bytes, false, { s with sendStatus := status }⟩
      | .bodyEnd => onReadResponseFrom fs buffSize rounds (messageEnd s)

/-- `on_read_response`: a round ends the current response or returns. -/
def onReadResponse (fs : FileSystem) (buffSize : Nat) (s : Session ResponseLine σ) :
    Option (Read ResponseLine σ) :=
  onReadResponseFrom fs buffSize (s.queue.length + 2) s

/-! ## `send` -/

/-- `start_send`, and whether it hands the transport the callback. -/
def startSend (s : Session ι σ) : Session ι σ × Bool :=
  if s.sendFlag then (s, false)
  else if s.connectFlag = false then (s, false)
  else ({ s with sendFlag := true }, true)

/-- `send`. -/
def send (s : Session ι σ) (message : Message ι σ) : Session ι σ × Bool :=
  startSend { s with queue := s.queue ++ [message] }

/-- `on_connect_establish`. -/
def onConnectEstablish (s : Session ι σ) : Session ι σ × Bool :=
  startSend { s with connectFlag := true }

/-- A server session that was given responses and then connected. -/
def sendAll (responses : List (Response σ)) : Session ResponseLine σ :=
  (onConnectEstablish (responses.foldl (fun s response => (send s response).1)
    (generate serverHead))).1

/-- The bytes a transport gets that reads into buffers of these sizes until `on_read_response`
returns 0; `none` where it runs out of buffers before. -/
def drain (fs : FileSystem) : List Nat → Session ResponseLine σ → Option Bytes
  | [], _ => none
  | buffSize :: sizes, s => do
    let read ← onReadResponse fs buffSize s
    if read.bytes.length = 0 then pure []
    else (drain fs sizes read.session).map (read.bytes ++ ·)

end Session

/-! ## The transport -/

/-- A session and its transport. -/
structure Transport (ι σ : Type) where
  /-- The session. -/
  session : Session ι σ
  /-- How often `on_read` is being called until it returns 0. -/
  chains : Nat
  /-- The bytes `on_read` returned so far. -/
  emitted : Bytes
  /-- The messages given to `send` so far. -/
  sent : List (Message ι σ)

/-- What happens to a session. -/
inductive SendLabel (ι σ : Type) where
  /-- The application sends a message. -/
  | send (message : Message ι σ)
  /-- The connection is established. -/
  | connect
  /-- The transport reads into a buffer of this size. -/
  | read (buffSize : Nat)

/-- A body whose bytes can all be read, at its beginning. -/
def Body.Fresh (fs : FileSystem) : Body → Prop
  | .raw body => body.readPos = 0
  | .file body =>
    body.readPos = 0 ∧ ∃ file, fs body.fileName = some file ∧ file.bytes.length = body.size
  | .empty => False

namespace Transport

variable {ι σ : Type}

/-- The transport takes a callback it is handed. -/
def handOver (t : Transport ι σ) (started : Session ι σ × Bool) : Transport ι σ :=
  { t with session := started.1, chains := if started.2 then t.chains + 1 else t.chains }

/-- A chain of calls ends where `on_read` returns 0. -/
def afterRead (t : Transport ι σ) (read : Read ι σ) : Transport ι σ :=
  { t with session := read.session, emitted := t.emitted ++ read.bytes,
           chains := if read.bytes.length = 0 then t.chains - 1 else t.chains }

/-- A session from its constructor, over a channel that is not connected. -/
def fresh [UnorderedMultimap σ] (sessionHead : σ) : Transport ι σ :=
  { session := Session.generate sessionHead, chains := 0, emitted := [], sent := [] }

/-- One step of a session whose `on_read` is this one: bodies are fresh, buffers have room, and
the transport only reads while a chain is active. -/
inductive Step (fs : FileSystem) (onRead : Nat → Session ι σ → Option (Read ι σ)) :
    Transport ι σ → SendLabel ι σ → Transport ι σ → Prop where
  | send {t : Transport ι σ} {message : Message ι σ} {body : Body}
      (present : message.body = some body) (unread : body.Fresh fs) :
      Step fs onRead t (.send message)
        { handOver t (t.session.send message) with sent := t.sent ++ [message] }
  | connect {t : Transport ι σ} :
      Step fs onRead t .connect (handOver t t.session.onConnectEstablish)
  | read {t : Transport ι σ} {buffSize : Nat} {read : Read ι σ} (room : 0 < buffSize)
      (active : 0 < t.chains) (returns : onRead buffSize t.session = some read) :
      Step fs onRead t (.read buffSize) (afterRead t read)

end Transport

/-- Everything that can happen to a session of the type `Server`. -/
def serverSystem {σ : Type} [UnorderedMultimap σ] (fs : FileSystem) (sessionHead : σ) :
    System (Transport ResponseLine σ) (SendLabel ResponseLine σ) where
  init t := t = .fresh sessionHead
  step := Transport.Step fs (Session.onReadResponse fs)

/-- Everything that can happen to a session of the type `Client`. -/
def clientSystem {σ : Type} [UnorderedMultimap σ] (fs : FileSystem) (sessionHead : σ) :
    System (Transport RequestLine σ) (SendLabel RequestLine σ) where
  init t := t = .fresh sessionHead
  step := Transport.Step fs (Session.onReadRequest fs)

end Hnw.Http
