import Hnw.Session.Send

/-!
# A session used by several threads

`Session::send` and `on_read` in atomic steps: a block under `send_lock_` is one, and so is a single
read or write of `send_flag_` or `connect_flag_`. A read chain is what `HnwBase_Send_Cb` starts: the
transport calls `on_read` and writes the bytes it got, one call after another, until a call returns
0. What a call does with `send_status_` between two locks is one step, and the bytes of a call are
on the wire when they are written. They carry the number of their message, which the code has no
use for.
-/

namespace Hnw.Http

open Hnw.Util Hnw.Util.UnorderedMultimap Hnw.Theory

/-- What distinguishes the sessions of the two types. -/
structure SenderKind (ι σ : Type) where
  /-- `pre_send`, with `session_head_`. -/
  preSend : σ → Message ι σ → Option (Message ι σ × Bool)
  /-- `line->string()`. -/
  string : ι → Bytes
  /-- Whether `on_read` returns 0 where a message is over. -/
  returnsAtEnd : Bool

/-- Where a thread is in `send` or `on_connect_establish`. -/
inductive ThreadPhase where
  /-- Outside. -/
  | idle
  /-- At the beginning of `start_send`, before it reads `send_flag_`. -/
  | starting
  /-- It read `send_flag_` as false, and will read `connect_flag_`. -/
  | sawIdle
  /-- It read `connect_flag_` as true, and will set `send_flag_`. -/
  | sawConnected
  /-- It set `send_flag_`, and will call `HnwBase_Send_Cb`. -/
  | raised
deriving DecidableEq

/-- Where a read chain is. -/
inductive ChainPhase where
  /-- The transport will call `on_read`. -/
  | idle
  /-- At the top of the loop of `on_read`, with a buffer of this size. -/
  | top (buffSize : Nat)
  /-- There is a current message. -/
  | stages (buffSize : Nat)
  /-- `on_read` returned bytes of the message of this number, which the transport is writing. -/
  | writing (piece : Nat × Bytes)
deriving DecidableEq

/-- A session, the threads that use it and its read chains. -/
structure Concurrent (ι σ : Type) where
  /-- The session. -/
  session : Session ι σ
  /-- The threads by number. -/
  threads : Nat → ThreadPhase
  /-- The active read chains. -/
  chains : List ChainPhase
  /-- What is on the wire. -/
  wire : List (Nat × Bytes)
  /-- The messages in the order they were queued. -/
  sent : List (Message ι σ)

/-- The atomic steps; threads and chains are given by their number. -/
inductive ThreadLabel (ι σ : Type) where
  /-- `send` queues a message under the lock. -/
  | push (thread : Nat) (message : Message ι σ)
  /-- `on_connect_establish` sets `connect_flag_`. -/
  | connect (thread : Nat)
  /-- `start_send` reads `send_flag_`. -/
  | readSendFlag (thread : Nat)
  /-- It reads `connect_flag_`. -/
  | readConnectFlag (thread : Nat)
  /-- It sets `send_flag_`. -/
  | writeSendFlag (thread : Nat)
  /-- It calls `HnwBase_Send_Cb`. -/
  | sendCb (thread : Nat)
  /-- The transport calls `on_read`. -/
  | call (chain buffSize : Nat)
  /-- `on_read` looks for the current message, or takes the next one under the lock. -/
  | takeNext (chain : Nat)
  /-- `on_read` goes through the stages of the current message. -/
  | stages (chain : Nat)
  /-- The bytes are written. -/
  | written (chain : Nat)

namespace Concurrent

variable {ι σ : Type} [UnorderedMultimap σ]

/-- The number of the message that was taken off the queue last. -/
def taken (s : Concurrent ι σ) : Nat := s.sent.length - s.session.queue.length

/-- A thread moves on. -/
def setThread (s : Concurrent ι σ) (thread : Nat) (phase : ThreadPhase) : Concurrent ι σ :=
  { s with threads := fun other => if other = thread then phase else s.threads other }

/-- A chain moves on. -/
def setChain (s : Concurrent ι σ) (chain : Nat) (phase : ChainPhase) : Concurrent ι σ :=
  { s with chains := s.chains.set chain phase }

/-- `on_read` returned 0 to a chain. -/
def endChain (s : Concurrent ι σ) (chain : Nat) : Concurrent ι σ :=
  { s with chains := s.chains.eraseIdx chain }

/-- The block under the lock in `on_read`, where there is no current message; `none` is a fault. -/
def lockBlock (kind : SenderKind ι σ) (s : Concurrent ι σ) (chain buffSize : Nat) :
    Option (Concurrent ι σ) :=
  match Session.takeNext (kind.preSend s.session.sessionHead) kind.string s.session with
  | none => none
  | some none => some ({ s with session := (Session.readDrained s.session).session }.endChain chain)
  | some (some (session, _)) => some ({ s with session }.setChain chain (.stages buffSize))

/-- The stages of `on_read`; `none` is a fault. -/
def stageBlock (kind : SenderKind ι σ) (fs : FileSystem) (s : Concurrent ι σ)
    (chain buffSize : Nat) : Option (Concurrent ι σ) :=
  match s.session.sendStatus.message with
  | none => none
  | some message =>
    match Session.sendStages fs buffSize s.session.sendStatus.status message
        s.session.sendStatus.cache with
    | none => none
    | some (.bytes bytes status) =>
      let s := { s with session := { s.session with sendStatus := status } }
      some (if bytes = [] then s.endChain chain else s.setChain chain (.writing (s.taken, bytes)))
    | some .bodyEnd =>
      let s := { s with session := Session.messageEnd s.session }
      some (if kind.returnsAtEnd then s.endChain chain else s.setChain chain (.top buffSize))

/-- One atomic step; `none` where the thread or the chain is elsewhere. -/
def next (kind : SenderKind ι σ) (fs : FileSystem) (s : Concurrent ι σ) :
    ThreadLabel ι σ → Option (Concurrent ι σ)
  | .push thread message =>
    if s.threads thread = .idle then
      some ({ s with session := { s.session with queue := s.session.queue ++ [message] },
                     sent := s.sent ++ [message] }.setThread thread .starting)
    else none
  | .connect thread =>
    if s.threads thread = .idle then
      some ({ s with session := { s.session with connectFlag := true } }.setThread thread .starting)
    else none
  | .readSendFlag thread =>
    if s.threads thread = .starting then
      some (s.setThread thread (if s.session.sendFlag then .idle else .sawIdle))
    else none
  | .readConnectFlag thread =>
    if s.threads thread = .sawIdle then
      some (s.setThread thread (if s.session.connectFlag then .sawConnected else .idle))
    else none
  | .writeSendFlag thread =>
    if s.threads thread = .sawConnected then
      some ({ s with session := { s.session with sendFlag := true } }.setThread thread .raised)
    else none
  | .sendCb thread =>
    if s.threads thread = .raised then
      some ({ s with chains := s.chains ++ [ChainPhase.idle] }.setThread thread .idle)
    else none
  | .call chain buffSize =>
    if s.chains[chain]? = some .idle ∧ 0 < buffSize then some (s.setChain chain (.top buffSize))
    else none
  | .takeNext chain =>
    match s.chains[chain]? with
    | some (.top buffSize) => s.lockBlock kind chain buffSize
    | _ => none
  | .stages chain =>
    match s.chains[chain]? with
    | some (.stages buffSize) => s.stageBlock kind fs chain buffSize
    | _ => none
  | .written chain =>
    match s.chains[chain]? with
    | some (.writing piece) => some ({ s with wire := s.wire ++ [piece] }.setChain chain .idle)
    | _ => none

/-- A session from its constructor, connected or not, that no thread uses yet. -/
def fresh (sessionHead : σ) (connected : Bool) : Concurrent ι σ :=
  { session := { Session.generate sessionHead with connectFlag := connected }
    threads := fun _ => .idle
    chains := []
    wire := []
    sent := [] }

/-- Everything that any number of threads and the transport can do to a session. -/
def system (kind : SenderKind ι σ) (fs : FileSystem) (sessionHead : σ) (connected : Bool) :
    System (Concurrent ι σ) (ThreadLabel ι σ) where
  init s := s = fresh sessionHead connected
  step s label later := s.next kind fs label = some later

end Concurrent

/-- A session of the type `Server`. -/
def serverKind {σ : Type} [UnorderedMultimap σ] : SenderKind ResponseLine σ where
  preSend := Session.preSendResponse
  string := ResponseLine.string
  returnsAtEnd := false

/-- A session of the type `Client`, which sends what it is given with no word on closing. -/
def clientKind {σ : Type} [UnorderedMultimap σ] : SenderKind RequestLine σ where
  preSend sessionHead request :=
    (Session.preSendRequest sessionHead request).map fun request => (request, false)
  string := RequestLine.string
  returnsAtEnd := true

end Hnw.Http
