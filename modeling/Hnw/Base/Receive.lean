import Hnw.Theory.Loop
import Hnw.Theory.Transition
import Hnw.Util.Bytes

/-!
# Receiving over a stream channel

The receive loop of `ASIOClientChannel`: `async_recv` starts a read with a timer beside it, the
handler of the read tells the bytes and calls `async_recv` again. The transport completes a read
with some of the bytes that arrived, in their order; the threads of the service run the handlers,
each when it likes to. The connect handler and `after_accept` begin a loop. A timer that expired is
not cancelled any more.
-/

namespace Hnw.Base

open Hnw.Theory

/-- The error codes a receive loop raises. -/
inductive ReceiveError where
  | channelNotConn
  | allocFail
  | recvDataFail
  | recvDataTimeout
deriving DecidableEq, Repr

/-- The events a receive loop raises. -/
inductive ReceiveEvent where
  /-- `CONNECT_ESTABLISH`, or `ACCEPT` at the server. -/
  | established
  /-- `EVENT_RECV_CB`. -/
  | recv (bytes : Bytes)
  /-- `EVENT_ERR_CB`. -/
  | error (code : ReceiveError)
deriving DecidableEq, Repr

/-- `ASIOClientChannel`: the fields `async_recv` reads. -/
structure ReceiveChannel where
  /-- `bconn_`. -/
  bconn : Bool := false
  /-- `recv_buff_size_`. -/
  recvBuffSize : Nat
  /-- `recv_time_out_ms_`. -/
  recvTimeOutMs : Nat
  /-- `make_shared_` is set. -/
  makeShared : Bool

/-- A read that was started: what its handler captured. -/
structure PendingRead where
  /-- `buff_len`. -/
  buffLen : Nat
  /-- `timer`. -/
  timer : Option Nat

/-- A read that completed, with its bytes or an error. -/
structure CompletedRead where
  /-- What the handler captured. -/
  read : PendingRead
  /-- The bytes; `none` is an error. -/
  bytes : Option Bytes

/-- A channel, its receive loops and its timers. A handler that is running holds the size of its
buffer, where it has one. -/
structure Receiving where
  /-- The channel. -/
  channel : ReceiveChannel
  /-- The reads. -/
  loop : Loop PendingRead CompletedRead (Option Nat) := {}
  /-- The timers that run. -/
  armed : List Nat := []
  /-- The timers that expired and whose handlers no thread runs yet. -/
  expired : List Nat := []
  /-- How many timers were made. -/
  timers : Nat := 0
  /-- The bytes that arrived. -/
  stream : Bytes := []
  /-- How many of them went into reads. -/
  taken : Nat := 0
  /-- The events that were raised. -/
  events : List ReceiveEvent := []

/-- What happens to a channel. -/
inductive ReceiveLabel where
  /-- The connect handler runs, or `before_accept` and what follows. -/
  | established
  /-- The callback of a handler returns, and the handler calls `async_recv`. -/
  | returned (index : Nat)
  /-- Bytes arrive. -/
  | arrived (bytes : Bytes)
  /-- The transport completes a read with so many bytes. -/
  | completed (index count : Nat)
  /-- The transport completes a read with an error. -/
  | failed (index : Nat)
  /-- A thread runs the handler of a read. -/
  | handled (index : Nat)
  /-- `close`. -/
  | closed
  /-- `config` with `SET_RECV_BUFF_SIZE`. -/
  | setRecvBuffSize (size : Nat)
  /-- `config` with `SET_RECV_TIME_OUT_MS`. -/
  | setRecvTimeOut (timeOut : Nat)
  /-- A timer expires. -/
  | expired (timer : Nat)
  /-- A thread runs the handler of a timer. -/
  | timedOut (timer : Nat)

/-- The size of the buffer that `async_recv` reads into, a new one where the old one is missing or
has another size; or the error it raises. -/
def recvBuffer (channel : ReceiveChannel) (buffLen : Option Nat) : Except ReceiveError Nat :=
  if channel.bconn = false then .error .channelNotConn
  else if buffLen = some channel.recvBuffSize then .ok channel.recvBuffSize
  else if channel.makeShared then .ok channel.recvBuffSize
  else .error .allocFail

namespace Receiving

/-- An event is raised. -/
def raise (r : Receiving) (event : ReceiveEvent) : Receiving :=
  { r with events := r.events ++ [event] }

/-- `add_timer`. -/
def addTimer (r : Receiving) (timeOut : Nat) : Option Nat × Receiving :=
  if timeOut = 0 then (none, r)
  else (some r.timers, { r with armed := r.timers :: r.armed, timers := r.timers + 1 })

/-- `del_timer`: a timer that expired is not cancelled. -/
def delTimer (r : Receiving) (timer : Option Nat) : Receiving :=
  match timer with
  | none => r
  | some timer => { r with armed := r.armed.erase timer }

/-- `async_recv`, called by a handler that is running. -/
def asyncRecv (r : Receiving) (index : Nat) (buffLen : Option Nat) : Receiving :=
  match recvBuffer r.channel buffLen with
  | .error code => { r.raise (.error code) with loop := r.loop.leave index }
  | .ok buffLen =>
    let (timer, r) := r.addTimer r.channel.recvTimeOutMs
    { r with loop := r.loop.start index { buffLen, timer } }

/-- `recv_handler`. -/
def recvHandler (r : Receiving) (index : Nat) (completed : CompletedRead) : Receiving :=
  let r := r.delTimer completed.read.timer
  match completed.bytes with
  | none => { r.raise (.error .recvDataFail) with loop := r.loop.drop index }
  | some bytes =>
    { r.raise (.recv bytes) with loop := r.loop.handle index (some completed.read.buffLen) }

/-- What happens leaves this behind. -/
def after (r : Receiving) : ReceiveLabel → Receiving
  | .established =>
    { r.raise .established with
      channel := { r.channel with bconn := true }, loop := r.loop.enter none }
  | .returned index =>
    match r.loop.running[index]? with
    | none => r
    | some buffLen => r.asyncRecv index buffLen
  | .arrived bytes => { r with stream := r.stream ++ bytes }
  | .completed index count =>
    match r.loop.waiting[index]? with
    | none => r
    | some read =>
      let bytes := (r.stream.drop r.taken).take count
      { r with
        loop := r.loop.complete index { read, bytes := some bytes }, taken := r.taken + count }
  | .failed index =>
    match r.loop.waiting[index]? with
    | none => r
    | some read => { r with loop := r.loop.complete index { read, bytes := none } }
  | .handled index =>
    match r.loop.ready[index]? with
    | none => r
    | some completed => r.recvHandler index completed
  | .closed => { r with channel := { r.channel with bconn := false } }
  | .setRecvBuffSize size => { r with channel := { r.channel with recvBuffSize := size } }
  | .setRecvTimeOut timeOut => { r with channel := { r.channel with recvTimeOutMs := timeOut } }
  | .expired timer =>
    { r with armed := r.armed.erase timer, expired := timer :: r.expired }
  | .timedOut timer =>
    { r.raise (.error .recvDataTimeout) with expired := r.expired.erase timer }

/-- Whether something can happen: a read completes with at least one byte, and with no more than
there are and its buffer holds; `config` refuses a buffer of no size. -/
def Enabled (r : Receiving) : ReceiveLabel → Prop
  | .established | .arrived _ | .closed | .setRecvTimeOut _ => True
  | .returned index => index < r.loop.running.length
  | .completed index count =>
    ∃ read, r.loop.waiting[index]? = some read ∧ 0 < count ∧ count ≤ read.buffLen ∧
      r.taken + count ≤ r.stream.length
  | .failed index => index < r.loop.waiting.length
  | .handled index => index < r.loop.ready.length
  | .setRecvBuffSize size => size ≠ 0
  | .expired timer => timer ∈ r.armed
  | .timedOut timer => timer ∈ r.expired

end Receiving

/-- Everything that can happen to a channel that is new. -/
def receiving (channel : ReceiveChannel) : System Receiving ReceiveLabel where
  init r := r = { channel := { channel with bconn := false } }
  step r label next := r.Enabled label ∧ next = r.after label

end Hnw.Base
