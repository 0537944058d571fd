import Hnw.Util.Bytes

/-!
# Sending over a stream channel

The two overloads of `ASIOClientChannel::async_send`. A write is handed to the transport, which
answers later with the number of bytes it took; the handler then goes on. What the program and
the transport do is recorded as events. Timers only raise error events of their own and are left
out.
-/

namespace Hnw.Base

/-- The error codes these functions raise. -/
inductive SendError where
  | channelNotConn
  | allocFail
  | sendDataFail
deriving DecidableEq, Repr

/-- What happens while a channel sends. -/
inductive SendEvent where
  /-- The transport put these bytes on the wire. -/
  | wrote (bytes : Bytes)
  /-- A write was offered more bytes than its buffer has: undefined behaviour. -/
  | outOfBounds
  /-- `EVENT_SEND_CB`. -/
  | sendData
  /-- `EVENT_ERR_CB`. -/
  | error (code : SendError)
  /-- The caller's `complete` ran. -/
  | complete
deriving DecidableEq, Repr

/-- `ASIOClientChannel`: the fields `async_send` reads. -/
structure ClientChannel where
  /-- `bconn_`. -/
  bconn : Bool
  /-- `send_buff_size_`. -/
  sendBuffSize : Nat
  /-- `make_shared_` is set. -/
  makeShared : Bool

/-- The function a finished send calls. -/
inductive Complete where
  /-- The caller's `complete`. -/
  | call
  /-- The lambda of the callback overload, with its buffer and what `cb` has left to give. -/
  | next (buff : Bytes) (buffLen : Nat) (cb : List Bytes)

/-- A write the transport has not answered, as its handler captured it. -/
structure PendingWrite where
  /-- The buffer, whole. -/
  buff : Bytes
  /-- How many bytes were offered. -/
  buffLen : Nat
  /-- `beg`. -/
  beg : Nat
  /-- `complete`, where there is one. -/
  complete : Option Complete

/-- Events so far and the write that waits for an answer. -/
abbrev Sending := List SendEvent × Option PendingWrite

/-- `int now_len = buff_len - s`, passed on as a `size_t`. -/
def nowLen (buffLen s : Nat) : Nat :=
  let bits := (buffLen - s) % 2 ^ 32
  if bits < 2 ^ 31 then bits else 2 ^ 64 - 2 ^ 32 + bits

/-- `async_send(buff, buff_len, beg, complete)` after its first test; `write` offers the buffer
from its beginning. -/
def asyncSendData (channel : ClientChannel) (buff : Bytes) (buffLen beg : Nat)
    (complete : Option Complete) : Sending :=
  if channel.bconn = false then ([.error .channelNotConn], none)
  else if buff.length < buffLen then ([.outOfBounds], none)
  else ([], some { buff, buffLen, beg, complete })

/-- `async_send(buff, buff_len, cb)`; `cb` gives the listed chunks, one a call, and then 0. A
chunk is written over the beginning of the buffer. -/
def asyncSendCb (channel : ClientChannel) (buff : Option Bytes) (buffLen : Nat)
    (cb : List Bytes) : Sending :=
  if channel.bconn = false then ([.error .channelNotConn], none)
  else
    let fresh := buff.isNone || buffLen != channel.sendBuffSize
    if fresh && !channel.makeShared then ([.error .allocFail], none)
    else
      let block := if fresh then List.replicate channel.sendBuffSize 0 else buff.getD []
      let blockLen := if fresh then channel.sendBuffSize else buffLen
      match cb with
      | [] => ([], none)
      | chunk :: later =>
        let block := chunk ++ block.drop chunk.length
        if chunk.length = 0 then ([], none)
        else asyncSendData channel block chunk.length 0 (some (.next block blockLen later))

/-- `if (complete) complete();` -/
def callComplete (channel : ClientChannel) : Option Complete → Sending
  | none => ([], none)
  | some .call => ([.complete], none)
  | some (.next buff buffLen cb) => asyncSendCb channel (some buff) buffLen cb

/-- `async_send(buff, buff_len, beg, complete)`. -/
def asyncSend (channel : ClientChannel) (buff : Option Bytes) (buffLen beg : Nat)
    (complete : Option Complete) : Sending :=
  match buff with
  | none => (.sendData :: (callComplete channel complete).1, (callComplete channel complete).2)
  | some block =>
    if buffLen = 0 then
      (.sendData :: (callComplete channel complete).1, (callComplete channel complete).2)
    else asyncSendData channel block buffLen beg complete

/-- `send_handler`; `s` is the number of bytes taken, none where the write failed. -/
def sendHandler (channel : ClientChannel) (write : PendingWrite) (s : Option Nat) : Sending :=
  match s with
  | none => ([.error .sendDataFail], none)
  | some s =>
    if write.buffLen ≤ s then callComplete channel write.complete
    else
      asyncSend channel (some write.buff) (nowLen write.buffLen s) (write.beg + s) write.complete

/-- The transport takes the first `s` offered bytes of a pending write and runs its handler. -/
def written (channel : ClientChannel) (write : PendingWrite) (s : Nat) : Sending :=
  let after := sendHandler channel write (some s)
  (.wrote (write.buff.take s) :: after.1, after.2)

/-- What happens while the transport answers one write after another. -/
def answered (channel : ClientChannel) : Option PendingWrite → List Nat → List SendEvent
  | some write, s :: answers =>
    (written channel write s).1 ++ answered channel (written channel write s).2 answers
  | _, _ => []

/-- Every answer takes at least one byte and at most what was offered, and the last one leaves
no write pending. -/
def Accepts (channel : ClientChannel) : Option PendingWrite → List Nat → Prop
  | none, answers => answers = []
  | some _, [] => False
  | some write, s :: answers =>
    (1 ≤ s ∧ s ≤ write.buffLen) ∧ Accepts channel (written channel write s).2 answers

instance decidableAccepts (channel : ClientChannel) :
    (pending : Option PendingWrite) → (answers : List Nat) →
      Decidable (Accepts channel pending answers)
  | none, [] => .isTrue rfl
  | none, _ :: _ => .isFalse (List.cons_ne_nil _ _)
  | some _, [] => .isFalse id
  | some write, s :: answers =>
    have := decidableAccepts channel (written channel write s).2 answers
    inferInstanceAs (Decidable ((1 ≤ s ∧ s ≤ write.buffLen) ∧
      Accepts channel (written channel write s).2 answers))

/-- Everything that happens in a send whose writes get these answers. -/
def events (channel : ClientChannel) (sending : Sending) (answers : List Nat) : List SendEvent :=
  sending.1 ++ answered channel sending.2 answers

/-- What the events put on the wire. -/
def wire (events : List SendEvent) : Bytes :=
  events.flatMap fun
    | .wrote bytes => bytes
    | _ => []

end Hnw.Base
