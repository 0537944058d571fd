import Hnw.Service.Connections

/-!
# A channel closed by several threads

`Service::close` in atomic steps. `get_channel` and `del_channel` hold `channel_map_lock_` one after
the other, and the channel's `close` tests `bconn_`, clears it and posts `CLOSED` one after the
other. Any number of threads may be in it for one handle, while the connect completes and callbacks
are installed.
-/

namespace Hnw.Service

open Hnw.Theory

/-- Where a thread is in `Service::close`. -/
inductive ClosePlace where
  /-- It will call `get_channel`. -/
  | called
  /-- It has the channel, and will call `del_channel`. -/
  | found
  /-- It will test whether the channel is connected. -/
  | removed
  /-- It found the channel connected, and will clear that. -/
  | sawConnected
  /-- It will post `CLOSED`. -/
  | cleared
  /-- It returned. -/
  | returned
deriving DecidableEq

/-- One channel and the threads that close it. -/
structure Closers where
  /-- The channel. -/
  channel : Channel
  /-- Whether it is in `channel_map_`. -/
  listed : Bool
  /-- Whether `shutdown` of its SSL stream throws. -/
  shutdownThrows : Bool
  /-- Whether its connect has not completed yet. -/
  connecting : Bool
  /-- The callbacks of the `CLOSED` events that were posted. -/
  posts : List EventCb := []
  /-- The threads, in the order they called. -/
  threads : List ClosePlace := []

/-- What happens to the channel. -/
inductive CloserLabel where
  /-- A thread calls `HnwBase_Close`. -/
  | call
  /-- A thread goes on. -/
  | goesOn (thread : Nat)
  /-- The connect completes. -/
  | connected
  /-- A callback is installed. -/
  | setEventCb (cb : EventCb)

namespace Closers

/-- What a thread does next, and where it is then. -/
def move (c : Closers) : ClosePlace → Closers × ClosePlace
  | .called => (c, if c.listed then .found else .returned)
  | .found => ({ c with listed := false }, .removed)
  | .removed => (c, if c.channel.conn then .sawConnected else .returned)
  | .sawConnected =>
    let closed := { c with channel := { c.channel with conn := false } }
    match c.channel.type with
    | .sslClient => (if c.shutdownThrows then c else closed, .returned)
    | _ => (closed, .cleared)
  | .cleared => ({ c with posts := c.posts ++ [c.channel.eventCb] }, .returned)
  | .returned => (c, .returned)

/-- What happens leaves this behind. -/
def after (c : Closers) : CloserLabel → Closers
  | .call => { c with threads := c.threads ++ [.called] }
  | .goesOn thread =>
    match c.threads[thread]? with
    | none => c
    | some place =>
      let (next, there) := c.move place
      { next with threads := c.threads.set thread there }
  | .connected => { c with channel := { c.channel with conn := true }, connecting := false }
  | .setEventCb cb => { c with channel := { c.channel with eventCb := cb } }

/-- Whether it can happen. -/
def Enabled (c : Closers) : CloserLabel → Prop
  | .goesOn thread => thread < c.threads.length
  | .connected => c.connecting = true
  | .call | .setEventCb _ => True

instance (c : Closers) : ∀ label, Decidable (c.Enabled label)
  | .goesOn _ => inferInstanceAs (Decidable (_ < _))
  | .connected => inferInstanceAs (Decidable (_ = _))
  | .call | .setEventCb _ => inferInstanceAs (Decidable True)

end Closers

/-- Everything that can happen to a channel in the map, which is connected, connecting or neither,
until all threads that close it have returned. -/
def closing : System Closers CloserLabel where
  init c := ∃ channel throws connecting,
    c = { channel, listed := true, shutdownThrows := throws, connecting } ∧
      (connecting = true → channel.conn = false)
  step c label next := c.Enabled label ∧ next = c.after label

end Hnw.Service
