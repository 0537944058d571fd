import Hnw.Base.Receive

/-!
# What a receive loop tells

A channel that was established once has one receive loop: it reads, or its read completed, or it
tells bytes; it ends with an error event and never otherwise. So the bytes it tells are a beginning
of those that arrived, in order, each once. A second establishment would break this: two reads are
told in the order in which threads take their handlers.
-/

namespace Hnw.Base

open Hnw.Theory

/-! ## The events -/

namespace ReceiveEvent

/-- A loop begins. -/
def begins : ReceiveEvent → Bool
  | .established => true
  | _ => false

/-- A loop ends. -/
def ends : ReceiveEvent → Bool
  | .error code => code != .recvDataTimeout
  | _ => false

/-- A timer's handler ran. -/
def timesOut : ReceiveEvent → Bool
  | .error code => code == .recvDataTimeout
  | _ => false

/-- Bytes are told. -/
def tells : ReceiveEvent → Bool
  | .recv _ => true
  | _ => false

/-- The bytes of an event. -/
def bytes : ReceiveEvent → Option Bytes
  | .recv bytes => some bytes
  | _ => none

end ReceiveEvent

/-- The chunks that were told. -/
def Receiving.chunks (r : Receiving) : List Bytes := r.events.filterMap ReceiveEvent.bytes

/-- The bytes of a completed read. -/
def CompletedRead.content (completed : CompletedRead) : Bytes := completed.bytes.getD []

/-! ## What a step does -/

/-- What a step does to the reads, the stream and the events. -/
inductive Moves (r next : Receiving) : Prop where
  /-- A loop begins. -/
  | begins (loop : next.loop = r.loop.enter none)
      (events : next.events = r.events ++ [.established]) (stream : next.stream = r.stream)
      (taken : next.taken = r.taken)
  /-- A handler ends its loop. -/
  | leaves {index : Nat} {code : ReceiveError} (inside : index < r.loop.running.length)
      (ends : code ≠ .recvDataTimeout) (loop : next.loop = r.loop.leave index)
      (events : next.events = r.events ++ [.error code]) (stream : next.stream = r.stream)
      (taken : next.taken = r.taken)
  /-- A handler starts a read. -/
  | starts {index : Nat} {read : PendingRead} (inside : index < r.loop.running.length)
      (loop : next.loop = r.loop.start index read) (events : next.events = r.events)
      (stream : next.stream = r.stream) (taken : next.taken = r.taken)
  /-- Bytes arrive. -/
  | arrives {bytes : Bytes} (loop : next.loop = r.loop) (events : next.events = r.events)
      (stream : next.stream = r.stream ++ bytes) (taken : next.taken = r.taken)
  /-- A read completes. -/
  | completes {index count : Nat} {read : PendingRead}
      (found : r.loop.waiting[index]? = some read) (some_ : 0 < count)
      (fits : count ≤ read.buffLen) (there : r.taken + count ≤ r.stream.length)
      (loop : next.loop = r.loop.complete index
        { read, bytes := some ((r.stream.drop r.taken).take count) })
      (events : next.events = r.events) (stream : next.stream = r.stream)
      (taken : next.taken = r.taken + count)
  /-- A read fails. -/
  | fails {index : Nat} {read : PendingRead} (inside : index < r.loop.waiting.length)
      (loop : next.loop = r.loop.complete index { read, bytes := none })
      (events : next.events = r.events) (stream : next.stream = r.stream)
      (taken : next.taken = r.taken)
  /-- The handler of a failed read ends its loop. -/
  | drops {index : Nat} {completed : CompletedRead}
      (found : r.loop.ready[index]? = some completed) (failed : completed.bytes = none)
      (loop : next.loop = r.loop.drop index)
      (events : next.events = r.events ++ [.error .recvDataFail]) (stream : next.stream = r.stream)
      (taken : next.taken = r.taken)
  /-- The handler of a read tells its bytes. -/
  | tells {index : Nat} {completed : CompletedRead} {bytes : Bytes} {handler : Option Nat}
      (found : r.loop.ready[index]? = some completed) (read : completed.bytes = some bytes)
      (loop : next.loop = r.loop.handle index handler)
      (events : next.events = r.events ++ [.recv bytes]) (stream : next.stream = r.stream)
      (taken : next.taken = r.taken)
  /-- A timer's handler runs. -/
  | timesOut (loop : next.loop = r.loop)
      (events : next.events = r.events ++ [.error .recvDataTimeout])
      (stream : next.stream = r.stream) (taken : next.taken = r.taken)
  /-- Nothing of this changes. -/
  | rests (loop : next.loop = r.loop) (events : next.events = r.events)
      (stream : next.stream = r.stream) (taken : next.taken = r.taken)

/-- No buffer is no time-out. -/
theorem recvBuffer_error {channel : ReceiveChannel} {buffLen : Option Nat} {code : ReceiveError}
    (refused : recvBuffer channel buffLen = .error code) : code ≠ .recvDataTimeout := by
  rintro rfl
  rw [recvBuffer] at refused
  split at refused
  · cases refused
  · split at refused
    · cases refused
    · split at refused
      · cases refused
      · cases refused

/-- A handler that calls `async_recv` starts a read or ends its loop. -/
theorem asyncRecv_moves {r : Receiving} {index : Nat} (inside : index < r.loop.running.length)
    (buffLen : Option Nat) : Moves r (r.asyncRecv index buffLen) := by
  rw [Receiving.asyncRecv]
  cases decided : recvBuffer r.channel buffLen with
  | error code => exact .leaves inside (recvBuffer_error decided) rfl rfl rfl rfl
  | ok size =>
    simp only [Receiving.addTimer]
    split
    · exact .starts inside rfl rfl rfl rfl
    · exact .starts inside rfl rfl rfl rfl

/-- The handler of a read tells its bytes, or ends its loop. -/
theorem recvHandler_moves {r : Receiving} {index : Nat} {completed : CompletedRead}
    (found : r.loop.ready[index]? = some completed) :
    Moves r (r.recvHandler index completed) := by
  have same : ∀ timer, (r.delTimer timer).loop = r.loop ∧ (r.delTimer timer).events = r.events ∧
      (r.delTimer timer).stream = r.stream ∧ (r.delTimer timer).taken = r.taken := by
    intro timer
    cases timer with
    | none => exact ⟨rfl, rfl, rfl, rfl⟩
    | some timer => exact ⟨rfl, rfl, rfl, rfl⟩
  obtain ⟨loop, events, stream, taken⟩ := same completed.read.timer
  rw [Receiving.recvHandler]
  cases result : completed.bytes with
  | none =>
    refine .drops found result ?_ ?_ stream taken
    · show (Receiving.delTimer r _).loop.drop index = _
      rw [loop]
    · show (Receiving.delTimer r _).events ++ _ = _
      rw [events]
  | some bytes =>
    refine .tells found result (?_ : _ = r.loop.handle index (some completed.read.buffLen)) ?_
      stream taken
    · show (Receiving.delTimer r _).loop.handle index _ = _
      rw [loop]
    · show (Receiving.delTimer r _).events ++ _ = _
      rw [events]

/-- Every step is one of these moves. -/
theorem moves_of_enabled {r : Receiving} {label : ReceiveLabel} (enabled : r.Enabled label) :
    Moves r (r.after label) := by
  cases label with
  | established => exact .begins rfl rfl rfl rfl
  | returned index =>
    have inside : index < r.loop.running.length := enabled
    have found := List.getElem?_eq_getElem inside
    simp only [Receiving.after, found]
    exact asyncRecv_moves inside _
  | arrived bytes => exact .arrives rfl rfl rfl rfl
  | completed index count =>
    obtain ⟨read, found, some_, fits, there⟩ := enabled
    simp only [Receiving.after, found]
    exact .completes found some_ fits there rfl rfl rfl rfl
  | failed index =>
    have inside : index < r.loop.waiting.length := enabled
    have found := List.getElem?_eq_getElem inside
    simp only [Receiving.after, found]
    exact .fails inside rfl rfl rfl rfl
  | handled index =>
    have inside : index < r.loop.ready.length := enabled
    have found := List.getElem?_eq_getElem inside
    simp only [Receiving.after, found]
    exact recvHandler_moves found
  | closed => exact .rests rfl rfl rfl rfl
  | setRecvBuffSize size => exact .rests rfl rfl rfl rfl
  | setRecvTimeOut timeOut => exact .rests rfl rfl rfl rfl
  | expired timer => exact .rests rfl rfl rfl rfl
  | timedOut timer => exact .timesOut rfl rfl rfl rfl

/-! ## The chains -/

/-- Every establishment began a chain, and every chain that is over ended with an error event. -/
structure Accounts (r : Receiving) : Prop where
  /-- As many chains as establishments. -/
  chains : r.loop.chains = r.events.countP ReceiveEvent.begins
  /-- As many chains that are over as errors that end one. -/
  ended : r.loop.ended = r.events.countP ReceiveEvent.ends

/-- Every move keeps the account. -/
theorem Accounts.moves {r next : Receiving} (accounts : Accounts r) (moves : Moves r next) :
    Accounts next := by
  obtain ⟨chains, ended⟩ := accounts
  cases moves with
  | begins loop events =>
    constructor
    · rw [loop, events, Loop.enter_chains, chains, List.countP_append]
      rfl
    · rw [loop, events, List.countP_append, ← ended]
      rfl
  | @leaves index code inside ends loop events =>
    constructor
    · rw [loop, events, Loop.leave_chains inside, chains, List.countP_append]
      rfl
    · have one : [ReceiveEvent.error code].countP ReceiveEvent.ends = 1 := by
        rw [List.countP_singleton, ReceiveEvent.ends, if_pos (by simpa using ends)]
      rw [loop, events, List.countP_append, ← ended, one]
      rfl
  | starts inside loop events =>
    exact ⟨by rw [loop, events, Loop.start_chains inside, chains],
      by rw [loop, events, ← ended]; rfl⟩
  | arrives loop events => exact ⟨by rw [loop, events, chains], by rw [loop, events, ended]⟩
  | completes found some_ fits there loop events =>
    obtain ⟨inside, _⟩ := List.getElem?_eq_some_iff.mp found
    exact ⟨by rw [loop, events, Loop.complete_chains inside, chains],
      by rw [loop, events, ← ended]; rfl⟩
  | fails inside loop events =>
    exact ⟨by rw [loop, events, Loop.complete_chains inside, chains],
      by rw [loop, events, ← ended]; rfl⟩
  | drops found failed loop events =>
    obtain ⟨inside, _⟩ := List.getElem?_eq_some_iff.mp found
    constructor
    · rw [loop, events, Loop.drop_chains inside, chains, List.countP_append]
      rfl
    · rw [loop, events, List.countP_append, ← ended]
      rfl
  | tells found read loop events =>
    obtain ⟨inside, _⟩ := List.getElem?_eq_some_iff.mp found
    constructor
    · rw [loop, events, Loop.handle_chains inside, chains, List.countP_append]
      rfl
    · rw [loop, events, List.countP_append, ← ended]
      rfl
  | timesOut loop events =>
    constructor
    · rw [loop, events, chains, List.countP_append]
      rfl
    · rw [loop, events, ended, List.countP_append]
      rfl
  | rests loop events => exact ⟨by rw [loop, events, chains], by rw [loop, events, ended]⟩

/-- The account is right in every reachable state. -/
theorem receiving_accounts {channel : ReceiveChannel} {r : Receiving}
    (reached : (receiving channel).Reachable r) : Accounts r := by
  apply reached.invariant
  · rintro _ rfl
    exact ⟨rfl, rfl⟩
  · rintro first label _ accounts ⟨enabled, rfl⟩
    exact accounts.moves (moves_of_enabled enabled)

/-- In every reachable state the loops that read, wait for a thread or tell bytes, and those that
ended with an error event, are as many as the establishments: a loop is never lost, and no
establishment has two. -/
theorem receiving_alive {channel : ReceiveChannel} {r : Receiving}
    (reached : (receiving channel).Reachable r) :
    r.loop.alive + r.events.countP ReceiveEvent.ends = r.events.countP ReceiveEvent.begins := by
  have accounts := receiving_accounts reached
  have chains := accounts.chains
  rw [Loop.chains, accounts.ended] at chains
  exact chains

/-- A channel with small buffers and a time-out. -/
def bufferedChannel : ReceiveChannel where
  recvBuffSize := 60
  recvTimeOutMs := 5000
  makeShared := true

/-- A read that times out and then completes after all. -/
theorem late_reached (bytes : Bytes) (some_ : 60 ≤ bytes.length) :
    ∃ r, (receiving bufferedChannel).Reachable r ∧ r.stream = bytes ∧
      r.events = [.established, .recv (bytes.take 60), .error .recvDataTimeout] ∧
      r.loop.alive = 1 := by
  have begins : (receiving bufferedChannel).Reachable { channel := bufferedChannel } := .start rfl
  have reads := (begins.step .established ⟨trivial, rfl⟩).step (.returned 0) ⟨Nat.one_pos, rfl⟩
  have late := (reads.step (.arrived bytes) ⟨trivial, rfl⟩).step (.expired 0)
    ⟨List.mem_singleton_self _, rfl⟩
  have fits : 0 + 60 ≤ ([] ++ bytes).length := by
    rw [List.nil_append]
    omega
  have read := late.step (.completed 0 60)
    ⟨⟨_, rfl, by decide, Nat.le_refl _, fits⟩, rfl⟩
  have told := (read.step (.handled 0) ⟨Nat.one_pos, rfl⟩).step (.timedOut 0)
    ⟨List.mem_singleton_self _, rfl⟩
  exact ⟨_, told, rfl, rfl, rfl⟩

/-- The one loop of that channel goes on. -/
theorem receiving_alive_late :
    ∃ r, (receiving bufferedChannel).Reachable r ∧ r.loop.alive = 1 ∧
      r.loop.alive + r.events.countP ReceiveEvent.ends =
        r.events.countP ReceiveEvent.begins := by
  obtain ⟨r, reached, _, _, alive⟩ := late_reached (List.replicate 60 0) (by decide)
  exact ⟨r, reached, alive, receiving_alive reached⟩

/-! ## The bytes -/

/-- The bytes that were told, and behind them those of completed reads, are those that were taken
from the stream. -/
structure InOrder (r : Receiving) : Prop where
  /-- No more bytes were taken than arrived. -/
  there : r.taken ≤ r.stream.length
  /-- The bytes taken were told or are about to be told. -/
  order : r.chunks.flatten ++ r.loop.ready.flatMap CompletedRead.content = r.stream.take r.taken

/-- Of one chain, at most one read is completed. -/
theorem Accounts.ready_le {r : Receiving} (accounts : Accounts r)
    (once : r.events.countP ReceiveEvent.begins ≤ 1) : r.loop.ready.length ≤ 1 := by
  have chains := accounts.chains
  rw [Loop.chains, Loop.alive] at chains
  omega

/-- The chunks behind an event that is raised. -/
theorem chunks_snoc {r next : Receiving} {event : ReceiveEvent}
    (events : next.events = r.events ++ [event]) :
    next.chunks = r.chunks ++ event.bytes.toList := by
  rw [Receiving.chunks, events, List.filterMap_append]
  cases event with
  | established => rfl
  | recv bytes => rfl
  | error code => rfl

/-- A list of at most one element without it. -/
theorem only_of_getElem? {α : Type} {list : List α} {index : Nat} {element : α}
    (found : list[index]? = some element) (one : list.length ≤ 1) :
    list = [element] ∧ index = 0 := by
  obtain ⟨inside, here⟩ := List.getElem?_eq_some_iff.mp found
  obtain rfl : index = 0 := by omega
  obtain ⟨only, rfl⟩ := List.length_eq_one_iff.mp (by omega : list.length = 1)
  exact ⟨by rw [← here]; rfl, rfl⟩

/-- What changes neither the chunks nor the completed reads nor the stream keeps the order. -/
theorem InOrder.same {r next : Receiving} (order : InOrder r) (chunks : next.chunks = r.chunks)
    (ready : next.loop.ready = r.loop.ready) (stream : next.stream = r.stream)
    (taken : next.taken = r.taken) : InOrder next where
  there := by
    rw [stream, taken]
    exact order.there
  order := by
    rw [chunks, ready, stream, taken]
    exact order.order

/-- Every move of a channel that was established once keeps the order. -/
theorem InOrder.moves {r next : Receiving} (order : InOrder r) (accounts : Accounts r)
    (moves : Moves r next) (once : next.events.countP ReceiveEvent.begins ≤ 1) :
    InOrder next := by
  have quiet : ∀ {event : ReceiveEvent}, next.events = r.events ++ [event] →
      event.bytes = none → next.chunks = r.chunks := by
    intro event events none
    rw [chunks_snoc events, none]
    exact List.append_nil _
  have still : next.events = r.events → next.chunks = r.chunks := by
    intro events
    rw [Receiving.chunks, events]
    rfl
  have before : ∀ {event : ReceiveEvent}, next.events = r.events ++ [event] →
      r.events.countP ReceiveEvent.begins ≤ 1 := by
    intro event events
    rw [events, List.countP_append] at once
    omega
  cases moves with
  | begins loop events stream taken =>
    exact order.same (quiet events rfl) (by rw [loop]; rfl) stream taken
  | leaves inside ends loop events stream taken =>
    exact order.same (quiet events rfl) (by rw [loop]; rfl) stream taken
  | starts inside loop events stream taken =>
    exact order.same (still events) (by rw [loop]; rfl) stream taken
  | arrives loop events stream taken =>
    refine ⟨?_, ?_⟩
    · rw [stream, taken, List.length_append]
      exact Nat.le_add_right_of_le order.there
    · rw [still events, loop, stream, taken, List.take_append_of_le_length order.there]
      exact order.order
  | completes found some_ fits there loop events stream taken =>
    refine ⟨by rw [stream, taken]; exact there, ?_⟩
    rw [still events, loop, stream, taken, List.take_add, ← order.order]
    simp only [Loop.complete, List.flatMap_append, List.flatMap_singleton,
      CompletedRead.content, Option.getD_some, List.append_assoc]
  | fails inside loop events stream taken =>
    refine ⟨by rw [stream, taken]; exact order.there, ?_⟩
    rw [still events, loop, stream, taken, ← order.order]
    simp only [Loop.complete, List.flatMap_append, List.flatMap_singleton,
      CompletedRead.content, Option.getD_none, List.append_nil]
  | drops found failed loop events stream taken =>
    obtain ⟨only, rfl⟩ := only_of_getElem? found (accounts.ready_le (before events))
    refine ⟨by rw [stream, taken]; exact order.there, ?_⟩
    rw [quiet events rfl, loop, stream, taken, ← order.order, only]
    simp only [Loop.drop, only, List.eraseIdx_cons_zero, List.flatMap_nil, List.flatMap_singleton,
      CompletedRead.content, failed, Option.getD_none]
  | tells found read loop events stream taken =>
    obtain ⟨only, rfl⟩ := only_of_getElem? found (accounts.ready_le (before events))
    refine ⟨by rw [stream, taken]; exact order.there, ?_⟩
    rw [chunks_snoc events, loop, stream, taken, ← order.order, only]
    simp only [Loop.handle, only, List.eraseIdx_cons_zero, List.flatMap_nil, List.flatMap_singleton,
      CompletedRead.content, read, Option.getD_some, ReceiveEvent.bytes, Option.toList_some,
      List.flatten_append, List.flatten_cons, List.flatten_nil, List.append_nil]
  | timesOut loop events stream taken =>
    exact order.same (quiet events rfl) (by rw [loop]) stream taken
  | rests loop events stream taken =>
    exact order.same (still events) (by rw [loop]) stream taken

/-- Events are only added. -/
theorem Moves.events_grow {r next : Receiving} (moves : Moves r next) :
    ∃ more, next.events = r.events ++ more := by
  cases moves with
  | begins loop events => exact ⟨_, events⟩
  | leaves inside ends loop events => exact ⟨_, events⟩
  | starts inside loop events => exact ⟨[], by rw [events, List.append_nil]⟩
  | arrives loop events => exact ⟨[], by rw [events, List.append_nil]⟩
  | completes found some_ fits there loop events => exact ⟨[], by rw [events, List.append_nil]⟩
  | fails inside loop events => exact ⟨[], by rw [events, List.append_nil]⟩
  | drops found failed loop events => exact ⟨_, events⟩
  | tells found read loop events => exact ⟨_, events⟩
  | timesOut loop events => exact ⟨_, events⟩
  | rests loop events => exact ⟨[], by rw [events, List.append_nil]⟩

/-- The order is right in every reachable state of a channel that was established once. -/
theorem receiving_order {channel : ReceiveChannel} {r : Receiving}
    (reached : (receiving channel).Reachable r)
    (once : r.events.countP ReceiveEvent.begins ≤ 1) : InOrder r := by
  have both : Accounts r ∧ (r.events.countP ReceiveEvent.begins ≤ 1 → InOrder r) := by
    apply reached.invariant
      (P := fun r => Accounts r ∧ (r.events.countP ReceiveEvent.begins ≤ 1 → InOrder r))
    · rintro _ rfl
      exact ⟨⟨rfl, rfl⟩, fun _ => ⟨Nat.le_refl _, rfl⟩⟩
    · rintro first label _ ⟨accounts, order⟩ ⟨enabled, rfl⟩
      have moves := moves_of_enabled enabled
      refine ⟨accounts.moves moves, fun once => ?_⟩
      obtain ⟨more, events⟩ := moves.events_grow
      refine (order ?_).moves accounts moves once
      rw [events, List.countP_append] at once
      omega
  exact both.2 once

/-! ## The timers -/

/-- What the timers are accounted with. -/
structure Timed (r : Receiving) : Prop where
  /-- A timer runs, expired, or its handler ran, and no two of these. -/
  fired : r.events.countP ReceiveEvent.timesOut + r.armed.length + r.expired.length ≤ r.timers
  /-- A timer was made by a handler that returned, behind an establishment or told bytes. -/
  made : r.timers + r.loop.running.length ≤
    r.events.countP ReceiveEvent.begins + r.events.countP ReceiveEvent.tells

/-- How often events of a kind were raised, with one more event. -/
theorem countP_snoc (kind : ReceiveEvent → Bool) (events : List ReceiveEvent)
    (event : ReceiveEvent) : (events ++ [event]).countP kind =
      events.countP kind + if kind event then 1 else 0 := by
  rw [List.countP_append, List.countP_singleton]

/-- `async_recv` makes at most one timer, for the handler that returns. -/
theorem Timed.asyncRecv {r : Receiving} (timed : Timed r) {index : Nat}
    (inside : index < r.loop.running.length) (buffLen : Option Nat) :
    Timed (r.asyncRecv index buffLen) := by
  obtain ⟨fired, made⟩ := timed
  have returned := Loop.eraseIdx_length inside
  rw [Receiving.asyncRecv]
  cases decided : recvBuffer r.channel buffLen with
  | error code =>
    have calm : ReceiveEvent.timesOut (.error code) = false := by
      simpa [ReceiveEvent.timesOut] using recvBuffer_error decided
    constructor
    · show (r.events ++ [_]).countP _ + _ + _ ≤ _
      rw [countP_snoc, calm]
      exact fired
    · show r.timers + (r.loop.running.eraseIdx index).length ≤
        (r.events ++ [_]).countP _ + (r.events ++ [_]).countP _
      rw [countP_snoc, countP_snoc]
      omega
  | ok size =>
    simp only [Receiving.addTimer]
    split
    · refine ⟨fired, ?_⟩
      show r.timers + (r.loop.running.eraseIdx index).length ≤
        r.events.countP ReceiveEvent.begins + r.events.countP ReceiveEvent.tells
      omega
    · constructor
      · show r.events.countP ReceiveEvent.timesOut + (r.armed.length + 1) + r.expired.length ≤
          r.timers + 1
        omega
      · show r.timers + 1 + (r.loop.running.eraseIdx index).length ≤
          r.events.countP ReceiveEvent.begins + r.events.countP ReceiveEvent.tells
        omega

/-- `del_timer` takes at most a timer away. -/
theorem delTimer_spec (r : Receiving) (timer : Option Nat) :
    (r.delTimer timer).armed.length ≤ r.armed.length ∧ (r.delTimer timer).expired = r.expired ∧
      (r.delTimer timer).timers = r.timers ∧ (r.delTimer timer).loop = r.loop ∧
      (r.delTimer timer).events = r.events := by
  cases timer with
  | none => exact ⟨Nat.le_refl _, rfl, rfl, rfl, rfl⟩
  | some timer => exact ⟨List.length_erase_le, rfl, rfl, rfl, rfl⟩

/-- The handler of a read makes no timer. -/
theorem Timed.recvHandler {r : Receiving} (timed : Timed r) (index : Nat)
    (completed : CompletedRead) : Timed (r.recvHandler index completed) := by
  obtain ⟨fired, made⟩ := timed
  obtain ⟨armed, expired, timers, loop, events⟩ := delTimer_spec r completed.read.timer
  rw [Receiving.recvHandler]
  cases completed.bytes with
  | none =>
    constructor
    · show ((Receiving.delTimer r _).events ++ [_]).countP _ +
          (Receiving.delTimer r _).armed.length + (Receiving.delTimer r _).expired.length ≤
        (Receiving.delTimer r _).timers
      rw [countP_snoc, events, expired, timers, if_neg (by decide)]
      omega
    · show (Receiving.delTimer r _).timers + (Receiving.delTimer r _).loop.running.length ≤
        ((Receiving.delTimer r _).events ++ [_]).countP _ +
          ((Receiving.delTimer r _).events ++ [_]).countP _
      rw [countP_snoc, countP_snoc, events, timers, loop]
      omega
  | some bytes =>
    constructor
    · show ((Receiving.delTimer r _).events ++ [_]).countP _ +
          (Receiving.delTimer r _).armed.length + (Receiving.delTimer r _).expired.length ≤
        (Receiving.delTimer r _).timers
      rw [countP_snoc, events, expired, timers, if_neg (by simp [ReceiveEvent.timesOut])]
      omega
    · show (Receiving.delTimer r _).timers + ((Receiving.delTimer r _).loop.running.length + 1) ≤
        ((Receiving.delTimer r _).events ++ [_]).countP _ +
          ((Receiving.delTimer r _).events ++ [_]).countP _
      rw [countP_snoc, countP_snoc, events, timers, loop, ReceiveEvent.tells, if_pos rfl]
      omega

/-- Every step keeps the account of the timers. -/
theorem Timed.step {r : Receiving} {label : ReceiveLabel} (timed : Timed r)
    (enabled : r.Enabled label) : Timed (r.after label) := by
  obtain ⟨fired, made⟩ := id timed
  cases label with
  | established =>
    constructor
    · show (r.events ++ [_]).countP _ + r.armed.length + r.expired.length ≤ r.timers
      rw [countP_snoc]
      exact fired
    · show r.timers + (r.loop.running.length + 1) ≤
        (r.events ++ [_]).countP _ + (r.events ++ [_]).countP _
      rw [countP_snoc, countP_snoc, ReceiveEvent.begins, if_pos rfl]
      omega
  | returned index =>
    have inside : index < r.loop.running.length := enabled
    have found := List.getElem?_eq_getElem inside
    simp only [Receiving.after, found]
    exact timed.asyncRecv inside _
  | arrived bytes => exact ⟨fired, made⟩
  | completed index count =>
    obtain ⟨read, found, _⟩ := enabled
    simp only [Receiving.after, found]
    exact ⟨fired, made⟩
  | failed index =>
    have inside : index < r.loop.waiting.length := enabled
    have found := List.getElem?_eq_getElem inside
    simp only [Receiving.after, found]
    exact ⟨fired, made⟩
  | handled index =>
    have inside : index < r.loop.ready.length := enabled
    have found := List.getElem?_eq_getElem inside
    simp only [Receiving.after, found]
    exact timed.recvHandler index _
  | closed => exact ⟨fired, made⟩
  | setRecvBuffSize size => exact ⟨fired, made⟩
  | setRecvTimeOut timeOut => exact ⟨fired, made⟩
  | expired timer =>
    have running : timer ∈ r.armed := enabled
    have some_ := List.length_pos_of_mem running
    refine ⟨?_, made⟩
    show r.events.countP ReceiveEvent.timesOut + (r.armed.erase timer).length +
      (r.expired.length + 1) ≤ r.timers
    rw [List.length_erase_of_mem running]
    omega
  | timedOut timer =>
    have over_ : timer ∈ r.expired := enabled
    have some_ := List.length_pos_of_mem over_
    constructor
    · show (r.events ++ [_]).countP _ + r.armed.length + (r.expired.erase timer).length ≤ r.timers
      rw [countP_snoc, List.length_erase_of_mem over_, if_pos (by decide)]
      omega
    · show r.timers + r.loop.running.length ≤
        (r.events ++ [_]).countP _ + (r.events ++ [_]).countP _
      rw [countP_snoc, countP_snoc]
      exact made

/-- A channel without a time-out, and a label that sets none. -/
def NoTimeOut : ReceiveLabel → Prop
  | .setRecvTimeOut timeOut => timeOut = 0
  | _ => True

/-- Without a time-out no step makes a timer. -/
theorem noTimer_step {r : Receiving} {label : ReceiveLabel} (none : NoTimeOut label)
    (off : r.channel.recvTimeOutMs = 0) :
    (r.after label).channel.recvTimeOutMs = 0 ∧ (r.after label).timers = r.timers := by
  cases label with
  | returned index =>
    rw [Receiving.after]
    split
    · exact ⟨off, rfl⟩
    · rw [Receiving.asyncRecv]
      split
      · exact ⟨off, rfl⟩
      · simp only [Receiving.addTimer, off, if_true]
        exact ⟨trivial, trivial⟩
  | completed index count =>
    rw [Receiving.after]
    split
    · exact ⟨off, rfl⟩
    · exact ⟨off, rfl⟩
  | failed index =>
    rw [Receiving.after]
    split
    · exact ⟨off, rfl⟩
    · exact ⟨off, rfl⟩
  | handled index =>
    rw [Receiving.after]
    split
    · exact ⟨off, rfl⟩
    · rename_i completed found
      rw [Receiving.recvHandler]
      cases completed.read.timer with
      | none =>
        cases completed.bytes with
        | none => exact ⟨off, rfl⟩
        | some bytes => exact ⟨off, rfl⟩
      | some timer =>
        cases completed.bytes with
        | none => exact ⟨off, rfl⟩
        | some bytes => exact ⟨off, rfl⟩
  | setRecvTimeOut timeOut => exact ⟨none, rfl⟩
  | established => exact ⟨off, rfl⟩
  | arrived bytes => exact ⟨off, rfl⟩
  | closed => exact ⟨off, rfl⟩
  | setRecvBuffSize size => exact ⟨off, rfl⟩
  | expired timer => exact ⟨off, rfl⟩
  | timedOut timer => exact ⟨off, rfl⟩

/-- In every run a channel raises no more time-outs than there are establishments and told chunks:
a read has one timer at most, and a timer fires once. Where the time-out is 0 all along, there is
none. -/
theorem receiving_timeouts {channel : ReceiveChannel} {first last : Receiving}
    {labels : List ReceiveLabel} (begins : (receiving channel).init first)
    (run : (receiving channel).Run first labels last) :
    last.events.countP ReceiveEvent.timesOut ≤
        last.events.countP ReceiveEvent.begins + last.events.countP ReceiveEvent.tells ∧
      (channel.recvTimeOutMs = 0 → (∀ label ∈ labels, NoTimeOut label) →
        last.events.countP ReceiveEvent.timesOut = 0) := by
  have fresh : Timed first := by
    rw [begins]
    exact ⟨Nat.le_refl _, Nat.le_refl _⟩
  have timed : Timed last := by
    apply run.invariant ?_ fresh
    rintro before label _ timed _ ⟨enabled, rfl⟩
    exact timed.step enabled
  obtain ⟨fired, made⟩ := timed
  refine ⟨by omega, fun off none => ?_⟩
  have start : first.channel.recvTimeOutMs = 0 ∧ first.timers = 0 := by
    rw [begins]
    exact ⟨off, rfl⟩
  have never : last.channel.recvTimeOutMs = 0 ∧ last.timers = 0 := by
    clear begins fresh fired made
    induction run with
    | nil => exact start
    | @cons first middle last label labels _ step _ ih =>
      obtain ⟨_, rfl⟩ := step
      obtain ⟨still, same⟩ := noTimer_step (none label List.mem_cons_self) start.1
      exact ih (fun later member => none later (List.mem_cons_of_mem _ member))
        ⟨still, same.trans start.2⟩
  omega

/-- A channel with a buffer that waits too long raises one time-out. -/
theorem receiving_timeouts_late :
    ∃ r, (receiving bufferedChannel).Reachable r ∧
      r.events.countP ReceiveEvent.timesOut = 1 ∧ r.events.countP ReceiveEvent.timesOut ≤
        r.events.countP ReceiveEvent.begins + r.events.countP ReceiveEvent.tells := by
  obtain ⟨r, ⟨first, labels, begins, run⟩, _, events, _⟩ :=
    late_reached (List.replicate 60 0) (by decide)
  refine ⟨r, ⟨first, labels, begins, run⟩, ?_, (receiving_timeouts begins run).1⟩
  rw [events]
  rfl

end Hnw.Base
