import Hnw.Session.Send

/-!
# What a session still has to send

At every moment a session owes the rest of the message it is sending and the messages of its
queue. A call of `on_read` pays some bytes of that, and the send machines of both types of
session keep the account straight.
-/

namespace Hnw.Http

open Hnw.Util Hnw.Util.UnorderedMultimap Hnw.Theory

/-! ## Bodies that are read -/

/-- What a body still has to be read. -/
def Body.rest (fs : FileSystem) : Body → Bytes
  | .raw body => body.body.drop body.readPos
  | .file body =>
    (((fs body.fileName).map File.bytes).getD []).extract (body.readPos + body.start)
      (body.stop + 1)
  | .empty => []

/-- A body whose file, where it has one, is there with the size the body knows. -/
def Body.Readable (fs : FileSystem) : Body → Prop
  | .file body => ∃ file, fs body.fileName = some file ∧ file.bytes.length = body.size
  | _ => True

/-- A fresh body has everything to be read. -/
theorem Body.Fresh.readable {fs : FileSystem} {body : Body} (fresh : body.Fresh fs) :
    body.Readable fs ∧ body.rest fs = body.content fs := by
  cases body with
  | raw body =>
    have start : body.readPos = 0 := fresh
    exact ⟨trivial, by simp only [rest, start, List.drop_zero, content]⟩
  | file body =>
    have start : body.readPos = 0 := fresh.1
    exact ⟨fresh.2, by simp only [rest, start, Nat.zero_add, content]⟩
  | empty => exact fresh.elim

/-- How many bytes a file body reads. -/
theorem FileBody.readSize_eq (body : FileBody) (buffSize : Nat) :
    body.readSize buffSize = min buffSize (body.stop + 1 - (body.readPos + body.start)) := by
  unfold readSize
  simp only
  split
  · omega
  · split <;> omega

/-- A read takes the beginning of the rest of a body and leaves the end. -/
theorem Body.readBody_rest {fs : FileSystem} {body : Body} (readable : body.Readable fs)
    (buffSize : Nat) :
    (body.readBody fs buffSize).1 = (body.rest fs).take buffSize ∧
      (body.readBody fs buffSize).2.rest fs = (body.rest fs).drop buffSize ∧
      (body.readBody fs buffSize).2.Readable fs := by
  cases body with
  | raw body =>
    refine ⟨rfl, ?_, trivial⟩
    show body.body.drop (body.readPos + ((body.body.drop body.readPos).take buffSize).length) =
      (body.body.drop body.readPos).drop buffSize
    rw [← List.drop_drop, List.length_take]
    by_cases short : (body.body.drop body.readPos).length ≤ buffSize
    · rw [Nat.min_eq_right short, List.drop_length, List.drop_eq_nil_of_le short]
    · rw [Nat.min_eq_left (by omega)]
  | file body =>
    obtain ⟨file, found, size⟩ := readable
    simp only [readBody, FileBody.readBody, rest, found, Option.map_some, Option.getD_some,
      FileBody.readSize_eq, List.extract_eq_take_drop]
    refine ⟨?_, ?_, file, found, size⟩
    · rw [List.take_take]
    · rw [List.drop_take, List.drop_drop]
      by_cases short : body.stop + 1 - (body.readPos + body.start) ≤ buffSize
      · rw [Nat.min_eq_right short]
        have none : body.stop + 1 - (body.readPos + (body.stop + 1 -
            (body.readPos + body.start)) + body.start) = 0 := by omega
        rw [none, Nat.sub_eq_zero_of_le short, List.take_zero, List.take_zero]
      · have position : body.readPos + buffSize + body.start =
            body.readPos + body.start + buffSize := by omega
        rw [Nat.min_eq_left (by omega), position, Nat.sub_add_eq]
  | empty => exact ⟨List.take_nil.symm, List.drop_nil.symm, trivial⟩

/-- A read takes bytes off the rest of a body, and takes none only where there is no rest. -/
theorem Body.readBody_spec {fs : FileSystem} {body : Body} (readable : body.Readable fs)
    {buffSize : Nat} (room : 0 < buffSize) :
    (body.readBody fs buffSize).1 ++ (body.readBody fs buffSize).2.rest fs = body.rest fs ∧
      ((body.readBody fs buffSize).1 = [] → body.rest fs = []) ∧
      (body.readBody fs buffSize).2.Readable fs := by
  obtain ⟨taken, left, kept⟩ := Body.readBody_rest readable buffSize
  refine ⟨by rw [taken, left, List.take_append_drop], fun nothing => ?_, kept⟩
  rw [taken, List.take_eq_nil_iff] at nothing
  exact nothing.resolve_left (by omega)

namespace Session

variable {ι σ : Type} [UnorderedMultimap σ] {fs : FileSystem} {buffSize : Nat}

/-! ## One message -/

/-- What is left of a body that may be null. -/
def bodyRest (fs : FileSystem) (message : Message ι σ) : Bytes :=
  (message.body.map (Body.rest fs)).getD []

/-- What is left of a message. -/
def stagesRest (fs : FileSystem) (status : EnSendStatus) (message : Message ι σ)
    (cache : Bytes) : Bytes :=
  match status with
  | .line => cache ++ (headString message.head ++ crlf ++ bodyRest fs message)
  | .head => cache ++ bodyRest fs message
  | .body => bodyRest fs message

/-- A message with a body that can be read. -/
def Sendable (fs : FileSystem) (message : Message ι σ) : Prop :=
  ∃ body, message.body = some body ∧ body.Readable fs

/-- What the stages did: they returned bytes of what was left, or nothing was left. -/
def Pays (fs : FileSystem) (owed : Bytes) : Emitted ι σ → Prop
  | .bytes bytes status => bytes ≠ [] ∧ ∃ message, status.message = some message ∧
      Sendable fs message ∧ bytes ++ stagesRest fs status.status message status.cache = owed
  | .bodyEnd => owed = []

/-- What goes into the buffer and what stays. -/
theorem moveCache_eq (buffSize : Nat) (cache : Bytes) :
    moveCache buffSize cache = (cache.take buffSize, cache.drop buffSize) := by
  by_cases short : cache.length ≤ buffSize
  · simp only [moveCache, if_pos short, List.take_length, List.drop_length,
      List.take_of_length_le short, List.drop_eq_nil_of_le short]
  · simp only [moveCache, if_neg short]

/-- The last stage. -/
theorem sendBody_pays {message : Message ι σ} (sendable : Sendable fs message)
    (room : 0 < buffSize) (cache : Bytes) :
    ∃ emitted, sendBody fs buffSize message cache = some emitted ∧
      Pays fs (bodyRest fs message) emitted := by
  obtain ⟨body, present, readable⟩ := sendable
  obtain ⟨paid, finished, kept⟩ := Body.readBody_spec readable room
  have owed : bodyRest fs message = body.rest fs := by rw [bodyRest, present]; rfl
  rw [owed, sendBody, present, Option.map_some]
  by_cases nothing : (body.readBody fs buffSize).1.length = 0
  · refine ⟨.bodyEnd, ?_, finished (List.length_eq_zero_iff.mp nothing)⟩
    simp only [if_pos nothing]
  · refine ⟨.bytes (body.readBody fs buffSize).1
      ⟨.body, some { message with body := some (body.readBody fs buffSize).2 }, cache⟩, ?_, ?_⟩
    · simp only [if_neg nothing]
    · exact ⟨fun empty => nothing (by rw [empty]; rfl), _, rfl, ⟨_, rfl, kept⟩, paid⟩

/-- A stage with something in its cache. -/
theorem cache_pays {message : Message ι σ} (sendable : Sendable fs message)
    (room : 0 < buffSize) {cache : Bytes} (some_ : cache ≠ []) (stage : EnSendStatus)
    {behind : Bytes}
    (owes : ∀ cache, stagesRest fs stage message cache = cache ++ behind) :
    Pays fs (stagesRest fs stage message cache)
      (.bytes (moveCache buffSize cache).1
        ⟨stage, some message, (moveCache buffSize cache).2⟩) := by
  rw [moveCache_eq]
  refine ⟨?_, message, rfl, sendable, ?_⟩
  · rw [Ne, List.take_eq_nil_iff, not_or]
    exact ⟨by omega, some_⟩
  · simp only [owes]
    rw [← List.append_assoc, List.take_append_drop]

/-- The stage before the last. -/
theorem sendHead_pays {message : Message ι σ} (sendable : Sendable fs message)
    (room : 0 < buffSize) (cache : Bytes) :
    ∃ emitted, sendHead fs buffSize message cache = some emitted ∧
      Pays fs (stagesRest fs .head message cache) emitted := by
  rw [sendHead]
  split
  · next empty =>
    rw [stagesRest, empty, List.nil_append]
    exact sendBody_pays sendable room []
  · next some_ => exact ⟨_, rfl, cache_pays sendable room some_ .head fun _ => rfl⟩

/-- Every stage returns bytes of what is left, or nothing is left. -/
theorem sendStages_pays {message : Message ι σ} (sendable : Sendable fs message)
    (room : 0 < buffSize) (status : EnSendStatus) (cache : Bytes) :
    ∃ emitted, sendStages fs buffSize status message cache = some emitted ∧
      Pays fs (stagesRest fs status message cache) emitted := by
  cases status with
  | line =>
    rw [sendStages, sendLine]
    split
    · next empty =>
      rw [stagesRest, empty, List.nil_append]
      exact sendHead_pays sendable room _
    · next some_ => exact ⟨_, rfl, cache_pays sendable room some_ .line fun _ => rfl⟩
  | head => exact sendHead_pays sendable room cache
  | body => exact sendBody_pays sendable room cache

/-! ## The whole account -/

/-- A message as it goes out. -/
def messageWire (fs : FileSystem) (string : ι → Bytes) (message : Message ι σ) : Bytes :=
  string message.line ++ crlf ++
    (headString message.head ++ crlf ++ (message.body.map (Body.content fs)).getD [])

/-- What makes a message ready to go out keeps its line and its body. -/
def Prepares (preSend : Message ι σ → Option (Message ι σ × Bool)) : Prop :=
  ∀ message body, message.body = some body → ∃ ready close,
    preSend message = some (ready, close) ∧ ready.line = message.line ∧ ready.body = some body

/-- A queued message as it will go out. -/
def queuedWire (fs : FileSystem) (preSend : Message ι σ → Option (Message ι σ × Bool))
    (string : ι → Bytes) (message : Message ι σ) : Bytes :=
  match preSend message with
  | none => []
  | some (ready, _) => messageWire fs string ready

/-- What is left of the current message. -/
def currentRest (fs : FileSystem) (status : SendStatus ι σ) : Bytes :=
  match status.message with
  | none => []
  | some message => stagesRest fs status.status message status.cache

/-- What a session still has to send. -/
def owed (fs : FileSystem) (preSend : Message ι σ → Option (Message ι σ × Bool))
    (string : ι → Bytes) (s : Session ι σ) : Bytes :=
  currentRest fs s.sendStatus ++ s.queue.flatMap (queuedWire fs preSend string)

/-- A session whose messages can be sent. -/
structure Ready (fs : FileSystem) (s : Session ι σ) : Prop where
  /-- The current one can be read on. -/
  current : ∀ message, s.sendStatus.message = some message → Sendable fs message
  /-- The others are fresh. -/
  queued : ∀ message ∈ s.queue, ∃ body, message.body = some body ∧ body.Fresh fs

variable {preSend : Message ι σ → Option (Message ι σ × Bool)} {string : ι → Bytes}
  {s : Session ι σ}

/-- What taking the next message leads to: there is none, or one is current, and the account is
the same. -/
theorem takeNext_spec (prepares : Prepares preSend) (ready : Ready fs s) :
    (takeNext preSend string s = some none ∧ s.sendStatus.message = none ∧ s.queue = []) ∨
      ∃ next message, takeNext preSend string s = some (some (next, message)) ∧
        next.sendStatus.message = some message ∧ Ready fs next ∧
        owed fs preSend string next = owed fs preSend string s ∧
        next.sendFlag = s.sendFlag ∧ next.connectFlag = s.connectFlag ∧
        next.sessionHead = s.sessionHead ∧
        (next = s ∨ currentRest fs next.sendStatus ≠ []) := by
  unfold takeNext
  cases current : s.sendStatus.message with
  | some message => exact .inr ⟨s, message, rfl, current, ready, rfl, rfl, rfl, rfl, .inl rfl⟩
  | none =>
    cases waiting : s.queue with
    | nil => exact .inl ⟨rfl, rfl, rfl⟩
    | cons first queue =>
      obtain ⟨body, present, fresh⟩ := ready.queued first (by simp [waiting])
      obtain ⟨made, close, prepared, line, kept⟩ := prepares first body present
      obtain ⟨readable, rest⟩ := fresh.readable
      right
      simp only [prepared, Option.map_some]
      refine ⟨_, made, rfl, rfl, ⟨?_, ?_⟩, ?_, rfl, rfl, rfl, .inr ?_⟩
      · intro message same
        cases same
        exact ⟨body, kept, readable⟩
      · exact fun message member => ready.queued message (by simp [waiting, member])
      · simp only [owed, currentRest, current, waiting, List.flatMap_cons, queuedWire, prepared,
          messageWire, stagesRest, bodyRest, kept, Option.map_some, Option.getD_some, rest,
          List.nil_append, List.append_assoc]
      · simp [currentRest, stagesRest, crlf]

/-- A message with a body gets its length. -/
theorem addLength_spec {message : Message ι σ} {body : Body} (present : message.body = some body) :
    ∃ ready, addLength message = some ready ∧ ready.line = message.line ∧
      ready.body = some body := by
  unfold addLength
  split
  · rw [present]
    exact ⟨_, rfl, rfl, rfl⟩
  · exact ⟨message, rfl, rfl, present⟩

/-- What a call of `on_read` does to the account of a session. -/
structure PaysOff (fs : FileSystem) (preSend : Message ι σ → Option (Message ι σ × Bool))
    (string : ι → Bytes) (s : Session ι σ) (read : Read ι σ) : Prop where
  /-- The messages can still be sent. -/
  ready : Ready fs read.session
  /-- The bytes are the beginning of what was owed. -/
  pays : read.bytes ++ owed fs preSend string read.session = owed fs preSend string s
  /-- The session stays connected or not. -/
  connectFlag : read.session.connectFlag = s.connectFlag
  /-- The session's head stays. -/
  sessionHead : read.session.sessionHead = s.sessionHead
  /-- Where bytes are returned, the chain goes on. -/
  goesOn : read.bytes ≠ [] → read.session.sendFlag = s.sendFlag ∧ read.close = false
  /-- Where it returns 0, nothing is owed and the flag is down. -/
  ends : read.bytes = [] → owed fs preSend string s = [] ∧ read.session.sendFlag = false ∧
    read.session.sendStatus.message = none ∧ read.session.queue = []

/-- Nothing is left. -/
theorem readDrained_paysOff {preSend : Message ι σ → Option (Message ι σ × Bool)}
    {string : ι → Bytes} {s : Session ι σ} (ready : Ready fs s)
    (idle : s.sendStatus.message = none) (empty : s.queue = []) :
    PaysOff fs preSend string s (readDrained s) where
  ready := ⟨ready.current, ready.queued⟩
  pays := rfl
  connectFlag := rfl
  sessionHead := rfl
  goesOn some_ := absurd rfl some_
  ends _ := ⟨by simp [owed, currentRest, idle, empty], rfl, idle, empty⟩

/-- Bytes of the current message are returned. -/
theorem bytes_paysOff {preSend : Message ι σ → Option (Message ι σ × Bool)}
    {string : ι → Bytes} {s : Session ι σ} (ready : Ready fs s) {message : Message ι σ}
    (current : s.sendStatus.message = some message) {bytes : Bytes} {status : SendStatus ι σ}
    (pays : Pays fs (stagesRest fs s.sendStatus.status message s.sendStatus.cache)
      (.bytes bytes status)) :
    PaysOff fs preSend string s ⟨bytes, false, { s with sendStatus := status }⟩ := by
  obtain ⟨some_, next, present, sendable, paid⟩ := pays
  refine ⟨⟨?_, ready.queued⟩, ?_, rfl, rfl, fun _ => ⟨rfl, rfl⟩,
    fun nothing => absurd nothing some_⟩
  · intro other same
    have : next = other := by simpa [present] using same
    exact this ▸ sendable
  · simp only [owed, currentRest, current, present]
    rw [← paid, List.append_assoc]

/-- A session after a message that is over. -/
theorem messageEnd_owed {preSend : Message ι σ → Option (Message ι σ × Bool)}
    {string : ι → Bytes} {s : Session ι σ} (finished : currentRest fs s.sendStatus = []) :
    owed fs preSend string (messageEnd s) = owed fs preSend string s := by
  rw [owed, owed, finished]
  rfl

omit [UnorderedMultimap σ] in
/-- A session after a message that is over can send the others. -/
theorem messageEnd_ready {s : Session ι σ} (ready : Ready fs s) : Ready fs (messageEnd s) :=
  ⟨fun _ current => (nomatch current), ready.queued⟩

/-- What was paid on an account that is the same was paid on this one. -/
theorem PaysOff.of_same {preSend : Message ι σ → Option (Message ι σ × Bool)} {string : ι → Bytes}
    {s next : Session ι σ} {read : Read ι σ} (paysOff : PaysOff fs preSend string next read)
    (same : owed fs preSend string next = owed fs preSend string s)
    (sendFlag : next.sendFlag = s.sendFlag) (connectFlag : next.connectFlag = s.connectFlag)
    (sessionHead : next.sessionHead = s.sessionHead) : PaysOff fs preSend string s read where
  ready := paysOff.ready
  pays := paysOff.pays.trans same
  connectFlag := paysOff.connectFlag.trans connectFlag
  sessionHead := paysOff.sessionHead.trans sessionHead
  goesOn some_ := ⟨(paysOff.goesOn some_).1.trans sendFlag, (paysOff.goesOn some_).2⟩
  ends nothing := ⟨same ▸ (paysOff.ends nothing).1, (paysOff.ends nothing).2⟩

/-! ## The transport -/

omit [UnorderedMultimap σ] in
/-- `start_send` changes `send_flag_` alone. -/
theorem startSend_eq (s : Session ι σ) :
    (startSend s).1 = { s with sendFlag := s.sendFlag || s.connectFlag } ∧
      (startSend s).2 = (!s.sendFlag && s.connectFlag) := by
  obtain ⟨queue, status, sendFlag, connectFlag, close, head⟩ := s
  cases sendFlag <;> cases connectFlag <;> exact ⟨rfl, rfl⟩

end Session

/-- The account of a session and the chains of its transport. -/
structure Account {ι σ : Type} [UnorderedMultimap σ] (fs : FileSystem)
    (preSend : Message ι σ → Option (Message ι σ × Bool)) (string : ι → Bytes) (sessionHead : σ)
    (t : Transport ι σ) : Prop where
  /-- Its messages can be sent. -/
  ready : Session.Ready fs t.session
  /-- The session's head is the one it was made with. -/
  head : t.session.sessionHead = sessionHead
  /-- What was returned and what is owed are the messages in the order they were sent. -/
  balance : t.emitted ++ Session.owed fs preSend string t.session =
    t.sent.flatMap (Session.queuedWire fs preSend string)
  /-- A chain is active exactly while the flag is set. -/
  chains : t.chains = if t.session.sendFlag then 1 else 0

namespace Account

variable {ι σ : Type} [UnorderedMultimap σ] {fs : FileSystem}
  {preSend : Message ι σ → Option (Message ι σ × Bool)} {string : ι → Bytes} {sessionHead : σ}
  {t : Transport ι σ}

/-- A new session owes nothing. -/
theorem fresh : Account fs preSend string sessionHead (.fresh sessionHead) where
  ready := ⟨nofun, nofun⟩
  head := rfl
  balance := rfl
  chains := rfl

/-- Where a chain is active the flag is set. -/
theorem active_up (account : Account fs preSend string sessionHead t) (active : 0 < t.chains) :
    t.session.sendFlag = true := by
  by_contra down
  have chains := account.chains
  rw [if_neg down] at chains
  omega

/-- Where no chain is active the flag is down. -/
theorem still_down (account : Account fs preSend string sessionHead t) (still : t.chains = 0) :
    t.session.sendFlag = false := by
  by_contra up
  have chains := account.chains
  rw [if_pos (by simpa using up)] at chains
  omega

/-- Starting to send keeps the account. -/
theorem handOver_startSend (account : Account fs preSend string sessionHead t) :
    Account fs preSend string sessionHead (t.handOver t.session.startSend) := by
  obtain ⟨session, started⟩ := Session.startSend_eq t.session
  have chains := account.chains
  refine ⟨?_, ?_, ?_, ?_⟩
  · rw [Transport.handOver, session]
    exact ⟨account.ready.current, account.ready.queued⟩
  · rw [Transport.handOver, session]
    exact account.head
  · rw [Transport.handOver, session]
    exact account.balance
  · rw [Transport.handOver, session, started]
    simp only [chains]
    cases t.session.sendFlag <;> cases t.session.connectFlag <;> rfl

/-- Sending a message adds it to the account. -/
theorem send (account : Account fs preSend string sessionHead t) {message : Message ι σ}
    {body : Body} (present : message.body = some body) (unread : body.Fresh fs) :
    Account fs preSend string sessionHead
      { t.handOver (t.session.send message) with sent := t.sent ++ [message] } := by
  have queued : Account fs preSend string sessionHead
      { t with session := { t.session with queue := t.session.queue ++ [message] },
               sent := t.sent ++ [message] } := by
    refine ⟨⟨account.ready.current, ?_⟩, account.head, ?_, account.chains⟩
    · intro other member
      rcases List.mem_append.mp member with early | late
      · exact account.ready.queued other early
      · rw [List.mem_singleton.mp late]
        exact ⟨body, present, unread⟩
    · have balance := account.balance
      simp only [Session.owed] at balance ⊢
      rw [List.flatMap_append, List.flatMap_append, ← balance]
      simp only [List.append_assoc]
  exact queued.handOver_startSend

/-- The connection keeps the account. -/
theorem connect (account : Account fs preSend string sessionHead t) :
    Account fs preSend string sessionHead (t.handOver t.session.onConnectEstablish) := by
  have connected : Account fs preSend string sessionHead
      { t with session := { t.session with connectFlag := true } } :=
    ⟨⟨account.ready.current, account.ready.queued⟩, account.head, account.balance, account.chains⟩
  exact connected.handOver_startSend

/-- A read that pays off keeps the account. -/
theorem read (account : Account fs preSend string sessionHead t) {read : Read ι σ}
    (paysOff : Session.PaysOff fs preSend string t.session read) :
    Account fs preSend string sessionHead (t.afterRead read) := by
  have chains := account.chains
  refine ⟨paysOff.ready, paysOff.sessionHead.trans account.head, ?_, ?_⟩
  · rw [Transport.afterRead]
    simp only [List.append_assoc]
    rw [paysOff.pays]
    exact account.balance
  · by_cases nothing : read.bytes.length = 0
    · have down := (paysOff.ends (List.length_eq_zero_iff.mp nothing)).2.1
      simp only [Transport.afterRead, if_pos nothing, down, Bool.false_eq_true, if_false, chains]
      cases t.session.sendFlag <;> rfl
    · have up := (paysOff.goesOn fun empty => nothing (by rw [empty]; rfl)).1
      simp only [Transport.afterRead, if_neg nothing, up, chains]

end Account

end Hnw.Http
