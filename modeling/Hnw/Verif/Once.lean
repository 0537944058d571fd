import Hnw.Verif.Conversation

/-!
# A client session sends one request

At the end of a request `on_read_request` returns 0, which ends the transport's chain of reads, and
leaves `send_flag_` set, so that no later call starts another chain. Whatever happens to a client
session, it puts out nothing but its first request; and the application of a server is handed one
request over a connection.
-/

namespace Hnw.Http

open Hnw.Util Hnw.Util.UnorderedMultimap Hnw.Parser Hnw.Theory

variable {σ : Type} [UnorderedMultimap σ] {fs : FileSystem}

namespace Session

variable {s : Session RequestLine σ} {read : Read RequestLine σ} {buffSize : Nat}

/-- Bytes of a request are returned, and what is left of it is current. -/
structure Returns (fs : FileSystem) (s : Session RequestLine σ) (read : Read RequestLine σ)
    (queue : List (Request σ)) (rest : Bytes) : Prop where
  /-- There are bytes. -/
  some_ : read.bytes ≠ []
  /-- The others wait. -/
  queue : read.session.queue = queue
  /-- `send_flag_` stays. -/
  flag : read.session.sendFlag = s.sendFlag
  /-- The request is current. -/
  current : read.session.sendStatus.message ≠ none
  /-- The bytes are the beginning of what was left. -/
  pays : read.bytes ++ currentRest fs read.session.sendStatus = rest

/-- What a call of `on_read_request` does to the queue and to the current request. -/
inductive ReadCase (fs : FileSystem) (s : Session RequestLine σ) (read : Read RequestLine σ) :
    Prop where
  /-- There is no request. -/
  | drained (idle : s.sendStatus.message = none) (empty : s.queue = [])
      (same : read = readDrained s)
  /-- The next request begins. -/
  | begins (first : Request σ) (later : List (Request σ)) (idle : s.sendStatus.message = none)
      (waits : s.queue = first :: later)
      (returns : Returns fs s read later (requestWire fs s.sessionHead first))
  /-- The current request goes on. -/
  | goesOn (busy : s.sendStatus.message ≠ none)
      (returns : Returns fs s read s.queue (currentRest fs s.sendStatus))
  /-- The current request is over. -/
  | ends (finished : RequestOver fs s) (same : read = ⟨[], false, messageEnd s⟩)

/-- The stages of a request that is current. -/
theorem stages_return {next : Session RequestLine σ} {request : Request σ}
    (current : next.sendStatus.message = some request) (sendable : Sendable fs request)
    (room : 0 < buffSize) (owes : currentRest fs next.sendStatus ≠ [])
    (returns : ∀ bytes status, sendStages fs buffSize next.sendStatus.status request
        next.sendStatus.cache = some (.bytes bytes status) →
      read = ⟨bytes, false, { next with sendStatus := status }⟩) :
    Returns fs next read next.queue (currentRest fs next.sendStatus) := by
  obtain ⟨emitted, stages, pays⟩ :=
    sendStages_pays sendable room next.sendStatus.status next.sendStatus.cache
  rw [currentRest, current] at owes
  cases emitted with
  | bodyEnd => exact absurd pays owes
  | bytes bytes status =>
    obtain rfl := returns bytes status stages
    obtain ⟨some_, message, present, _, paid⟩ := pays
    refine ⟨some_, rfl, rfl, by simp [present], ?_⟩
    simp only [currentRest, present, current]
    exact paid

/-- Every call of `on_read_request` is one of these. -/
theorem onReadRequest_cases (ready : Ready fs s) (room : 0 < buffSize)
    (found : onReadRequest fs buffSize s = some read) : ReadCase fs s read := by
  by_cases finished : RequestOver fs s
  · have ended := onReadRequest_over ready room finished
    exact .ends finished (Option.some.inj (found.symm.trans ended))
  cases current : s.sendStatus.message with
  | some request =>
    have busy : s.sendStatus.message ≠ none := by simp [current]
    have owes : currentRest fs s.sendStatus ≠ [] := fun nothing => finished ⟨busy, nothing⟩
    refine .goesOn busy (stages_return current (ready.current request current) room owes ?_)
    intro bytes status stages
    simp only [onReadRequest, takeNext, current, stages, Option.bind_eq_bind, Option.bind_some,
      Option.pure_def, Option.some.injEq] at found
    exact found.symm
  | none =>
    cases waits : s.queue with
    | nil =>
      simp only [onReadRequest, takeNext, current, waits, Option.bind_eq_bind, Option.bind_some,
        Option.pure_def, Option.some.injEq] at found
      exact .drained current waits found.symm
    | cons first later =>
      obtain ⟨body, present, fresh⟩ := ready.queued first (by simp [waits])
      obtain ⟨made, close, prepared, line, kept⟩ :=
        preSendRequest_prepares s.sessionHead first body present
      obtain ⟨readable, rest⟩ := fresh.readable
      let next : Session RequestLine σ :=
        { s with
          queue := later
          sendStatus := ⟨.line, some made, RequestLine.string made.line ++ crlf⟩
          closeAfterSendFlag := s.closeAfterSendFlag || close }
      have whole : currentRest fs next.sendStatus = requestWire fs s.sessionHead first := by
        simp only [next, currentRest, stagesRest, requestWire, queuedWire, prepared, messageWire,
          bodyRest, kept, Option.map_some, Option.getD_some, rest]
      have owes : currentRest fs next.sendStatus ≠ [] := by
        simp [next, currentRest, stagesRest, crlf]
      have returns := @stages_return _ _ fs read buffSize next made rfl ⟨body, kept, readable⟩ room
        owes (by
          intro bytes status stages
          unfold preSendRequestOpen at prepared
          simp only [onReadRequest, takeNext, current, waits, prepared, Option.map_some,
            Option.bind_eq_bind, Option.bind_some] at found
          have staged : sendStages fs buffSize EnSendStatus.line made
              (RequestLine.string made.line ++ crlf) = some (.bytes bytes status) := stages
          rw [staged] at found
          exact (Option.some.inj found).symm)
      rw [whole] at returns
      exact .begins first later current waits
        ⟨returns.some_, returns.queue, returns.flag, returns.current, returns.pays⟩

end Session

/-! ## Every run of a client session -/

variable {sessionHead : σ} {t next : Transport RequestLine σ}

/-- Where a client session is with its first request. -/
inductive FirstOnly (fs : FileSystem) (sessionHead : σ) (t : Transport RequestLine σ) : Prop where
  /-- Nothing was taken from the queue. -/
  | before (idle : t.session.sendStatus.message = none) (queue : t.session.queue = t.sent)
      (nothing : t.emitted = []) (chains : t.chains = if t.session.sendFlag then 1 else 0)
  /-- The first request is current. -/
  | during (first : Request σ) (later : List (Request σ)) (sent : t.sent = first :: later)
      (queue : t.session.queue = later) (flag : t.session.sendFlag = true) (chains : t.chains = 1)
      (pays : t.emitted ++ Session.currentRest fs t.session.sendStatus =
        requestWire fs sessionHead first)
      (busy : t.session.sendStatus.message ≠ none)
  /-- The first request is out, and nothing is read any more. -/
  | finished (first : Request σ) (later : List (Request σ)) (sent : t.sent = first :: later)
      (flag : t.session.sendFlag = true) (chains : t.chains = 0)
      (whole : t.emitted = requestWire fs sessionHead first)

namespace FirstOnly

/-- A session that may start to send starts a chain where its flag is down. -/
theorem startSend (only : FirstOnly fs sessionHead t) :
    FirstOnly fs sessionHead (t.handOver t.session.startSend) := by
  obtain ⟨session, started⟩ := Session.startSend_eq t.session
  cases only with
  | before idle queue nothing chains =>
    refine .before ?_ ?_ nothing ?_
    · rw [Transport.handOver, session]
      exact idle
    · rw [Transport.handOver, session]
      exact queue
    · rw [Transport.handOver, session, started]
      simp only [chains]
      cases t.session.sendFlag <;> cases t.session.connectFlag <;> rfl
  | during first later sent queue flag chains pays busy =>
    rw [flag, Bool.not_true, Bool.false_and] at started
    refine .during first later sent ?_ ?_ ?_ ?_ ?_
    · rw [Transport.handOver, session]
      exact queue
    · rw [Transport.handOver, session]
      simp only [flag, Bool.true_or]
    · rw [Transport.handOver, started]
      exact chains
    · rw [Transport.handOver, session]
      exact pays
    · rw [Transport.handOver, session]
      exact busy
  | finished first later sent flag chains whole =>
    rw [flag, Bool.not_true, Bool.false_and] at started
    refine .finished first later sent ?_ ?_ whole
    · rw [Transport.handOver, session]
      simp only [flag, Bool.true_or]
    · rw [Transport.handOver, started]
      exact chains

/-- A request that is sent waits behind the others. -/
theorem send (only : FirstOnly fs sessionHead t) (request : Request σ) :
    FirstOnly fs sessionHead
      { t.handOver (t.session.send request) with sent := t.sent ++ [request] } := by
  have queued : FirstOnly fs sessionHead
      { t with session := { t.session with queue := t.session.queue ++ [request] },
               sent := t.sent ++ [request] } := by
    cases only with
    | before idle queue nothing chains =>
      exact .before idle (congrArg (· ++ [request]) queue) nothing chains
    | during first later sent queue flag chains pays busy =>
      exact .during first (later ++ [request]) (congrArg (· ++ [request]) sent)
        (congrArg (· ++ [request]) queue) flag chains pays busy
    | finished first later sent flag chains whole =>
      exact .finished first (later ++ [request]) (congrArg (· ++ [request]) sent) flag chains whole
  exact queued.startSend

/-- A connection that stands, or is lost, changes no message. -/
theorem setConnect (only : FirstOnly fs sessionHead t) (connectFlag : Bool) :
    FirstOnly fs sessionHead { t with session := { t.session with connectFlag } } := by
  cases only with
  | before idle queue nothing chains => exact .before idle queue nothing chains
  | during first later sent queue flag chains pays busy =>
    exact .during first later sent queue flag chains pays busy
  | finished first later sent flag chains whole =>
    exact .finished first later sent flag chains whole

/-- A read goes on with the first request. -/
theorem read (only : FirstOnly fs sessionHead t) (ready : Session.Ready fs t.session)
    (head : t.session.sessionHead = sessionHead) {buffSize : Nat} (room : 0 < buffSize)
    (active : 0 < t.chains) {read : Read RequestLine σ}
    (returns : Session.onReadRequest fs buffSize t.session = some read) :
    FirstOnly fs sessionHead (t.afterRead read) := by
  have reads := Session.onReadRequest_cases ready room returns
  cases only with
  | before idle queue nothing chains =>
    have flag : t.session.sendFlag = true := by
      by_contra down
      rw [if_neg down] at chains
      omega
    rw [if_pos flag] at chains
    cases reads with
    | drained _ empty same =>
      subst same
      refine .before idle queue ?_ ?_
      · exact (List.append_nil _).trans nothing
      · show (if ([] : Bytes).length = 0 then t.chains - 1 else t.chains) = 0
        rw [chains]
        rfl
    | begins first later _ waits returns =>
      have bytes : read.bytes.length ≠ 0 := fun none =>
        returns.some_ (List.length_eq_zero_iff.mp none)
      refine .during first later (queue.symm.trans waits) returns.queue
        (returns.flag.trans flag) ?_ ?_ returns.current
      · rw [Transport.afterRead, if_neg bytes]
        exact chains
      · show t.emitted ++ read.bytes ++ _ = _
        rw [nothing, List.nil_append, ← head]
        exact returns.pays
    | goesOn busy => exact absurd idle busy
    | ends finished => exact absurd idle finished.1
  | during first later sent queue flag chains pays busy =>
    cases reads with
    | drained idle => exact absurd idle busy
    | begins _ _ idle => exact absurd idle busy
    | goesOn _ returns =>
      have bytes : read.bytes.length ≠ 0 := fun none =>
        returns.some_ (List.length_eq_zero_iff.mp none)
      refine .during first later sent (returns.queue.trans queue) (returns.flag.trans flag) ?_ ?_
        returns.current
      · rw [Transport.afterRead, if_neg bytes]
        exact chains
      · have paid := returns.pays
        show t.emitted ++ read.bytes ++ Session.currentRest fs read.session.sendStatus = _
        rw [List.append_assoc, paid]
        exact pays
    | ends finished same =>
      subst same
      refine .finished first later sent flag ?_ ?_
      · show (if ([] : Bytes).length = 0 then t.chains - 1 else t.chains) = 0
        rw [chains]
        rfl
      · rw [finished.2, List.append_nil] at pays
        exact (List.append_nil _).trans pays
  | finished first later sent flag chains whole => omega

/-- What was put out is the beginning of the first request. -/
theorem begins (only : FirstOnly fs sessionHead t) :
    t.emitted <+: (t.sent.take 1).flatMap (requestWire fs sessionHead) := by
  have one : ∀ first later, ((first :: later : List (Request σ)).take 1).flatMap
      (requestWire fs sessionHead) = requestWire fs sessionHead first :=
    fun _ _ => List.append_nil _
  cases only with
  | before _ _ nothing _ => exact nothing ▸ List.nil_prefix
  | during first later sent _ _ _ pays _ =>
    rw [sent, one]
    exact ⟨_, pays⟩
  | finished first later sent _ _ whole =>
    rw [sent, one]
    exact ⟨[], (List.append_nil _).trans whole⟩

end FirstOnly

/-- Every step of a client session keeps it at its first request. -/
theorem clientSystem_first
    (balanced : Balanced fs (Session.preSendRequestOpen sessionHead) RequestLine.string sessionHead
      t) (only : FirstOnly fs sessionHead t) {label : SendLabel RequestLine σ}
    (step : (clientSystem fs sessionHead).step t label next) : FirstOnly fs sessionHead next := by
  cases step with
  | send present unread => exact only.send _
  | connect => exact (only.setConnect true).startSend
  | read room active returns => exact only.read balanced.ready balanced.head room active returns

/-- In every run a client session puts out nothing but its first request, however many it was given
and whenever. -/
theorem clientSystem_once (reached : (clientSystem fs sessionHead).Reachable t) :
    t.emitted <+: (t.sent.take 1).flatMap (requestWire fs sessionHead) := by
  have kept : Balanced fs (Session.preSendRequestOpen sessionHead) RequestLine.string sessionHead
      t ∧ FirstOnly fs sessionHead t := by
    apply reached.invariant
    · rintro _ rfl
      exact ⟨Account.fresh.balanced, .before rfl rfl rfl rfl⟩
    · intro first label last ⟨balanced, only⟩ step
      exact ⟨clientSystem_balanced balanced step, clientSystem_first balanced only step⟩
  exact kept.2.begins

/-- Of two requests the first one goes out. -/
theorem clientSystem_once_two :
    ∃ t : Transport RequestLine ListMultimap,
      (clientSystem (fun _ => none) Session.clientHead).Reachable t ∧
      t.sent = [plainGet, plainGet] ∧ t.session.queue = [plainGet] ∧ t.chains = 0 ∧
      t.emitted <+: (t.sent.take 1).flatMap (requestWire (fun _ => none) Session.clientHead) := by
  have begins : (clientSystem (fun _ => none) (Session.clientHead : ListMultimap)).Reachable
      (.fresh Session.clientHead) := .start rfl
  have sent := begins.step (.send plainGet) (.send rfl rfl)
  have more := sent.step (.send plainGet) (.send rfl rfl)
  have connected := more.step .connect .connect
  have line := connected.step (.read 1000) (.read (by decide) (by decide) rfl)
  have head := line.step (.read 1000) (.read (by decide) (by decide) rfl)
  have reached := head.step (.read 1000) (.read (by decide) (by decide) rfl)
  exact ⟨_, reached, rfl, rfl, rfl, clientSystem_once reached⟩

/-! ## Every conversation -/

variable {τ : Type} [UnorderedMultimap τ] {place : Place}
  {Answers : Event RequestLine τ → Response τ → Prop} {c : Conversation σ τ}

/-- In every run of a conversation the client's session is at its first request. -/
theorem conversation_first (reached : (conversation place Answers).Reachable c) :
    FirstOnly place.clientFs (Session.startedHead place.host) c.client := by
  have kept : ConversationInv place Answers c ∧
      FirstOnly place.clientFs (Session.startedHead place.host) c.client := by
    apply reached.invariant
    · rintro _ rfl
      exact ⟨.start, .before rfl rfl rfl rfl⟩
    · intro first label last ⟨inv, only⟩ step
      refine ⟨inv.step step, ?_⟩
      cases step with
      | client step => exact clientSystem_first inv.client only step
      | server => exact only
      | answer => exact only
      | toServer => exact only
      | toClient => exact only
      | disconnect => exact only.setConnect false
  exact kept.2

/-- In every run of a conversation the application of the server is handed one request, and answers
one, however many were sent. -/
theorem conversation_once (reached : (conversation place Answers).Reachable c)
    (sends : ∀ request ∈ c.client.sent, Deliverable place.host request) :
    c.requests.length ≤ 1 ∧ c.server.sent.length ≤ 1 := by
  have inv := conversation_inv reached
  have front := (conversation_first reached).begins
  have arrived := arrived_first place.serverSetting httpRequestParser_lawful
    (sentRequests_framing place.serverSide place.serverHolds place.serverFiles place.clientFs
      place.host)
    (fun request => RequestPuts.hands (wireOf place.host request))
    (fun request member => sends request (List.mem_of_mem_take member)) inv.upstream front
  rw [← filter_handsOver] at arrived
  have count := arrived.length_eq
  rw [List.length_take, List.length_take] at count
  have one : c.requests.length ≤ 1 := by
    show (c.upstream.out.filter handsOver).length ≤ 1
    omega
  have answers := inv.answers.length_eq
  rw [List.length_take] at answers
  exact ⟨one, by omega⟩

/-- Of two requests the server is handed the first one. -/
theorem conversation_once_two :
    ∃ c : Conversation ListMultimap ListMultimap, (conversation bare SameAnswer).Reachable c ∧
      c.client.sent.length = 2 ∧ c.requests ≠ [] ∧ c.requests.length ≤ 1 := by
  have begins : (conversation bare SameAnswer).Reachable
      (.start bare : Conversation ListMultimap ListMultimap) := .start rfl
  have sent := begins.step (.client (.send plainGet)) (.client (.send rfl rfl))
  have more := sent.step (.client (.send plainGet)) (.client (.send rfl rfl))
  have connected := more.step (.client .connect) (.client .connect)
  have line := connected.step (.client (.read 1000))
    (.client (.read (by decide) (by decide) rfl))
  have head := line.step (.client (.read 1000)) (.client (.read (by decide) (by decide) rfl))
  have reached := head.step (.toServer 1000) (.takes (by decide +kernel))
  have both : ∀ request ∈ [plainGet, plainGet], Deliverable bare.host request := by
    simp [plainGet_deliverable]
  refine ⟨_, reached, rfl, ?_, (conversation_once reached both).1⟩
  decide +kernel

end Hnw.Http
