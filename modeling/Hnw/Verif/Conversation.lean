import Hnw.Verif.Deliverable
import Hnw.Verif.Sendable

/-!
# What a client and a server tell each other

In every run, whatever is read, written, cut into chunks, answered or lost in whatever order: the
requests that reach the application of the server are the first ones the client sent, in order; and
the responses that reach the application of the client answer the first requests it sent, in order.
Where nothing is left to do, all of them arrived.
-/

namespace Hnw.Http

open Hnw.Util Hnw.Util.UnorderedMultimap Hnw.Parser Hnw.Theory

/-! ## One link -/

section Arrival

variable {ι κ σ : Type} [UnorderedMultimap κ] {setting : Setting ι κ} {files : Files} {μ : Type}
  {wire : μ → Bytes} {Valid Good : μ → Prop} {Puts : μ → List (Event ι κ) → Prop}
  {Arrives : μ → Event ι κ → Prop} {messages : List μ} {written : Bytes}
  {link : Link (ParserState ι κ) (Event ι κ)}

omit [UnorderedMultimap κ] in
/-- The events that hand a message over, as the model names them. -/
theorem filter_handsOver (events : List (Event ι κ)) : events.filter handsOver = recvs events := by
  apply List.filter_congr
  intro event _
  cases event with
  | recvHead line head => rfl
  | recv line head body => rfl
  | error code => rfl

variable (setting) (lawful : setting.kind.Lawful)
  (framing : Framing (callParserCb setting) (fresh setting files []) wire Valid Good Puts
    Stop.fault)
  (hands : ∀ message out, Puts message out →
    ∃ event, recvs out = [event] ∧ Arrives message event)
  (valid : ∀ message ∈ messages, Valid message)
  (carries : link.Carries (callParserCb setting) Stop.fatal (fresh setting files []) written)
include lawful framing hands valid carries

/-- What arrived of messages that are being written are the first of them. -/
theorem arrived_first (front : written <+: messages.flatMap wire) :
    List.Forall₂ Arrives (messages.take (recvs link.out).length) (recvs link.out) := by
  obtain ⟨⟨chunks, o, found, taken, _, out, _⟩, _⟩ := carries
  have part : chunks.flatten <+: messages.flatMap wire := by
    rw [taken]
    exact (List.take_prefix link.taken written).trans front
  obtain ⟨before, outs, first, put, begins⟩ :=
    framing.deliver_begins (callParserCb_splits lawful) (fresh_passive lawful files) rfl valid part
      found
  rw [out] at begins
  have handed := recvs_puts hands put
  have short : recvs link.out <+: recvs outs.flatten := List.IsPrefix.filter _ begins
  have inside : (recvs link.out).length ≤ before.length :=
    short.length_le.trans_eq handed.length_eq.symm
  have same : messages.take (recvs link.out).length = before.take (recvs link.out).length := by
    obtain ⟨rest, rfl⟩ := first
    exact List.take_append_of_le_length inside
  rw [same]
  exact forall₂_of_prefix handed short

/-- Where all of the messages were written and taken, all of them arrived. -/
theorem arrived_all (good : ∀ message ∈ messages, Good message)
    (whole : written = messages.flatMap wire) (read : link.taken = written.length) :
    List.Forall₂ Arrives messages (recvs link.out) := by
  obtain ⟨⟨chunks, o, found, taken, _, out, _⟩, _⟩ := carries
  rw [read, List.take_length, whole] at taken
  obtain ⟨outs, put, puts⟩ :=
    framing.deliver_good (callParserCb_splits lawful) (fresh_passive lawful files) valid good taken
      found
  rw [← out, puts]
  exact recvs_puts hands put

end Arrival

/-! ## The invariant -/

variable {σ τ : Type} [UnorderedMultimap σ] [UnorderedMultimap τ] {place : Place}
  {Answers : Event RequestLine τ → Response τ → Prop} {c next : Conversation σ τ}

/-- What every step of a conversation keeps. -/
structure ConversationInv (place : Place) (Answers : Event RequestLine τ → Response τ → Prop)
    (c : Conversation σ τ) : Prop where
  /-- The client's session owes what it was given and did not put out. -/
  client : Balanced place.clientFs (Session.preSendRequestOpen (Session.startedHead place.host))
    RequestLine.string (Session.startedHead place.host) c.client
  /-- The server's session owes what it was given and did not put out. -/
  server : Balanced place.serverFs (Session.preSendResponse Session.serverHead)
    ResponseLine.string Session.serverHead c.server
  /-- The server's parser was given a beginning of what the client put out. -/
  upstream : c.upstream.Carries (callParserCb place.serverSetting) Stop.fatal
    (fresh place.serverSetting place.serverFiles []) c.client.emitted
  /-- The client's parser was given a beginning of what the server put out. -/
  downstream : c.downstream.Carries (callParserCb place.clientSetting) Stop.fatal
    (fresh place.clientSetting place.clientFiles []) c.server.emitted
  /-- The first requests were answered, in order. -/
  answers : List.Forall₂ Answers (c.requests.take c.answered) c.server.sent
  /-- Only requests that came were answered. -/
  answered : c.answered ≤ c.requests.length

omit [UnorderedMultimap τ] in
/-- What a session put out before, it put out. -/
theorem Transport.Step.grows {ι : Type} {fs : FileSystem}
    {onRead : Nat → Session ι τ → Option (Read ι τ)} {t next : Transport ι τ}
    {label : SendLabel ι τ} (step : Transport.Step fs onRead t label next) :
    ∃ more, next.emitted = t.emitted ++ more := by
  cases step with
  | send present unread => exact ⟨[], (List.append_nil _).symm⟩
  | connect => exact ⟨[], (List.append_nil _).symm⟩
  | read room active returns => exact ⟨_, rfl⟩

omit [UnorderedMultimap τ] in
/-- A message that is sent is the last one sent. -/
theorem Transport.Step.sends {ι : Type} {fs : FileSystem}
    {onRead : Nat → Session ι τ → Option (Read ι τ)} {t next : Transport ι τ}
    {message : Message ι τ} (step : Transport.Step fs onRead t (.send message) next) :
    next.sent = t.sent ++ [message] ∧ next.emitted = t.emitted := by
  cases step with
  | send present unread => exact ⟨rfl, rfl⟩

/-- A new conversation. -/
theorem ConversationInv.start :
    ConversationInv place Answers (.start place : Conversation σ τ) where
  client := Account.fresh.balanced
  server := Account.fresh.balanced
  upstream := .fresh
  downstream := .fresh
  answers := .nil
  answered := Nat.le_refl _

/-- Every step of a conversation keeps the invariant. -/
theorem ConversationInv.step {label : ConversationLabel σ τ}
    (inv : ConversationInv place Answers c) (step : Conversation.Step place Answers c label next) :
    ConversationInv place Answers next := by
  cases step with
  | @client label client step =>
    obtain ⟨more, grows⟩ := Transport.Step.grows step
    refine { inv with client := clientSystem_balanced inv.client step, upstream := ?_ }
    show c.upstream.Carries _ _ _ client.emitted
    rw [grows]
    exact inv.upstream.write more
  | @server label server step quiet =>
    obtain ⟨more, grows⟩ := Transport.Step.grows step
    refine { inv with
      server := serverSystem_balanced inv.server step, downstream := ?_, answers := ?_ }
    · show c.downstream.Carries _ _ _ server.emitted
      rw [grows]
      exact inv.downstream.write more
    · show List.Forall₂ Answers _ server.sent
      rw [quiet]
      exact inv.answers
  | @answer request response server found answers step =>
    obtain ⟨sent, same⟩ := Transport.Step.sends step
    obtain ⟨here, asked⟩ := List.getElem?_eq_some_iff.mp found
    refine ⟨inv.client, serverSystem_balanced inv.server step, inv.upstream, ?_, ?_, here⟩
    · show c.downstream.Carries _ _ _ server.emitted
      rw [same]
      exact inv.downstream
    · show List.Forall₂ Answers (c.requests.take (c.answered + 1)) server.sent
      rw [sent, List.take_add_one, found]
      exact List.rel_append inv.answers (.cons answers .nil)
  | @toServer count upstream reads =>
    obtain ⟨more, grows⟩ := Link.read_out reads
    have requests : (c.requests ++ more.filter handsOver) =
        Conversation.requests { c with upstream } := by
      rw [Conversation.requests, Conversation.requests, ← List.filter_append, ← grows]
    have answered := inv.answered
    refine ⟨inv.client, inv.server, inv.upstream.read reads, inv.downstream, ?_, ?_⟩
    · rw [← requests, List.take_append_of_le_length answered]
      exact inv.answers
    · rw [← requests, List.length_append]
      exact Nat.le_add_right_of_le answered
  | toClient reads =>
    exact ⟨inv.client, inv.server, inv.upstream, inv.downstream.read reads, inv.answers,
      inv.answered⟩
  | disconnect =>
    exact ⟨inv.client.onDisconnect, inv.server.onDisconnect, inv.upstream.cut,
      inv.downstream.cut, inv.answers, inv.answered⟩

/-- The invariant holds in every run. -/
theorem conversation_inv (reached : (conversation place Answers).Reachable c) :
    ConversationInv place Answers c := by
  apply reached.invariant
  · rintro _ rfl
    exact .start
  · exact fun first label last inv step => inv.step step

/-- A response that was sent has a body that was not read yet. -/
theorem conversation_bodies (reached : (conversation place Answers).Reachable c) :
    ∀ response ∈ c.server.sent, ∃ body, response.body = some body ∧
      body.Fresh place.serverFs := by
  apply reached.invariant
    (P := fun c => ∀ response ∈ c.server.sent, ∃ body, response.body = some body ∧
      body.Fresh place.serverFs)
  · rintro _ rfl response member
    cases member
  · intro first label last bodies step
    cases step with
    | client => exact bodies
    | server step quiet =>
      show ∀ response ∈ Transport.sent _, _
      rw [quiet]
      exact bodies
    | answer found answers step =>
      obtain ⟨sent, _⟩ := Transport.Step.sends step
      show ∀ response ∈ Transport.sent _, _
      rw [sent]
      intro response member
      rcases List.mem_append.mp member with old | new
      · exact bodies response old
      · rw [List.mem_singleton.mp new]
        cases step with
        | send present unread => exact ⟨_, present, unread⟩
    | toServer => exact bodies
    | toClient => exact bodies
    | disconnect => exact bodies

/-! ## One exchange -/

/-- Nothing is left to do: no session has anything to send, nothing is on its way, and every
request that came is answered. -/
structure AtRest (c : Conversation σ τ) : Prop where
  /-- The client sends nothing. -/
  clientIdle : c.client.session.sendStatus.message = none
  /-- No request waits. -/
  clientEmpty : c.client.session.queue = []
  /-- The server sends nothing. -/
  serverIdle : c.server.session.sendStatus.message = none
  /-- No response waits. -/
  serverEmpty : c.server.session.queue = []
  /-- All bytes of the client arrived. -/
  up : c.upstream.taken = c.client.emitted.length
  /-- All bytes of the server arrived. -/
  back : c.downstream.taken = c.server.emitted.length
  /-- Every request is answered. -/
  answered : c.answered = c.requests.length

/-- A chunk that can be taken is taken. -/
theorem Conversation.Step.takes {count : Nat}
    (up : (c.upstream.read (callParserCb place.serverSetting) Stop.fatal c.client.emitted
      count).isSome = true) :
    Conversation.Step place Answers c (.toServer count) { c with upstream := Option.get _ up } :=
  .toServer (Option.some_get up).symm

/-- A chunk that can be taken by the client is taken. -/
theorem Conversation.Step.gets {count : Nat}
    (up : (c.downstream.read (callParserCb place.clientSetting) Stop.fatal c.server.emitted
      count).isSome = true) :
    Conversation.Step place Answers c (.toClient count) { c with downstream := Option.get _ up } :=
  .toClient (Option.some_get up).symm

/-- The transport reads from the client. -/
theorem Conversation.Step.reads {buffSize : Nat} (room : 0 < buffSize)
    (active : 0 < c.client.chains)
    (returns : (Session.onReadRequest place.clientFs buffSize c.client.session).isSome = true) :
    Conversation.Step place Answers c (.client (.read buffSize))
      { c with client := c.client.afterRead (Option.get _ returns) } :=
  .client (.read room active (Option.some_get returns).symm)

/-- The transport reads from the server. -/
theorem Conversation.Step.serves {buffSize : Nat} (room : 0 < buffSize)
    (active : 0 < c.server.chains)
    (returns : (Session.onReadResponse place.serverFs buffSize c.server.session).isSome = true) :
    Conversation.Step place Answers c (.server (.read buffSize))
      { c with server := c.server.afterRead (Option.get _ returns) } :=
  .server (.read room active (Option.some_get returns).symm) rfl

/-- A place without files. -/
def bare : Place where
  host := ascii "h"
  clientFs _ := none
  serverFs _ := none
  clientSide := ⟨linux, fun _ => []⟩
  serverSide := ⟨linux, fun _ => []⟩
  clientHolds := false
  serverHolds := false
  clientFiles := ⟨fun _ => none, 0⟩
  serverFiles := ⟨fun _ => none, 0⟩

/-- Every request is answered with the same response. -/
abbrev SameAnswer (_ : Event RequestLine ListMultimap) (response : Response ListMultimap) : Prop :=
  response = plainResponse

/-- A request that arrives in two chunks and is answered. -/
theorem exchange_reached :
    ∃ c : Conversation ListMultimap ListMultimap, (conversation bare SameAnswer).Reachable c ∧
      c.client.sent = [plainGet] ∧ c.server.sent = [plainResponse] ∧ AtRest c ∧
      c.requests.length = 1 ∧ c.responses.length = 1 := by
  refine ⟨?last, ⟨_, [.client (.send plainGet), .client .connect, .client (.read 1000),
    .client (.read 1000), .client (.read 1000), .toServer 60, .toServer 60, .server .connect,
    .answer plainResponse, .server (.read 1000), .server (.read 1000), .server (.read 1000),
    .server (.read 1000), .toClient 1000], rfl, ?run⟩, ?rest⟩
  case run =>
    refine .cons trivial (.client (.send rfl rfl)) ?_
    refine .cons trivial (.client .connect) ?_
    refine .cons trivial (.client (.read (by decide) (by decide) rfl)) ?_
    refine .cons trivial (.client (.read (by decide) (by decide) rfl)) ?_
    refine .cons trivial (.client (.read (by decide) (by decide) rfl)) ?_
    refine .cons trivial (.takes (by decide +kernel)) ?_
    refine .cons trivial (.takes (by decide +kernel)) ?_
    refine .cons trivial (.server .connect rfl) ?_
    refine .cons trivial (.answer (Option.some_get (by decide +kernel)).symm rfl (.send rfl rfl)) ?_
    refine .cons trivial (.server (.read (by decide) (by decide) rfl) rfl) ?_
    refine .cons trivial (.server (.read (by decide) (by decide) rfl) rfl) ?_
    refine .cons trivial (.server (.read (by decide) (by decide) rfl) rfl) ?_
    refine .cons trivial (.server (.read (by decide) (by decide) rfl) rfl) ?_
    refine .cons trivial (.gets (by decide +kernel)) ?_
    exact .nil _
  case rest =>
    refine ⟨rfl, rfl, ⟨rfl, rfl, rfl, rfl, ?_, ?_, ?_⟩, ?_⟩
    · decide +kernel
    · decide +kernel
    · decide +kernel
    · decide +kernel

/-- The request of the exchange may be sent. -/
theorem plainGet_deliverable : Deliverable bare.host plainGet ∧ NearRequest bare.host plainGet := by
  refine ⟨⟨?_, ?_, ?_, ?_, ?_, ?_, ⟨RawBody.generate, rfl, rfl, rfl⟩⟩, ?_⟩
  · decide
  · decide
  · decide
  · decide
  · decide
  · decide
  · rw [NearRequest]
    decide +kernel

/-- The response of the exchange may be sent. -/
theorem plainResponse_sendable :
    Sendable bare.serverFs plainResponse ∧
      NearResponse (inMemory bare.serverFs plainResponse) := by
  refine ⟨Transmittable.sendable ⟨?_, ?_, ?_, ?_, ?_, ⟨_, rfl, rfl, ?_⟩⟩, ?_⟩
  · decide
  · decide
  · decide
  · decide
  · decide
  · decide
  · exact ⟨by decide +kernel, by decide⟩

/-! ## What arrives -/

/-- What the client put out is the beginning of its requests as they go out. -/
theorem ConversationInv.requests_begin (inv : ConversationInv place Answers c) :
    c.client.emitted <+:
      c.client.sent.flatMap (requestWire place.clientFs (Session.startedHead place.host)) :=
  ⟨_, inv.client.balance⟩

/-- What the server put out is the beginning of its responses as they go out. -/
theorem ConversationInv.responses_begin (inv : ConversationInv place Answers c) :
    c.server.emitted <+:
      c.server.sent.flatMap (responseWire place.serverFs Session.serverHead) :=
  ⟨_, inv.server.balance⟩

/-- The requests that came are the first that were sent. -/
theorem ConversationInv.asked (inv : ConversationInv place Answers c)
    (sends : ∀ request ∈ c.client.sent, Deliverable place.host request) :
    List.Forall₂ (RequestComes place.host) (c.client.sent.take c.requests.length) c.requests := by
  have arrived := arrived_first place.serverSetting httpRequestParser_lawful
    (sentRequests_framing place.serverSide place.serverHolds place.serverFiles place.clientFs
      place.host)
    (fun request => RequestPuts.hands (wireOf place.host request)) sends inv.upstream
    inv.requests_begin
  rwa [← filter_handsOver] at arrived

/-- The responses that came are the first that were sent. -/
theorem ConversationInv.told (inv : ConversationInv place Answers c)
    (sends : ∀ response ∈ c.server.sent, Sendable place.serverFs response) :
    List.Forall₂ (ResponseComes place.serverFs) (c.server.sent.take c.responses.length)
      c.responses := by
  have arrived := arrived_first place.clientSetting httpResponseParser_lawful
    (sentResponses_framing place.clientSide place.clientHolds place.clientFiles place.serverFs)
    (fun response => ResponsePuts.hands (inMemory place.serverFs response)) sends inv.downstream
    inv.responses_begin
  rwa [← filter_handsOver] at arrived

/-- A response that came is the answer to a request. -/
def AnswersTo (place : Place) (Answers : Event RequestLine τ → Response τ → Prop)
    (request : Request σ) (event : Event ResponseLine σ) : Prop :=
  ∃ asked answer, RequestComes place.host request asked ∧ Answers asked answer ∧
    ResponseComes place.serverFs answer event

/-- In every run the requests that reach the application of the server are the first ones that the
client sent, in their order. -/
theorem conversation_requests (reached : (conversation place Answers).Reachable c)
    (sends : ∀ request ∈ c.client.sent, Deliverable place.host request) :
    List.Forall₂ (RequestComes place.host) (c.client.sent.take c.requests.length) c.requests :=
  (conversation_inv reached).asked sends

/-- The request of the exchange came. -/
theorem conversation_requests_exchange :
    ∃ c : Conversation ListMultimap ListMultimap, (conversation bare SameAnswer).Reachable c ∧
      List.Forall₂ (RequestComes bare.host) [plainGet] c.requests := by
  obtain ⟨c, reached, sent, _, _, one, _⟩ := exchange_reached
  have came := conversation_requests reached (by simp [sent, plainGet_deliverable])
  rw [sent, one] at came
  exact ⟨c, reached, came⟩

/-- The responses that came are answers to the first requests. -/
theorem ConversationInv.answersTo (inv : ConversationInv place Answers c)
    (sends : ∀ request ∈ c.client.sent, Deliverable place.host request)
    (transmits : ∀ response ∈ c.server.sent, Sendable place.serverFs response) :
    List.Forall₂ (AnswersTo place Answers) (c.client.sent.take c.responses.length)
      c.responses := by
  have asked := inv.asked sends
  have told := inv.told transmits
  have count : c.responses.length ≤ c.answered := by
    have sent := inv.answers.length_eq
    have arrived := told.length_eq
    rw [List.length_take] at sent arrived
    omega
  have first := List.forall₂_take c.responses.length asked
  have answers := List.forall₂_take c.responses.length inv.answers
  rw [List.take_take, Nat.min_eq_left (count.trans inv.answered)] at first
  rw [List.take_take, Nat.min_eq_left count] at answers
  exact (forall₂_comp first (forall₂_comp answers told)).imp
    fun _ _ ⟨asked, request, answer, given, response⟩ =>
      ⟨asked, answer, request, given, response⟩

/-- In every run the responses that reach the application of the client are answers to the first
requests it sent, in their order. -/
theorem conversation_answers (reached : (conversation place Answers).Reachable c)
    (sends : ∀ request ∈ c.client.sent, Deliverable place.host request)
    (transmits : ∀ response ∈ c.server.sent, Sendable place.serverFs response) :
    List.Forall₂ (AnswersTo place Answers) (c.client.sent.take c.responses.length) c.responses :=
  (conversation_inv reached).answersTo sends transmits

/-- The response of the exchange came. -/
theorem conversation_answers_exchange :
    ∃ c : Conversation ListMultimap ListMultimap, (conversation bare SameAnswer).Reachable c ∧
      List.Forall₂ (AnswersTo bare SameAnswer) [plainGet] c.responses := by
  obtain ⟨c, reached, sent, answered, _, _, one⟩ := exchange_reached
  have came := conversation_answers reached (by simp [sent, plainGet_deliverable])
    (by simp [answered, plainResponse_sendable])
  rw [sent, one] at came
  exact ⟨c, reached, came⟩

/-- Where nothing is left to do and these requests came, an answer to each of them came. -/
theorem ConversationInv.answeredAll (inv : ConversationInv place Answers c) {ν : Type}
    {frames : List ν} {Comes : ν → Event RequestLine τ → Prop}
    (asked : List.Forall₂ Comes frames c.requests)
    (transmits : ∀ response ∈ c.server.sent, Sendable place.serverFs response ∧
      NearResponse (inMemory place.serverFs response))
    (rest : AtRest c) :
    List.Forall₂ (fun frame event => ∃ asked answer, Comes frame asked ∧ Answers asked answer ∧
      ResponseComes place.serverFs answer event) frames c.responses := by
  have told := arrived_all place.clientSetting httpResponseParser_lawful
    (sentResponses_framing place.clientSide place.clientHolds place.clientFiles place.serverFs)
    (fun response => ResponsePuts.hands (inMemory place.serverFs response))
    (fun response member => (transmits response member).1) inv.downstream
    (fun response member => (transmits response member).2)
    (inv.server.paid rest.serverIdle rest.serverEmpty) rest.back
  rw [← filter_handsOver] at told
  have answers := inv.answers
  rw [rest.answered, List.take_length] at answers
  exact (forall₂_comp asked (forall₂_comp answers told)).imp
    fun _ _ ⟨asked, request, answer, given, response⟩ =>
      ⟨asked, answer, request, given, response⟩

/-- Where nothing is left to do, every request was answered and every answer came, in order. -/
theorem conversation_complete (reached : (conversation place Answers).Reachable c)
    (sends : ∀ request ∈ c.client.sent, Deliverable place.host request ∧
      NearRequest place.host request)
    (transmits : ∀ response ∈ c.server.sent, Sendable place.serverFs response ∧
      NearResponse (inMemory place.serverFs response))
    (rest : AtRest c) : List.Forall₂ (AnswersTo place Answers) c.client.sent c.responses := by
  have inv := conversation_inv reached
  have asked := arrived_all place.serverSetting httpRequestParser_lawful
    (sentRequests_framing place.serverSide place.serverHolds place.serverFiles place.clientFs
      place.host)
    (fun request => RequestPuts.hands (wireOf place.host request))
    (fun request member => (sends request member).1) inv.upstream
    (fun request member => (sends request member).2)
    (inv.client.paid rest.clientIdle rest.clientEmpty) rest.up
  rw [← filter_handsOver] at asked
  exact inv.answeredAll asked transmits rest

/-- After the exchange nothing is left to do. -/
theorem conversation_complete_exchange :
    ∃ c : Conversation ListMultimap ListMultimap, (conversation bare SameAnswer).Reachable c ∧
      AtRest c ∧ List.Forall₂ (AnswersTo bare SameAnswer) [plainGet] c.responses := by
  obtain ⟨c, reached, sent, answered, rest, _, _⟩ := exchange_reached
  have came := conversation_complete reached (by simp [sent, plainGet_deliverable])
    (by simp [answered, plainResponse_sendable]) rest
  rw [sent] at came
  exact ⟨c, reached, rest, came⟩

end Hnw.Http
