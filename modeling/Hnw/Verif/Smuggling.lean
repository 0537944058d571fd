import Hnw.Service.Post
import Hnw.Verif.Conversation
import Hnw.Verif.ServedRange

/-!
# What a server makes of a body

The parser of a server hands a request over at the end of its head, and what follows is the next
request. So a body that is made of requests, posted from memory or from a file, is answered request
by request: the application of the server is handed each of them, and the application of the client
gets a response to each of them, where it sent one request.
-/

namespace Hnw.Http

open Hnw.Util Hnw.Util.UnorderedMultimap Hnw.Parser Hnw.Theory

variable {σ τ : Type} [UnorderedMultimap σ] [UnorderedMultimap τ] {fs : FileSystem} {host : Bytes}

/-- The head of a request after `pre_send`, whatever the body and the headers. -/
def outerHead (host : Bytes) (request : Request σ) : σ :=
  let size := (request.body.map Body.bodySize).getD 0
  let head :=
    if getHeadCount request.head httpLen = 0 then addHead request.head httpLen (decimal size)
    else request.head
  merge head (Session.startedHead host) false

/-- What the parser of a server takes for the request. -/
def outerOf (host : Bytes) (request : Request σ) : WireRequest where
  method := request.line.method
  target := request.line.url
  version := request.line.version
  headers := toList (outerHead host request)
  body := []

/-- A request whose body is made of requests, of the session for a host. -/
structure Smuggles (fs : FileSystem) (host : Bytes) (request : Request σ)
    (hidden : List WireRequest) : Prop where
  /-- The method is a word. -/
  method : Word request.line.method
  /-- The target is a word. -/
  target : Word request.line.url
  /-- The version is a word. -/
  version : Word request.line.version
  /-- The headers are clean. -/
  headers : ∀ entry ∈ toList request.head, CleanEntry entry
  /-- The host is clean. -/
  host : CleanEntry (httpHost, host)
  /-- The body is made of them. -/
  body : ∃ body, request.body = some body ∧ body.content fs = hidden.flatMap WireRequest.wire
  /-- Each of them has a clean head and no body. -/
  hidden : ∀ inner ∈ hidden, inner.Headed

/-- A header of a request that goes out is clean. -/
theorem outerHead_clean (host_clean : CleanEntry (httpHost, host)) {request : Request σ}
    (clean : ∀ entry ∈ toList request.head, CleanEntry entry) {entry : Entry}
    (member : entry ∈ toList (outerHead host request)) : CleanEntry entry := by
  simp only [outerHead] at member
  rcases mem_merge.2 member with own | session
  · split at own
    · rcases mem_addHead.mp own with rfl | old
      · exact (AddedEntry.clean (.inl rfl)).1
      · exact clean entry old
    · exact clean entry own
  · exact (startedHead_clean host_clean session).1

/-- `pre_send` of a request with a body. -/
theorem preSend_outer {request : Request σ} {body : Body} (present : request.body = some body) :
    Session.preSendRequestOpen (Session.startedHead host) request =
      some ({ request with head := outerHead host request }, false) := by
  simp only [Session.preSendRequestOpen, Session.preSendRequest, Session.addLength, outerHead,
    present, Option.map_some, Option.getD_some]
  split
  · simp only [Option.map_some, addHeadUint64, ← present]
  · simp only [Option.map_some, ← present]

namespace Smuggles

variable {request : Request σ} {hidden : List WireRequest}
  (smuggles : Smuggles fs host request hidden)
include smuggles

/-- The request goes out as requests do that follow each other. -/
theorem wire :
    requestWire fs (Session.startedHead host) request =
      (outerOf host request :: hidden).flatMap WireRequest.wire := by
  obtain ⟨body, present, content⟩ := smuggles.body
  simp only [requestWire, Session.queuedWire, preSend_outer present, Session.messageWire, present,
    Option.map_some, Option.getD_some, content, List.flatMap_cons, WireRequest.wire,
    WireRequest.startLine, outerOf, RequestLine.string, headString, space, List.append_assoc,
    List.cons_append, List.nil_append]

/-- Each of them has a clean head and no body. -/
theorem headed : ∀ frame ∈ outerOf host request :: hidden, frame.Headed := by
  intro frame member
  rcases List.mem_cons.mp member with rfl | inner
  · exact ⟨smuggles.method, smuggles.target, smuggles.version,
      fun _ => outerHead_clean smuggles.host smuggles.headers, rfl⟩
  · exact smuggles.hidden frame inner

end Smuggles

/-! ## Posts -/

/-- The bytes that are posted: the data, or the section of the file that the `Range` selects. -/
def postedData (fs : FileSystem) : Service.Post σ → Option Bytes
  | .raw _ _ data _ => some data
  | .file _ _ filepath extHead => do
    let range ← rangeLeft (Service.mergeExtHead (Request.generate : Request σ).head extHead) {}
    let file ← fs filepath
    some (file.bytes.extract (FileBody.firstPos range) (servedLast file.bytes.length range + 1))

/-- A post changes no file, and the body of its request is what is posted, to be read from its
beginning. -/
theorem post_body {platform : Platform} {post : Service.Post σ} {request : Request σ}
    {left : FileSystem} (made : post.request platform fs = some (request, left)) :
    left = fs ∧ ∃ body data, request.body = some body ∧ body.Fresh fs ∧
      postedData fs post = some data ∧ body.content fs = data := by
  cases post with
  | raw method uri data extHead =>
    obtain ⟨sent, raw, same⟩ := Option.map_eq_some_iff.mp made
    cases same
    obtain ⟨line, _, sends⟩ := Option.bind_eq_some_iff.mp raw
    simp only at sends
    split at sends
    · cases sends
    · cases sends
      exact ⟨rfl, _, data, rfl, rfl, rfl, List.take_length⟩
  | file method uri filepath extHead =>
    obtain ⟨line, _, ranged⟩ := Option.bind_eq_some_iff.mp made
    obtain ⟨range, selects, sends⟩ := Option.bind_eq_some_iff.mp ranged
    cases present : fs filepath with
    | none =>
      have missing : FileBody.generate platform fs filepath range flagOpen = (none, fs) := by
        rw [FileBody.generate, FileBody.init, present]
        rfl
      rw [missing] at sends
      cases sends
    | some file =>
      rw [FileBody.generate_open platform present] at sends
      cases opened : FileBody.initSection filepath file.bytes.length range flagOpen with
      | none =>
        rw [opened] at sends
        cases sends
      | some body =>
        rw [opened] at sends
        cases sends
        obtain ⟨fresh, content⟩ := FileBody.initSection_content present opened
        refine ⟨rfl, .file body, _, rfl, fresh, ?_, content⟩
        simp only [postedData, selects, present, Option.bind_eq_bind, Option.bind_some]

/-- A post of requests smuggles them, where its line and its headers are clean. -/
theorem post_smuggles {platform : Platform} {post : Service.Post σ} {request : Request σ}
    {left : FileSystem} (made : post.request platform fs = some (request, left))
    {hidden : List WireRequest}
    (posted : postedData fs post = some (hidden.flatMap WireRequest.wire))
    (line : Word request.line.method ∧ Word request.line.url ∧ Word request.line.version)
    (clean : ∀ entry ∈ toList request.head, CleanEntry entry)
    (host_clean : CleanEntry (httpHost, host)) (headed : ∀ inner ∈ hidden, inner.Headed) :
    Smuggles fs host request hidden := by
  obtain ⟨_, body, data, present, _, told, content⟩ := post_body made
  rw [posted, Option.some.injEq] at told
  exact ⟨line.1, line.2.1, line.2.2, clean, host_clean,
    ⟨body, present, content.trans told.symm⟩, headed⟩

/-! ## What the server is handed -/

/-- What the client sent, as the server understands it. -/
def unfolded (host : Bytes) (hidden : Request σ → List WireRequest)
    (sent : List (Request σ)) : List WireRequest :=
  sent.flatMap fun request => outerOf host request :: hidden request

section Unfolded

variable {hidden : Request σ → List WireRequest} {sent : List (Request σ)}
  (smuggle : ∀ request ∈ sent, Smuggles fs host request (hidden request))
include smuggle

/-- What the client sent goes out as those requests. -/
theorem unfolded_wire :
    sent.flatMap (requestWire fs (Session.startedHead host)) =
      (unfolded host hidden sent).flatMap WireRequest.wire := by
  rw [unfolded, List.flatMap_assoc]
  exact List.flatMap_congr fun request member => (smuggle request member).wire

/-- Each of those requests has a clean head and no body. -/
theorem unfolded_headed : ∀ frame ∈ unfolded host hidden sent, frame.Headed := by
  intro frame member
  obtain ⟨request, inside, frame⟩ := List.mem_flatMap.mp member
  exact (smuggle request inside).headed _ frame

end Unfolded

variable {place : Place} {Answers : Event RequestLine τ → Response τ → Prop}
  {c : Conversation σ τ} {hidden : Request σ → List WireRequest}

/-- In every run the application of the server is handed the requests that lie in the bodies, as if
they had been sent: each behind the one whose body it lies in, which comes without a body. -/
theorem conversation_smuggles (reached : (conversation place Answers).Reachable c)
    (smuggle : ∀ request ∈ c.client.sent, Smuggles place.clientFs place.host request
      (hidden request)) :
    List.Forall₂ RequestArrives ((unfolded place.host hidden c.client.sent).take c.requests.length)
      c.requests := by
  have inv := conversation_inv reached
  have front := inv.requests_begin
  rw [unfolded_wire smuggle] at front
  have arrived := arrived_first place.serverSetting httpRequestParser_lawful
    (heads_framing place.serverSide place.serverHolds place.serverFiles) RequestPuts.hands
    (unfolded_headed smuggle) inv.upstream front
  rwa [← filter_handsOver] at arrived

/-- A response that came answers a request, hidden or not. -/
def AnswersFrame (place : Place) (Answers : Event RequestLine τ → Response τ → Prop)
    (frame : WireRequest) (event : Event ResponseLine σ) : Prop :=
  ∃ asked answer, RequestArrives frame asked ∧ Answers asked answer ∧
    ResponseComes place.serverFs answer event

/-- Where nothing is left to do, the application of the client got a response to each request, also
to those that lie in bodies. -/
theorem conversation_desynced (reached : (conversation place Answers).Reachable c)
    (smuggle : ∀ request ∈ c.client.sent, Smuggles place.clientFs place.host request
      (hidden request))
    (near : ∀ frame ∈ unfolded place.host hidden c.client.sent, frame.Near)
    (transmits : ∀ response ∈ c.server.sent, Sendable place.serverFs response ∧
      NearResponse (inMemory place.serverFs response))
    (rest : AtRest c) :
    List.Forall₂ (AnswersFrame place Answers) (unfolded place.host hidden c.client.sent)
      c.responses := by
  have inv := conversation_inv reached
  have paid := inv.client.paid rest.clientIdle rest.clientEmpty
  have asked := arrived_all place.serverSetting httpRequestParser_lawful
    (heads_framing place.serverSide place.serverHolds place.serverFiles) RequestPuts.hands
    (unfolded_headed smuggle) inv.upstream near (paid.trans (unfolded_wire smuggle)) rest.up
  rw [← filter_handsOver] at asked
  exact inv.answeredAll asked transmits rest

/-! ## One post -/

/-- The request that is hidden. -/
def hiddenGet : WireRequest where
  method := ascii "GET"
  target := ascii "/"
  version := ascii "HTTP/1.1"
  headers := []
  body := []

/-- What `raw_request` makes of the bytes of that request. -/
def postedGet : Request ListMultimap where
  line := { method := ascii "POST" }
  head := empty
  body := some (.raw { RawBody.generate with
    body := hiddenGet.wire, writePos := hiddenGet.wire.length })

/-- The posted request is what `raw_request` makes of the bytes. -/
theorem postedGet_made :
    (Service.Post.raw (ascii "POST") (ascii "/") hiddenGet.wire
      (none : Option ListMultimap)).request linux bare.clientFs =
        some (postedGet, bare.clientFs) := rfl

/-- The posted request smuggles the hidden one. -/
theorem postedGet_smuggles : Smuggles bare.clientFs bare.host postedGet [hiddenGet] := by
  refine post_smuggles postedGet_made rfl (by decide) (by decide) (by decide) ?_
  intro inner member
  rw [List.mem_singleton.mp member]
  exact ⟨by decide, by decide, by decide, by decide, rfl⟩

/-- One request is sent, and two are answered. -/
theorem post_reached :
    ∃ c : Conversation ListMultimap ListMultimap, (conversation bare SameAnswer).Reachable c ∧
      c.client.sent = [postedGet] ∧ c.server.sent = [plainResponse, plainResponse] ∧ AtRest c ∧
      c.requests.length = 2 := by
  refine ⟨?last, ⟨_, [.client (.send postedGet), .client .connect, .client (.read 1000),
    .client (.read 1000), .client (.read 1000), .client (.read 1000), .toServer 1000,
    .server .connect, .answer plainResponse, .answer plainResponse, .server (.read 1000),
    .server (.read 1000), .server (.read 1000), .server (.read 1000), .server (.read 1000),
    .server (.read 1000), .server (.read 1000), .toClient 1000], rfl, ?run⟩, ?rest⟩
  case run =>
    refine .cons trivial (.client (.send rfl rfl)) ?_
    refine .cons trivial (.client .connect) ?_
    refine .cons trivial (.reads (by decide) (by decide +kernel) (by decide +kernel)) ?_
    refine .cons trivial (.reads (by decide) (by decide +kernel) (by decide +kernel)) ?_
    refine .cons trivial (.reads (by decide) (by decide +kernel) (by decide +kernel)) ?_
    refine .cons trivial (.reads (by decide) (by decide +kernel) (by decide +kernel)) ?_
    refine .cons trivial (.takes (by decide +kernel)) ?_
    refine .cons trivial (.server .connect rfl) ?_
    refine .cons trivial (.answer (Option.some_get (by decide +kernel)).symm rfl (.send rfl rfl)) ?_
    refine .cons trivial (.answer (Option.some_get (by decide +kernel)).symm rfl (.send rfl rfl)) ?_
    refine .cons trivial (.serves (by decide) (by decide +kernel) (by decide +kernel)) ?_
    refine .cons trivial (.serves (by decide) (by decide +kernel) (by decide +kernel)) ?_
    refine .cons trivial (.serves (by decide) (by decide +kernel) (by decide +kernel)) ?_
    refine .cons trivial (.serves (by decide) (by decide +kernel) (by decide +kernel)) ?_
    refine .cons trivial (.serves (by decide) (by decide +kernel) (by decide +kernel)) ?_
    refine .cons trivial (.serves (by decide) (by decide +kernel) (by decide +kernel)) ?_
    refine .cons trivial (.serves (by decide) (by decide +kernel) (by decide +kernel)) ?_
    refine .cons trivial (.gets (by decide +kernel)) ?_
    exact .nil _
  case rest =>
    refine ⟨rfl, rfl, ⟨?_, ?_, ?_, ?_, ?_, ?_, ?_⟩, ?_⟩
    · exact Option.isNone_iff_eq_none.mp (by decide +kernel)
    · exact List.isEmpty_iff.mp (by decide +kernel)
    · exact Option.isNone_iff_eq_none.mp (by decide +kernel)
    · exact List.isEmpty_iff.mp (by decide +kernel)
    · decide +kernel
    · decide +kernel
    · decide +kernel
    · decide +kernel

/-- The server is handed the request and the one in its body. -/
theorem conversation_smuggles_post :
    ∃ c : Conversation ListMultimap ListMultimap, (conversation bare SameAnswer).Reachable c ∧
      c.client.sent = [postedGet] ∧
      List.Forall₂ RequestArrives [outerOf bare.host postedGet, hiddenGet] c.requests := by
  obtain ⟨c, reached, sent, _, _, two⟩ := post_reached
  have came := @conversation_smuggles _ _ _ _ _ _ _ (fun _ => [hiddenGet]) reached
    (by simp [sent, postedGet_smuggles])
  rw [sent, two] at came
  exact ⟨c, reached, sent, came⟩

/-- The client sent one request and got two responses. -/
theorem conversation_desynced_post :
    ∃ c : Conversation ListMultimap ListMultimap, (conversation bare SameAnswer).Reachable c ∧
      c.client.sent = [postedGet] ∧
      List.Forall₂ (AnswersFrame bare SameAnswer) [outerOf bare.host postedGet, hiddenGet]
        c.responses := by
  obtain ⟨c, reached, sent, answered, rest, _⟩ := post_reached
  have near : ∀ frame ∈ [outerOf bare.host postedGet, hiddenGet], frame.Near := by decide +kernel
  have came := @conversation_desynced _ _ _ _ _ _ _ (fun _ => [hiddenGet]) reached
    (by simp [sent, postedGet_smuggles]) (by rw [sent]; exact near)
    (by simp [answered, plainResponse_sendable]) rest
  rw [sent] at came
  exact ⟨c, reached, sent, came⟩

end Hnw.Http
