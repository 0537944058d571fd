import Hnw.Verif.Reading
import Hnw.Verif.Split

/-!
# A stream of requests

The constructor of a request installs a body that grows with what is written to it, and such a
body is complete at once. So the message is handed over with an empty body at the end of its
head, `auto_create_body` never runs, and the bytes of the body are read as the next start line.
-/

namespace Hnw.Parser

open Hnw.Http Hnw.Util Hnw.Util.UnorderedMultimap Hnw.Theory

/-- A request as a client sends it. -/
structure WireRequest where
  /-- The method. -/
  method : Bytes
  /-- The target. -/
  target : Bytes
  /-- The version. -/
  version : Bytes
  /-- The headers, in order. -/
  headers : List Entry
  /-- The body. -/
  body : Bytes
deriving DecidableEq

namespace WireRequest

/-- The start line. -/
def startLine (request : WireRequest) : Bytes :=
  request.method ++ blank :: (request.target ++ blank :: request.version)

/-- The bytes on the wire. -/
def wire (request : WireRequest) : Bytes :=
  request.startLine ++ (crlf ++ (request.headers.flatMap headLine ++ (crlf ++ request.body)))

/-- Words without blanks, headers without separators, and the size of the body in the one
`Content-Length` header. -/
structure WellFormed (request : WireRequest) : Prop where
  /-- The method is a word. -/
  method : Word request.method
  /-- The target is a word. -/
  target : Word request.target
  /-- The version is a word. -/
  version : Word request.version
  /-- The headers are clean. -/
  headers : ∀ entry ∈ request.headers, CleanEntry entry
  /-- There is one `Content-Length`. -/
  length : request.headers.filter (·.1 = httpLen) = [(httpLen, decimal request.body.length)]
  /-- The body is kept in memory. -/
  small : (request.body.length : Int) ≤ rawBodyLimit

/-- No `split` goes too far. -/
def Near (request : WireRequest) : Prop :=
  BytesNear blank request.startLine ∧ ∀ entry ∈ request.headers, ShortName entry

instance (request : WireRequest) : Decidable request.Near :=
  inferInstanceAs (Decidable (BytesNear blank request.startLine ∧
    ∀ entry ∈ request.headers, ShortName entry))

end WireRequest

variable {σ : Type} [UnorderedMultimap σ] {setting : Setting RequestLine σ} {files : Files}

/-- A request event with what was sent. -/
def RequestArrives (request : WireRequest) (event : Event RequestLine σ) : Prop :=
  ∃ line head,
    (@httpRequestParser σ _).setLine {} [request.method, request.target, request.version] =
      some line ∧ (toList head).Perm request.headers ∧ event = .recv line head request.body

/-- The chunks are understood as the requests: one event for each, in order, and the parser ends
in `START_LINE` with an empty line buffer. -/
def UnderstandsRequests (setting : Setting RequestLine σ) (files : Files)
    (requests : List WireRequest) (chunks : List Bytes) : Prop :=
  ∃ o, inputChunks setting (fresh setting files []) chunks = some o ∧
    List.Forall₂ RequestArrives requests (recvs o.out) ∧
    o.state.status = .startLine ∧ o.state.cache = []

/-! ## No body is ever received -/

/-- The states of a request parser whose application leaves the messages alone: it never gets
into a body. -/
structure Bodiless (s : ParserState RequestLine σ) : Prop where
  /-- The application leaves the messages alone. -/
  leaves : s.actions = []
  /-- The parser is before the body. -/
  before : s.status = .startLine ∨ s.status = .head
  /-- The body is the one the constructor installed. -/
  body : s.tmp.body = some (.raw RawBody.generate)

omit [UnorderedMultimap σ] in
/-- What the end of the head leads to: the request is handed over with an empty body. -/
theorem endOfHead_bodiless {s : ParserState RequestLine σ} (bodiless : Bodiless s) :
    endOfHead setting s =
      ⟨fresh setting s.files [],
        [.recvHead s.tmp.line s.tmp.head, .recv s.tmp.line s.tmp.head []], 1, none⟩ := by
  have event : headEvent setting s = some s := by rw [headEvent, bodiless.leaves]
  have made : createBody setting s = some s := by simp [createBody, bodiless.body]
  have complete : Body.isComplete (.raw RawBody.generate) = true := rfl
  simp only [endOfHead, event, made, enterBody, bodiless.body, complete, if_true, push,
    Body.content, reset, fresh, bodiless.leaves, Body.destroy, List.cons_append, List.nil_append,
    ite_self]
  rfl

omit [UnorderedMultimap σ] in
/-- Changes of the line, the head and the cache keep a parser before the body. -/
theorem Bodiless.edit {s : ParserState RequestLine σ} (bodiless : Bodiless s) {status : PStatus}
    {line : RequestLine} {head : σ} {cache : Bytes}
    (stays : status = .startLine ∨ status = .head) :
    Bodiless { s with status, tmp := { s.tmp with line, head }, cache } :=
  ⟨bodiless.leaves, stays, bodiless.body⟩

omit [UnorderedMultimap σ] in
/-- `on_start_line` keeps the parser before a body and puts nothing out. -/
theorem onStartLine_bodiless {s : ParserState RequestLine σ} (bodiless : Bodiless s)
    (ch : UInt8) :
    Bodiless (onStartLine setting s ch).state ∧ (onStartLine setting s ch).out = [] := by
  rcases onStartLine_cases setting s ch with ⟨_, call, _⟩ | call | ⟨_, call⟩
  · rw [call]
    exact ⟨bodiless, rfl⟩
  · rw [call]
    exact ⟨bodiless.edit bodiless.before, rfl⟩
  · rw [call]
    exact ⟨bodiless.edit (.inr rfl), rfl⟩

/-- An event that hands over no byte of a body. -/
def EmptyHanded {ι σ : Type} (event : Event ι σ) : Prop :=
  ∀ line head body, event = .recv line head body → body = []

/-- `on_head` keeps the parser before a body, and hands over empty bodies alone. -/
theorem onHead_bodiless (kind : setting.kind = httpRequestParser)
    {s : ParserState RequestLine σ} (bodiless : Bodiless s) (ch : UInt8) :
    Bodiless (onHead setting s ch).state ∧
      ∀ event ∈ (onHead setting s ch).out, EmptyHanded event := by
  have generated : setting.kind.generate.body = some (.raw RawBody.generate) := by
    rw [kind]
    rfl
  rcases onHead_cases setting s ch with ⟨_, _, call⟩ | ⟨_, call, _⟩ | call | ⟨_, call⟩
  · rw [call, endOfHead_bodiless bodiless]
    refine ⟨⟨rfl, .inl rfl, generated⟩, ?_⟩
    intro event member line head body same
    subst same
    have last : line = s.tmp.line ∧ head = s.tmp.head ∧ body = [] := by simpa using member
    exact last.2.2
  · rw [call]
    exact ⟨bodiless, by simp⟩
  · rw [call]
    exact ⟨bodiless.edit bodiless.before, by simp⟩
  · rw [call]
    exact ⟨bodiless.edit (.inr rfl), by simp⟩

/-- Every call leaves the parser before a body, and hands over empty bodies alone. -/
theorem callParserCb_bodiless (kind : setting.kind = httpRequestParser)
    {s : ParserState RequestLine σ} (bodiless : Bodiless s) (data : Bytes) :
    Bodiless (callParserCb setting s data).state ∧
      ∀ event ∈ (callParserCb setting s data).out, EmptyHanded event := by
  cases data with
  | nil => exact ⟨bodiless, by simp [callParserCb]⟩
  | cons ch rest =>
    rcases bodiless.before with status | status <;> simp only [callParserCb, status]
    · obtain ⟨kept, none⟩ := @onStartLine_bodiless _ setting _ bodiless ch
      exact ⟨kept, by simp [none]⟩
    · exact onHead_bodiless kind bodiless ch

/-- Whatever is delivered to a request parser, it hands over empty bodies alone. -/
theorem inputChunks_emptyHanded (kind : setting.kind = httpRequestParser) {chunks : List Bytes}
    {o : Outcome (ParserState RequestLine σ) (Event RequestLine σ) Stop}
    (found : inputChunks setting (fresh setting files []) chunks = some o) :
    ∀ event ∈ o.out, EmptyHanded event := by
  have start : Bodiless (fresh setting files []) := by
    refine ⟨rfl, .inl rfl, ?_⟩
    rw [fresh, kind]
    rfl
  exact deliver_forall Bodiless EmptyHanded
    (fun _ chunk bodiless _ => (callParserCb_bodiless kind bodiless chunk).1)
    (fun _ chunk bodiless _ => (callParserCb_bodiless kind bodiless chunk).2) start found

/-! ## Requests without a body -/

/-- The query of a short target is read. -/
theorem readQuery_short (line : RequestLine) {q : Bytes} (short : q.length < 2 ^ 31) :
    ∃ next, RequestLine.readQuery line q = some next := by
  obtain ⟨pieces, found, some_, _⟩ := @split_short q (ascii "=") (by decide) short
  rw [RequestLine.readQuery, found]
  match pieces with
  | [] => exact absurd rfl some_
  | [key] => exact ⟨_, rfl⟩
  | key :: value :: _ => exact ⟨_, rfl⟩

/-- All queries of a short target are read. -/
theorem readQueries_short (line : RequestLine) {queries : List Bytes}
    (short : ∀ q ∈ queries, q.length < 2 ^ 31) :
    ∃ next, queries.foldlM RequestLine.readQuery line = some next := by
  induction queries generalizing line with
  | nil => exact ⟨line, rfl⟩
  | cons q queries ih =>
    obtain ⟨next, read⟩ := readQuery_short line (short q (by simp))
    obtain ⟨last, rest⟩ := ih next fun other member => short other (by simp [member])
    exact ⟨last, by rw [List.foldlM_cons, read]; exact rest⟩

/-- A short target is understood. -/
theorem setUrl_short (line : RequestLine) {target : Bytes} (short : target.length < 2 ^ 31) :
    ∃ next, RequestLine.setUrl line target = some next := by
  obtain ⟨pieces, found, some_, bound⟩ :=
    @split_short target (ascii "?") (by decide) short
  rw [RequestLine.setUrl, found]
  match pieces with
  | [] => exact absurd rfl some_
  | [path] => exact ⟨_, rfl⟩
  | path :: query :: _ =>
    have length := bound query (by simp)
    obtain ⟨queries, parts, _, bounds⟩ :=
      @split_short query (ascii "&") (by decide) (by omega)
    obtain ⟨next, read⟩ := @readQueries_short { line with path } queries fun q member => by
      have := bounds q member
      omega
    refine ⟨next, ?_⟩
    simp only [Option.bind_eq_bind, Option.bind_some, parts]
    exact read

/-- A start line whose blanks are near is understood. -/
theorem setLine_near {request : WireRequest} (near : BytesNear blank request.startLine)
    (line : RequestLine) :
    ∃ next, (@httpRequestParser σ _).setLine line
      [request.method, request.target, request.version] = some next := by
  have short : request.target.length < 2 ^ 31 := by
    have := near.words
    omega
  obtain ⟨next, url⟩ := setUrl_short { line with method := request.method } short
  exact ⟨{ next with version := request.version }, by simp [httpRequestParser, url]⟩

/-- A request with no body whose head is clean, whatever its `Content-Length` says. -/
structure WireRequest.Headed (request : WireRequest) : Prop where
  /-- The method is a word. -/
  method : Word request.method
  /-- The target is a word. -/
  target : Word request.target
  /-- The version is a word. -/
  version : Word request.version
  /-- The headers are clean. -/
  headers : ∀ entry ∈ request.headers, CleanEntry entry
  /-- There is no body. -/
  bodiless : request.body = []

/-- A start line of words is a text of one line. -/
theorem WireRequest.Headed.lineFree {request : WireRequest} (headed : request.Headed) :
    LineFree request.startLine :=
  lineFree_words headed.method headed.target headed.version.2

/-- A well formed request without a body has a clean head. -/
theorem WireRequest.WellFormed.headed {request : WireRequest} (formed : request.WellFormed)
    (bodiless : request.body = []) : request.Headed :=
  ⟨formed.method, formed.target, formed.version, formed.headers, bodiless⟩

/-- What a good request puts out. -/
def RequestPuts (request : WireRequest) (out : List (Event RequestLine σ)) : Prop :=
  ∃ line head event, out = [.recvHead line head, event] ∧ RequestArrives request event

/-- Heads of requests are frames: the parser does not look at the length of a body. -/
theorem heads_framing (surroundings : Surroundings) (holds : Bool) (files : Files) :
    Framing (callParserCb ⟨@httpRequestParser σ _, surroundings, holds⟩)
      (fresh ⟨httpRequestParser, surroundings, holds⟩ files []) WireRequest.wire
      WireRequest.Headed WireRequest.Near RequestPuts Stop.fault where
  reads request formed near := by
    obtain ⟨line, sets⟩ := @setLine_near σ _ _ near.1 {}
    obtain ⟨words, found, _, last⟩ := split_words formed.method.1 formed.target.1 near.1
    rw [last formed.version.1] at found
    let head : σ := addHeads empty request.headers
    have perm : (toList head).Perm request.headers := addHeads_empty_perm request.headers
    refine ⟨[.recvHead line head, .recv line head []], ⟨line, head, _, rfl, line, head, sets, perm,
      by rw [formed.bodiless]⟩, fun more o rest => ?_⟩
    rw [WireRequest.wire, formed.bodiless, List.append_nil, List.append_assoc, List.append_assoc,
      List.append_assoc]
    apply reads_startLine rfl rfl formed.lineFree found (by simp) sets
    have ends := @endOfHead_bodiless σ ⟨httpRequestParser, surroundings, holds⟩
      { (fresh ⟨httpRequestParser, surroundings, holds⟩ files [] : ParserState RequestLine σ) with
        tmp := { line, head, body := some (.raw RawBody.generate) }, status := .head }
      ⟨rfl, .inr rfl, rfl⟩
    exact reads_head rfl rfl formed.headers near.2 ends rest
  stops request formed far more := by
    rw [WireRequest.wire, List.append_assoc, List.append_assoc, List.append_assoc]
    by_cases near : BytesNear blank request.startLine
    · obtain ⟨line, sets⟩ := @setLine_near σ _ _ near {}
      obtain ⟨words, found, _, last⟩ := split_words formed.method.1 formed.target.1 near
      rw [last formed.version.1] at found
      have long : ∃ entry ∈ request.headers, ¬ ShortName entry := by
        by_contra none
        exact far ⟨near, by simpa using none⟩
      obtain ⟨last, read⟩ := @reads_headers_long _ _ _ ⟨httpRequestParser, surroundings, holds⟩
        { (fresh ⟨httpRequestParser, surroundings, holds⟩ files [] : ParserState RequestLine σ) with
          tmp := { (Request.generate : Request σ) with line }, status := .head } request.headers
        (crlf ++ request.body ++ more) rfl rfl formed.headers long
      refine ⟨last, reads_startLine rfl rfl formed.lineFree found (by simp) sets ?_⟩
      rw [List.append_assoc] at read
      exact read
    · exact reads_startLine_long _ rfl rfl formed.lineFree (split_words_long near)

/-- Requests without a body are frames. -/
theorem requests_framing (surroundings : Surroundings) (holds : Bool) (files : Files) :
    Framing (callParserCb ⟨@httpRequestParser σ _, surroundings, holds⟩)
      (fresh ⟨httpRequestParser, surroundings, holds⟩ files []) WireRequest.wire
      (fun request => request.WellFormed ∧ request.body = []) WireRequest.Near RequestPuts
      Stop.fault where
  reads request valid := (heads_framing surroundings holds files).reads request
    (valid.1.headed valid.2)
  stops request valid := (heads_framing surroundings holds files).stops request
    (valid.1.headed valid.2)

/-! ## What is understood -/

/-- A good request hands itself over. -/
theorem RequestPuts.hands (request : WireRequest) (out : List (Event RequestLine σ))
    (puts : RequestPuts request out) :
    ∃ event, recvs out = [event] ∧ RequestArrives request event := by
  obtain ⟨line, head, event, rfl, arrives⟩ := puts
  obtain ⟨_, _, _, _, rfl⟩ := id arrives
  exact ⟨_, rfl, arrives⟩

/-- Requests cut into chunks in any way are understood exactly when none has a body and `split`
gets through every line. -/
theorem understandsRequests_iff (surroundings : Surroundings) (holds : Bool) (files : Files)
    {requests : List WireRequest} (formed : ∀ request ∈ requests, request.WellFormed)
    {chunks : List Bytes} (cut : chunks.flatten = requests.flatMap WireRequest.wire) :
    UnderstandsRequests ⟨@httpRequestParser σ _, surroundings, holds⟩ files requests chunks ↔
      ∀ request ∈ requests, request.body = [] ∧ request.Near := by
  have lawful := @httpRequestParser_lawful σ _
  have framing := @requests_framing σ _ surroundings holds files
  constructor
  · intro understands
    have bodiless : ∀ request ∈ requests, request.body = [] := by
      obtain ⟨o, found, arrive, _, _⟩ := understands
      intro request member
      obtain ⟨event, inside, line, head, _, _, same⟩ := forall₂_exists arrive member
      exact inputChunks_emptyHanded rfl found event (List.mem_filter.mp inside).1 _ _ _ same
    have valid : ∀ request ∈ requests, request.WellFormed ∧ request.body = [] :=
      fun request member => ⟨formed request member, bodiless request member⟩
    have near := (understands_iff lawful framing RequestPuts.hands valid cut).mp understands
    exact fun request member => ⟨bodiless request member, near request member⟩
  · intro all
    have valid : ∀ request ∈ requests, request.WellFormed ∧ request.body = [] :=
      fun request member => ⟨formed request member, (all request member).1⟩
    apply (understands_iff lawful framing RequestPuts.hands valid cut).mpr
    exact fun request member => (all request member).2

/-- A request for `/` with a body. -/
def plainRequest (body : Bytes) : WireRequest where
  method := ascii "POST"
  target := ascii "/"
  version := ascii "HTTP/1.1"
  headers := [(ascii "Host", ascii "h"), (httpLen, decimal body.length)]
  body

/-- Two requests without a body, cut inside of a line end. -/
theorem understandsRequests_two :
    @UnderstandsRequests ListMultimap _ ⟨httpRequestParser, ⟨linux, fun _ => []⟩, false⟩
      ⟨fun _ => none, 0⟩ [plainRequest [], plainRequest []]
      [(plainRequest []).wire.take 16,
        (plainRequest []).wire.drop 16 ++ (plainRequest []).wire] := by
  have formed : (plainRequest []).WellFormed :=
    ⟨by decide, by decide, by decide, by decide, by decide, by decide⟩
  exact (understandsRequests_iff _ _ _ (by simp [formed]) (by decide)).mpr (by decide)

/-- The bytes of a body are read as the start line of another request. -/
theorem body_not_understood :
    ¬ ∀ (files : Files) (requests : List WireRequest), (∀ request ∈ requests, request.WellFormed) →
      ∀ chunks : List Bytes, chunks.flatten = requests.flatMap WireRequest.wire →
      @UnderstandsRequests ListMultimap _ ⟨httpRequestParser, ⟨linux, fun _ => []⟩, false⟩
        files requests chunks := by
  intro always
  have formed : (plainRequest (ascii "ab")).WellFormed :=
    ⟨by decide, by decide, by decide, by decide, by decide, by decide⟩
  have left : (@inputChunks _ ListMultimap _ ⟨httpRequestParser, ⟨linux, fun _ => []⟩, false⟩
      (fresh ⟨httpRequestParser, ⟨linux, fun _ => []⟩, false⟩ ⟨fun _ => none, 0⟩ [])
      [(plainRequest (ascii "ab")).wire]).map (·.state.cache) = some (ascii "ab") := by
    decide +kernel
  obtain ⟨o, found, _, _, empty⟩ := always ⟨fun _ => none, 0⟩ [plainRequest (ascii "ab")]
    (by simp [formed]) [(plainRequest (ascii "ab")).wire] (by simp)
  rw [found, Option.map_some, empty] at left
  cases left

end Hnw.Parser
