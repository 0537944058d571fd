import Hnw.Verif.Prepared
import Hnw.Verif.Split

/-!
# Responses from end to end

What a server session emits is read back by a response parser, whatever buffers the transport
offers on one side and whatever chunks arrive on the other, as long as `split` gets through the
status line and the headers.
-/

namespace Hnw.Parser

open Hnw.Http Hnw.Util Hnw.Util.UnorderedMultimap Hnw.Theory

variable {τ : Type} [UnorderedMultimap τ] {surroundings : Surroundings} {holds : Bool}

/-! ## One body -/

/-- Where a head has one `Content-Length`, that is the declared size. -/
theorem declaredSize_unique {message : Message ResponseLine τ} {size : Nat}
    (one : ((toList message.head).filter (·.1 = httpLen)).Perm [(httpLen, decimal size)])
    (small : size < 2 ^ 63) : message.declaredSize = size := by
  have found : UnorderedMultimap.find message.head httpLen = some (httpLen, decimal size) := by
    rw [UnorderedMultimap.find, ← List.head?_filter, List.perm_singleton.mp one]
    rfl
  simp [Message.declaredSize, getHeadInt64, getHead, found, decimal_ne_nil, stoll_decimal small]

/-- A response parser at the end of a head. -/
structure AtHeadEnd (s : ParserState ResponseLine τ) (size : Nat) : Prop where
  /-- It is in the head. -/
  status : s.status = .head
  /-- The application leaves the messages alone. -/
  leaves : s.actions = []
  /-- There is no body yet. -/
  none : s.tmp.body = none
  /-- The size is declared. -/
  declared : s.tmp.declaredSize = size
  /-- The body is kept in memory. -/
  small : (size : Int) ≤ rawBodyLimit

/-- The state in which the body is received. -/
def entered (s : ParserState ResponseLine τ) (size : Nat) : ParserState ResponseLine τ :=
  { s with status := .body,
           tmp := { s.tmp with body := some (.raw (RawBody.generateSized size)) } }

/-- A new raw body has the capacity it is asked for. -/
theorem generateSized_capacity {size : Nat} (small : (size : Int) ≤ rawBodyLimit) :
    RawBody.generateSized size = { maximumCapacity := size, increment := false } := by
  have limit : rawBodyLimit = 10485760 := rfl
  rw [RawBody.generateSized, Int.emod_eq_of_lt (by omega) (by omega), Int.toNat_natCast]

/-- The body that is made at the end of a head. -/
theorem createBody_response {s : ParserState ResponseLine τ} {size : Nat}
    (atEnd : AtHeadEnd s size) :
    createBody ⟨httpResponseParser, surroundings, holds⟩ s =
      some { s with tmp := { s.tmp with body := some (.raw (RawBody.generateSized size)) } } := by
  have created : Response.autoCreateBody surroundings s.files s.tmp =
      some ({ s.tmp with body := some (.raw (RawBody.generateSized size)) }, s.files) := by
    simp only [Response.autoCreateBody, atEnd.declared, if_pos atEnd.small]
  rw [createBody, if_pos (.inl atEnd.none)]
  show (Response.autoCreateBody surroundings s.files s.tmp).map _ = _
  rw [created, Option.map_some]

/-- What the end of a head leads to. -/
theorem endOfHead_response {s : ParserState ResponseLine τ} {size : Nat}
    (atEnd : AtHeadEnd s size) :
    endOfHead ⟨httpResponseParser, surroundings, holds⟩ s =
      enterBody ⟨httpResponseParser, surroundings, holds⟩
        { s with tmp := { s.tmp with body := some (.raw (RawBody.generateSized size)) } }
        [.recvHead s.tmp.line s.tmp.head] := by
  have event : headEvent ⟨httpResponseParser, surroundings, holds⟩ s = some s := by
    rw [headEvent, atEnd.leaves]
  simp only [endOfHead, event, createBody_response atEnd]

/-- The end of a head without a body hands the response over. -/
theorem endOfHead_noBody {s : ParserState ResponseLine τ} (atEnd : AtHeadEnd s 0) :
    endOfHead ⟨httpResponseParser, surroundings, holds⟩ s =
      ⟨fresh ⟨httpResponseParser, surroundings, holds⟩ s.files [],
        [.recvHead s.tmp.line s.tmp.head, .recv s.tmp.line s.tmp.head []], 1, none⟩ := by
  have complete : Body.isComplete (.raw (RawBody.generateSized (0 : Nat))) = true := rfl
  rw [endOfHead_response atEnd]
  simp only [enterBody, complete, if_true, push, reset, fresh, atEnd.leaves, Body.destroy,
    ite_self]
  rfl

/-- The end of a head with a body gets the parser into the body. -/
theorem endOfHead_body {s : ParserState ResponseLine τ} {size : Nat} (atEnd : AtHeadEnd s size)
    (some_ : 0 < size) :
    endOfHead ⟨httpResponseParser, surroundings, holds⟩ s =
      ⟨entered s size, [.recvHead s.tmp.line s.tmp.head], 1, none⟩ := by
  have waits : Body.isComplete (.raw (RawBody.generateSized size)) = false := by
    rw [generateSized_capacity atEnd.small]
    simp only [Body.isComplete, RawBody.isComplete, RawBody.bodySize, Bool.false_or,
      beq_eq_false_iff_ne, List.length_nil]
    omega
  rw [endOfHead_response atEnd]
  simp only [enterBody, waits, entered, Bool.false_eq_true, if_false]

/-- A new raw body takes as many bytes as it is asked for. -/
theorem generateSized_left {fs : FileSystem} {size : Nat} (some_ : 0 < size)
    (small : (size : Int) ≤ rawBodyLimit) :
    Body.Accepting fs (.raw (RawBody.generateSized size)) ∧
      Body.left (.raw (RawBody.generateSized size)) = size := by
  rw [generateSized_capacity small]
  exact ⟨⟨rfl, rfl, some_⟩, rfl⟩

/-- Bytes of a body that is not complete with them are read. -/
theorem reads_bodyPart {s : ParserState ResponseLine τ} {size : Nat} (atEnd : AtHeadEnd s size)
    {body : Bytes} (part : body.length < size) :
    ∃ last, InputData ⟨httpResponseParser, surroundings, holds⟩ (entered s size) body
      ⟨last, [], none⟩ := by
  by_cases nothing : body = []
  · subst nothing
    exact ⟨_, returns_nil⟩
  obtain ⟨accepting, left⟩ :=
    @generateSized_left s.files.fs size (Nat.zero_lt_of_lt part) atEnd.small
  have took := @onBody_eq _ _ ⟨httpResponseParser, surroundings, holds⟩ (entered s size)
    _ rfl accepting body
  simp only [left, if_neg (Nat.not_le.mpr part)] at took
  have read := @inputData_body _ _ ⟨httpResponseParser, surroundings, holds⟩ (entered s size) _
    rfl _ rfl accepting body nothing (by rw [left]; exact Nat.le_of_lt part)
  rw [took] at read
  exact ⟨_, read⟩

/-- The bytes of a body are read, whatever follows them. -/
theorem reads_body {s : ParserState ResponseLine τ} {body : Bytes} (atEnd : AtHeadEnd s body.length)
    (some_ : body ≠ []) {more : Bytes}
    {o : Outcome (ParserState ResponseLine τ) (Event ResponseLine τ) Stop}
    (rest : InputData ⟨httpResponseParser, surroundings, holds⟩
      (fresh ⟨httpResponseParser, surroundings, holds⟩ s.files []) more o) :
    InputData ⟨httpResponseParser, surroundings, holds⟩ (entered s body.length) (body ++ more)
      (o.after [.recv s.tmp.line s.tmp.head body]) := by
  have length := List.length_pos_iff.mpr some_
  have raw := generateSized_capacity atEnd.small
  obtain ⟨accepting, left⟩ := @generateSized_left s.files.fs body.length length atEnd.small
  have fits : body.length ≤ (body ++ more).length := by
    rw [List.length_append]
    omega
  have written : (Body.writeBody s.files.fs (body ++ more)
      (.raw (RawBody.generateSized body.length))) =
        (body.length, .raw ⟨body, body.length, false, 0, body.length⟩, s.files.fs) := by
    have eq := RawBody.writeBody_eq accepting (body ++ more)
    have least : min (body ++ more).length (body.length - 0) = body.length := by
      rw [List.length_append]
      omega
    rw [raw] at eq ⊢
    simp only [Body.writeBody, eq, least, List.take_left, List.nil_append, Nat.zero_add]
  have call : callParserCb ⟨httpResponseParser, surroundings, holds⟩ (entered s body.length)
      (body ++ more) = ⟨fresh ⟨httpResponseParser, surroundings, holds⟩ s.files [],
        [.recv s.tmp.line s.tmp.head body], body.length, none⟩ := by
    have took := @onBody_eq _ _ ⟨httpResponseParser, surroundings, holds⟩ (entered s body.length)
      _ rfl accepting (body ++ more)
    simp only [left, if_pos fits] at took
    rw [callParserCb_body rfl (List.append_ne_nil_of_left_ne_nil some_ more), took]
    simp only [entered, written, push, reset, fresh, atEnd.leaves, Body.destroy, Body.content,
      List.nil_append, ite_self]
  have read := returns_of_next (callParserCb ⟨httpResponseParser, surroundings, holds⟩)
    (entered s body.length) (List.append_ne_nil_of_left_ne_nil some_ more) (by rw [call])
    (by rw [call, List.drop_left]; exact rest)
  rw [call] at read
  exact read

/-! ## One response -/

/-- A new response parser behind a status line. -/
def behindLine (surroundings : Surroundings) (holds : Bool) (files : Files)
    (line : ResponseLine) : ParserState ResponseLine τ :=
  { (fresh ⟨httpResponseParser, surroundings, holds⟩ files [] : ParserState ResponseLine τ) with
    tmp := { (Response.generate : Response τ) with line }, status := .head }

/-- Headers and body behind a status line are read, whatever follows them. -/
theorem reads_headAndBody {files : Files} {line : ResponseLine} {entries : List Entry}
    {body more : Bytes} (clean : ∀ entry ∈ entries, CleanEntry entry)
    (short : ∀ entry ∈ entries, ShortName entry)
    (one : entries.filter (·.1 = httpLen) = [(httpLen, decimal body.length)])
    (small : (body.length : Int) ≤ rawBodyLimit)
    {o : Outcome (ParserState ResponseLine τ) (Event ResponseLine τ) Stop}
    (rest : InputData ⟨httpResponseParser, surroundings, holds⟩
      (fresh ⟨httpResponseParser, surroundings, holds⟩ files []) more o) :
    InputData ⟨httpResponseParser, surroundings, holds⟩
      (behindLine surroundings holds files line : ParserState ResponseLine τ)
      (entries.flatMap headLine ++ (crlf ++ (body ++ more)))
      (o.after [.recvHead line (addHeads empty entries),
        .recv line (addHeads empty entries) body]) := by
  have limit : rawBodyLimit = 10485760 := rfl
  have perm : (toList (addHeads (empty : τ) entries)).Perm entries :=
    addHeads_empty_perm entries
  have unique : ((toList (addHeads (empty : τ) entries)).filter (·.1 = httpLen)).Perm
      [(httpLen, decimal body.length)] := by
    rw [← one]
    exact perm.filter _
  have atEnd : AtHeadEnd
      { (behindLine surroundings holds files line : ParserState ResponseLine τ) with
        tmp := ⟨line, addHeads empty entries, none⟩ } body.length :=
    ⟨rfl, rfl, rfl, declaredSize_unique unique (by omega), small⟩
  by_cases nothing : body = []
  · subst nothing
    exact reads_head rfl rfl clean short (endOfHead_noBody atEnd) rest
  · have read := reads_body atEnd nothing rest
    have whole := @reads_head _ _ _ ⟨httpResponseParser, surroundings, holds⟩
      (behindLine surroundings holds files line) _ _ _ rfl rfl clean short _ _
      (endOfHead_body atEnd (List.length_pos_iff.mpr nothing)) read
    rw [Outcome.after_after] at whole
    exact whole

/-- Every `split` gets through the response. -/
def NearResponse {σ : Type} [UnorderedMultimap σ] (response : Response σ) : Prop :=
  BytesNear blank response.line.string ∧ ∀ entry ∈ toList response.head, ShortName entry

/-- A response event with what was sent: the version, the status code, the headers as they are
after `pre_send`, and the body. -/
def ResponseArrives {σ : Type} [UnorderedMultimap σ] (response : Response σ)
    (event : Event ResponseLine τ) : Prop :=
  ∃ line head body ready close,
    Session.preSendResponse Session.serverHead response = some (ready, close) ∧
      line.version = response.line.version ∧ line.statusCode = response.line.statusCode ∧
      (toList head).Perm (toList ready.head) ∧
      response.body.map (Body.content fun _ => none) = some body ∧ event = .recv line head body

/-- What a good response puts out. -/
def ResponsePuts {σ : Type} [UnorderedMultimap σ] (response : Response σ)
    (out : List (Event ResponseLine τ)) : Prop :=
  ∃ line head event, out = [.recvHead line head, event] ∧ ResponseArrives response event

section Sent

variable {σ : Type} [UnorderedMultimap σ] {fs : FileSystem}

/-- The bytes of a response that is made ready. -/
theorem responseWire_eq {response ready : Response σ} {close : Bool} {raw : RawBody}
    (made : Session.preSendResponse Session.serverHead response = some (ready, close))
    (prepared : Prepared response ready raw) (more : Bytes) :
    responseWire fs Session.serverHead response ++ more =
      response.line.string ++ (crlf ++ ((toList ready.head).flatMap headLine ++
        (crlf ++ (raw.body ++ more)))) := by
  simp only [responseWire, Session.queuedWire, made, Session.messageWire, prepared.line,
    prepared.body, Option.map_some, Option.getD_some, Body.content, headString, List.append_assoc]

/-- A status line as `split` sees it. -/
theorem statusLine_eq (line : ResponseLine) :
    line.string = line.version ++ blank :: (line.statusCode ++ blank :: line.reason) := by
  simp [ResponseLine.string, space]

/-- Words and a reason without line ends make a text of one line. -/
theorem statusLine_lineFree {line : ResponseLine} (version : Word line.version)
    (statusCode : Word line.statusCode) (reason : LineFree line.reason) :
    LineFree line.string := by
  rw [statusLine_eq]
  exact lineFree_words version statusCode reason

/-- The status line of a response that may be sent is a text of one line. -/
theorem transmittable_lineFree {response : Response σ} (sends : Transmittable response) :
    LineFree response.line.string :=
  statusLine_lineFree sends.version sends.statusCode sends.reason

/-- A status line whose blanks are near is understood. -/
theorem statusLine_near {response : Response σ} (sends : Transmittable response)
    (near : BytesNear blank response.line.string) :
    ∃ words line, split response.line.string space = some words ∧ 3 ≤ words.length ∧
      (@httpResponseParser τ _).setLine {} words = some line ∧
      line.version = response.line.version ∧ line.statusCode = response.line.statusCode := by
  rw [statusLine_eq] at near
  obtain ⟨pieces, found, some_, _⟩ := split_words sends.version.1 sends.statusCode.1 near
  rw [← statusLine_eq] at found
  refine ⟨_, _, found, ?_, rfl, rfl, rfl⟩
  have := List.length_pos_iff.mpr some_
  simp only [List.length_cons]
  omega

/-- The headers that are sent are clean, and short where those of the application are. -/
theorem prepared_headers {response ready : Response σ} {raw : RawBody}
    (sends : Transmittable response) (prepared : Prepared response ready raw) :
    (∀ entry ∈ toList ready.head, CleanEntry entry) ∧
      ((∀ entry ∈ toList ready.head, ShortName entry) ↔
        ∀ entry ∈ toList response.head, ShortName entry) := by
  refine ⟨fun entry member => ?_,
    fun short entry member => short entry (prepared.keeps entry member),
    fun short entry member => ?_⟩
  · exact (prepared.adds entry member).elim (sends.headers entry) fun added => added.clean.1
  · exact (prepared.adds entry member).elim (short entry) fun added => added.clean.2

/-- Responses are frames. -/
theorem responses_framing (files : Files) :
    Framing (callParserCb ⟨@httpResponseParser τ _, surroundings, holds⟩)
      (fresh ⟨httpResponseParser, surroundings, holds⟩ files [])
      (@responseWire σ _ fs Session.serverHead) Transmittable NearResponse ResponsePuts
      Stop.fault where
  reads response sends near := by
    obtain ⟨ready, close, raw, made, prepared, present, _, small⟩ := preSendResponse_prepared sends
    obtain ⟨words, line, found, three, sets, version, statusCode⟩ :=
      @statusLine_near τ _ σ _ _ sends near.1
    obtain ⟨clean, short⟩ := prepared_headers sends prepared
    have perm : (toList (addHeads (empty : τ) (toList ready.head))).Perm (toList ready.head) :=
      addHeads_empty_perm (toList ready.head)
    refine ⟨[.recvHead line (addHeads empty (toList ready.head)),
      .recv line (addHeads empty (toList ready.head)) raw.body],
      ⟨line, _, _, rfl, line, _, raw.body, ready, close, made, version, statusCode, perm,
        by rw [present]; rfl, rfl⟩, fun more o rest => ?_⟩
    rw [responseWire_eq made prepared]
    apply reads_startLine rfl rfl (transmittable_lineFree sends) found three sets
    exact reads_headAndBody clean (short.mpr near.2) prepared.length small rest
  stops response sends far more := by
    obtain ⟨ready, close, raw, made, prepared, present, _, small⟩ := preSendResponse_prepared sends
    obtain ⟨clean, short⟩ := prepared_headers sends prepared
    rw [responseWire_eq made prepared]
    by_cases near : BytesNear blank response.line.string
    · obtain ⟨words, line, found, three, sets, _, _⟩ := @statusLine_near τ _ σ _ _ sends near
      have long : ∃ entry ∈ toList ready.head, ¬ ShortName entry := by
        by_contra none
        refine far ⟨near, short.mp fun entry member => ?_⟩
        by_contra name
        exact none ⟨entry, member, name⟩
      obtain ⟨last, stops⟩ := @reads_headers_long _ _ _ ⟨httpResponseParser, surroundings, holds⟩
        (behindLine surroundings holds files line : ParserState ResponseLine τ) _
        (crlf ++ (raw.body ++ more)) rfl rfl clean long
      exact ⟨last, reads_startLine rfl rfl (transmittable_lineFree sends) found three sets stops⟩
    · exact reads_startLine_long _ rfl rfl (transmittable_lineFree sends) (split_words_long near)

/-! ## Many responses -/

/-- The chunks are understood as the responses: one event for each, in order, and the parser ends
in `START_LINE` with an empty line buffer. -/
def UnderstandsResponses (setting : Setting ResponseLine τ) (files : Files)
    (responses : List (Response σ)) (chunks : List Bytes) : Prop :=
  ∃ o, inputChunks setting (fresh setting files []) chunks = some o ∧
    List.Forall₂ ResponseArrives responses (recvs o.out) ∧
    o.state.status = .startLine ∧ o.state.cache = []

/-- Whatever room the buffers of the transport have, it gets bytes that are understood as the
responses, however they are cut. -/
def RoundTrips (fs : FileSystem) (setting : Setting ResponseLine τ) (files : Files)
    (responses : List (Response σ)) : Prop :=
  ∀ sizes : Nat → Nat, (∀ index, 0 < sizes index) → ∃ count bytes,
    Session.drain fs ((List.range count).map sizes) (Session.sendAll responses) = some bytes ∧
      ∀ chunks : List Bytes, chunks.flatten = bytes →
        UnderstandsResponses setting files responses chunks

/-- A good response hands itself over. -/
theorem ResponsePuts.hands (response : Response σ) (out : List (Event ResponseLine τ))
    (puts : ResponsePuts response out) :
    ∃ event, recvs out = [event] ∧ ResponseArrives response event := by
  obtain ⟨line, head, event, rfl, arrives⟩ := puts
  obtain ⟨_, _, _, _, _, _, _, _, _, _, rfl⟩ := id arrives
  exact ⟨_, rfl, arrives⟩

/-- What a session owes that was given responses. -/
theorem sendAll_owed {responses : List (Response σ)}
    (sends : ∀ response ∈ responses, Transmittable response) :
    Session.Ready fs (Session.sendAll responses) ∧
      Session.owed fs (Session.preSendResponse (Session.sendAll responses).sessionHead)
        ResponseLine.string (Session.sendAll responses) =
          responses.flatMap (responseWire fs Session.serverHead) := by
  obtain ⟨queue, idle, head⟩ := Session.sendAll_spec responses
  refine ⟨⟨fun message current => ?_, fun message member => ?_⟩, ?_⟩
  · rw [idle] at current
    cases current
  · rw [queue] at member
    obtain ⟨raw, present, unread, _⟩ := (sends message member).body
    exact ⟨_, present, unread⟩
  · rw [Session.owed, Session.currentRest, idle, queue, head]
    rfl

/-- Chunks of what is sent are understood exactly when `split` gets through every line. -/
theorem understandsResponses_iff (files : Files) {responses : List (Response σ)}
    (sends : ∀ response ∈ responses, Transmittable response) {chunks : List Bytes}
    (cut : chunks.flatten = responses.flatMap (responseWire fs Session.serverHead)) :
    UnderstandsResponses ⟨@httpResponseParser τ _, surroundings, holds⟩ files responses chunks ↔
      ∀ response ∈ responses, NearResponse response :=
  understands_iff httpResponseParser_lawful (responses_framing files) ResponsePuts.hands sends cut

/-- What makes the round trip, `split` gets through. -/
theorem RoundTrips.near {files : Files} {responses : List (Response σ)}
    (sends : ∀ response ∈ responses, Transmittable response)
    (trips : RoundTrips fs ⟨@httpResponseParser τ _, surroundings, holds⟩ files responses) :
    ∀ response ∈ responses, NearResponse response := by
  obtain ⟨count, bytes, drained, understands⟩ := trips (fun _ => 1) fun _ => Nat.one_pos
  obtain ⟨ready, owes⟩ := @sendAll_owed σ _ fs _ sends
  have room : ∀ size ∈ (List.range count).map fun _ => 1, 0 < size := by simp
  have sent := Session.drain_some ready room drained
  rw [owes] at sent
  have cut : [bytes].flatten = responses.flatMap (responseWire fs Session.serverHead) := by
    simpa using sent
  exact (understandsResponses_iff files sends cut).mp (understands [bytes] (by simp))

/-- What `split` gets through makes the round trip. -/
theorem roundTrips_of_near {files : Files} {responses : List (Response σ)}
    (sends : ∀ response ∈ responses, Transmittable response)
    (near : ∀ response ∈ responses, NearResponse response) :
    RoundTrips fs ⟨@httpResponseParser τ _, surroundings, holds⟩ files responses := by
  intro sizes room
  obtain ⟨ready, owes⟩ := @sendAll_owed σ _ fs _ sends
  let count := (responses.flatMap (responseWire fs Session.serverHead)).length + 1
  have positive : ∀ size ∈ (List.range count).map sizes, 0 < size := by
    intro size member
    obtain ⟨index, _, rfl⟩ := List.mem_map.mp member
    exact room index
  have enough : (Session.owed fs (Session.preSendResponse (Session.sendAll responses).sessionHead)
      ResponseLine.string (Session.sendAll responses)).length <
        ((List.range count).map sizes).length := by
    rw [owes, List.length_map, List.length_range]
    exact Nat.lt_succ_self _
  have drained := Session.drain_owed ready positive enough
  rw [owes] at drained
  exact ⟨count, _, drained, fun chunks cut => (understandsResponses_iff files sends cut).mpr near⟩

/-- Responses make the round trip exactly when `split` gets through every line. -/
theorem roundTrips_iff (fs : FileSystem) (surroundings : Surroundings) (holds : Bool)
    (files : Files) {responses : List (Response σ)}
    (sends : ∀ response ∈ responses, Transmittable response) :
    RoundTrips fs ⟨@httpResponseParser τ _, surroundings, holds⟩ files responses ↔
      ∀ response ∈ responses, NearResponse response :=
  ⟨RoundTrips.near sends, roundTrips_of_near sends⟩

end Sent

/-- A response with a body that looks like the end of a head. -/
def trickyResponse : Response ListMultimap where
  line := { statusCode := ascii "404", reason := ascii "Not Found" }
  head := addHead empty httpCt (ascii "text/plain")
  body := some (.raw { body := crlf ++ crlf, maximumCapacity := 0, increment := true })

/-- A response with a body that looks like the end of a head, sent twice. -/
theorem roundTrips_tricky :
    RoundTrips (fun _ => none)
      ⟨@httpResponseParser ListMultimap _, ⟨linux, fun _ => []⟩, false⟩ ⟨fun _ => none, 0⟩
      [trickyResponse, trickyResponse] := by
  have sends : Transmittable trickyResponse :=
    ⟨by decide, by decide, by decide, by decide, by decide, _, rfl, rfl, by decide⟩
  have near : NearResponse trickyResponse := ⟨by decide, by decide⟩
  exact (roundTrips_iff _ _ _ _ (by simp [sends])).mpr (by simp [near])

/-- A response with a long version. -/
def longVersion (size : Nat) : Response ListMultimap where
  line := { version := List.replicate size 118 }
  head := empty
  body := some (.raw RawBody.generate)

/-- A response with a long version may be sent. -/
theorem longVersion_transmittable (size : Nat) : Transmittable (longVersion size) := by
  have only : ∀ byte : UInt8, byte ≠ 118 → byte ∉ (longVersion size).line.version :=
    fun byte other member => other (List.mem_replicate.mp member).2
  refine ⟨⟨only _ (by decide), only _ (by decide), only _ (by decide)⟩, ?_, ?_, ?_, ?_, ?_⟩
  · show Word (ascii "200")
    decide
  · show LineFree (ascii "OK")
    decide
  · exact fun entry member => (nomatch member)
  · rfl
  · refine ⟨_, rfl, rfl, ?_⟩
    show ((0 : Nat) : Int) ≤ rawBodyLimit
    decide

/-- `split` does not get through the status line of a response whose version is too long. -/
theorem longVersion_far {size : Nat} (long : 2 ^ 31 ≤ size) :
    ¬ NearResponse (longVersion size) := by
  intro near
  have words_ := near.1
  rw [statusLine_eq] at words_
  have short := words_.words
  have length : (longVersion size).line.version.length = size := List.length_replicate
  rw [length] at short
  omega

/-- A response whose version has `2 ^ 31` bytes does not make the round trip. -/
theorem longVersion_not_roundTrips :
    ¬ ∀ responses : List (Response ListMultimap),
      (∀ response ∈ responses, Transmittable response) →
      RoundTrips (fun _ => none)
        ⟨@httpResponseParser ListMultimap _, ⟨linux, fun _ => []⟩, false⟩ ⟨fun _ => none, 0⟩
        responses := by
  intro trips
  have sends : ∀ response ∈ [longVersion (2 ^ 31)], Transmittable response := by
    intro response member
    rw [List.mem_singleton.mp member]
    exact longVersion_transmittable _
  have near := RoundTrips.near sends (trips _ sends)
  exact longVersion_far (Nat.le_refl _) (near _ (List.mem_singleton.mpr rfl))

end Hnw.Parser
