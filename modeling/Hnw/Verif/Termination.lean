import Hnw.Verif.Parser

/-!
# When the parser loop ends

Whatever the application does in the head events, a call of a state handler uses a byte, stops
the reading, or finds a file body that takes none: one not opened for writing, or one written
past the end of its section. There the loop calls the same handler for ever.
-/

namespace Hnw.Parser

open Hnw.Http Hnw.Util Hnw.Theory

/-- The parser receives into a file body that takes no byte. -/
def StuckBody {ι σ : Type} (s : ParserState ι σ) : Prop :=
  s.status = .body ∧ ∃ body : FileBody, s.tmp.body = some (.file body) ∧
    (body.flag.has flagWrite = false ∨ body.bodySize < body.writePos)

/-- The states of a parser, whatever its application does in the head events. -/
structure Underway {ι σ : Type} (s : ParserState ι σ) : Prop where
  /-- Only three states have a handler that is registered. -/
  listed : s.status = .startLine ∨ s.status = .head ∨ s.status = .body
  /-- Before the body no body waits for bytes. -/
  idle : s.status ≠ .body → ∀ body, s.tmp.body = some body → body.isComplete = true
  /-- In the body there is one that does. -/
  receiving : s.status = .body →
    ∃ body, s.tmp.body = some body ∧ body.isComplete = false ∧ body.Regular

/-- What receiving into a file does to the body of a message. -/
structure ParserKind.Installs {ι σ : Type} (kind : ParserKind ι σ) : Prop
    extends kind.Lawful where
  /-- It leaves the body alone, takes it away or puts a file body in its place. -/
  received : ∀ surroundings files message filepath flag made left,
    kind.recvFile surroundings files message filepath flag = some (made, left) →
      made.body = message.body ∨ made.body = none ∨ ∃ body, made.body = some (.file body)

variable {ι σ : Type} {setting : Setting ι σ} {s : ParserState ι σ}

/-- A parser that begins a message is under way. -/
theorem Underway.begin (lawful : setting.kind.Lawful) (status : s.status = .startLine)
    (message : s.tmp = setting.kind.generate) : Underway s where
  listed := .inl status
  idle _ body present := lawful.fresh body (message ▸ present)
  receiving inBody := by
    rw [status] at inBody
    cases inBody

/-- Changes of the line, the head and the cache before the body keep a parser under way. -/
theorem Underway.edit (underway : Underway s) {status : PStatus} {line : ι} {head : σ}
    {cache : Bytes} (before : s.status ≠ .body) (stays : status = .startLine ∨ status = .head) :
    Underway { s with status, tmp := { s.tmp with line, head }, cache } := by
  have elsewhere : status ≠ .body := by
    rcases stays with rfl | rfl <;> simp
  refine ⟨?_, fun _ => underway.idle before, fun inBody => absurd inBody elsewhere⟩
  rcases stays with rfl | rfl
  · exact .inl rfl
  · exact .inr (.inl rfl)

/-- `on_start_line` keeps a parser under way. -/
theorem onStartLine_underway (underway : Underway s) (before : s.status = .startLine)
    (ch : UInt8) : Underway (onStartLine setting s ch).state := by
  have here : s.status ≠ .body := by simp [before]
  rcases onStartLine_cases setting s ch with ⟨_, call, _⟩ | call | ⟨_, call⟩
  · rw [call]
    exact underway
  · rw [call]
    exact underway.edit here (.inl before)
  · rw [call]
    exact underway.edit here (.inr rfl)

/-- The head event leaves the body alone, takes it away or puts a file body in its place. -/
theorem headEvent_body (installs : setting.kind.Installs) {handled : ParserState ι σ}
    (event : headEvent setting s = some handled) :
    handled.tmp.body = s.tmp.body ∨ handled.tmp.body = none ∨
      ∃ body, handled.tmp.body = some (.file body) := by
  rcases (headEvent_cases event).2 with same | ⟨filepath, flag, files, received⟩
  · exact .inl (congrArg Message.body same)
  · exact installs.received _ _ _ _ _ _ _ received

/-- A body that a message has when its head ends is complete, a file or accepts. -/
theorem createBody_regular (lawful : setting.kind.Lawful) {ready : ParserState ι σ}
    (made : createBody setting s = some ready)
    (known : ∀ body, s.tmp.body = some body → body.isComplete = false → body.Regular)
    {body : Body} (present : ready.tmp.body = some body) (waits : body.isComplete = false) :
    body.Regular := by
  rcases createBody_cases made with ⟨rfl, _⟩ | ⟨tmp, files, created, rfl⟩
  · exact known body present waits
  · have accepting := lawful.created _ _ _ _ _ body created present waits
    exact Body.Accepting.regular accepting

/-- Where no body can be made there is none that waits for bytes. -/
theorem createBody_none (fails : createBody setting s = none) {body : Body}
    (present : s.tmp.body = some body) : body.isComplete = true := by
  unfold createBody at fails
  split at fails
  · next missing =>
    rcases missing with missing | missing
    · rw [present] at missing
      cases missing
    · rw [present] at missing
      cases missing
      rfl
  · cases fails

/-- Entering a body that is regular where it waits for bytes keeps a parser under way. -/
theorem enterBody_underway (lawful : setting.kind.Lawful) (still : s.status = .head)
    (regular : ∀ body, s.tmp.body = some body → body.isComplete = false → body.Regular)
    (events : List (Event ι σ)) : Underway (enterBody setting s events).state := by
  unfold enterBody
  split
  · next missing =>
    have waits : Underway s := ⟨.inr (.inl still), by simp [missing], by simp [still]⟩
    split <;> exact waits
  · next found present =>
    split
    · exact .begin lawful rfl rfl
    · next waits =>
      have waits : found.isComplete = false := by simpa using waits
      exact ⟨.inr (.inr rfl), by simp, fun _ =>
        ⟨found, present, waits, regular found present waits⟩⟩

/-- The end of the head keeps a parser under way. -/
theorem endOfHead_underway (installs : setting.kind.Installs) (underway : Underway s)
    (before : s.status = .head) : Underway (endOfHead setting s).state := by
  have here : s.status ≠ .body := by simp [before]
  have lawful := installs.toLawful
  unfold endOfHead
  simp only
  split
  · exact underway
  · next handled event =>
    have status := (headEvent_cases event).1
    have body := headEvent_body installs event
    have handledHere : handled.status ≠ .body := by rw [status]; exact here
    split
    · next fails =>
      exact ⟨.inr (.inl (status.trans before)), fun _ _ present => createBody_none fails present,
        fun inBody => absurd inBody handledHere⟩
    · next ready made =>
      have known : ∀ body, handled.tmp.body = some body → body.isComplete = false →
          body.Regular := by
        intro found present waits
        rcases body with same | none | ⟨file, some⟩
        · rw [underway.idle here found (same ▸ present)] at waits
          cases waits
        · rw [none] at present
          cases present
        · rw [some] at present
          cases present
          trivial
      have still : ready.status = .head := by
        rcases createBody_cases made with ⟨rfl, _⟩ | ⟨tmp, files, _, rfl⟩ <;>
          exact status.trans before
      exact enterBody_underway lawful still
        (fun found present waits => createBody_regular lawful made known present waits) _

/-- `on_body` on a file body. -/
theorem onBody_file {body : FileBody} (present : s.tmp.body = some (.file body)) (data : Bytes) :
    onBody setting s data =
      let size := body.writeSize data.length
      let written := .file { body with writePos := body.writePos + size }
      let fs := writeFile s.files.fs body.fileName (body.writePos + body.start) (data.take size)
      let next := { s with tmp := { s.tmp with body := some written },
                           files := { s.files with fs } }
      if Body.isComplete written then push setting next [] size written
      else ⟨next, [], size, none⟩ := by
  simp only [onBody, present, Body.writeBody, FileBody.writeBody]
  rfl

/-- A body that takes no byte is called again in the same state. -/
theorem onBody_stuck {body : FileBody} (present : s.tmp.body = some (.file body))
    (waits : Body.isComplete (.file body) = false)
    (stuck : body.flag.has flagWrite = false ∨ body.bodySize < body.writePos) (data : Bytes) :
    onBody setting s data = ⟨s, [], 0, none⟩ := by
  have nothing := FileBody.writeSize_stuck stuck data.length
  rw [onBody_file present]
  simp only [nothing, Nat.add_zero, List.take_zero, writeFile_nil, waits, Bool.false_eq_true,
    if_false, ← present]

/-- `on_body` on a raw body that waits for bytes keeps the parser under way and uses a byte. -/
theorem onBody_raw_underway (lawful : setting.kind.Lawful) (inBody : s.status = .body)
    {body : RawBody} (present : s.tmp.body = some (.raw body)) (accepting : body.Accepting)
    {data : Bytes} (unread : 0 < data.length) :
    Underway (onBody setting s data).state ∧ 0 < (onBody setting s data).used := by
  have accepting : Body.Accepting s.files.fs (.raw body) := accepting
  rw [onBody_eq setting present accepting]
  simp only
  split
  · exact ⟨.begin lawful rfl rfl, Body.left_pos accepting⟩
  · next short =>
    have later := (Body.writeBody_accepting accepting (Nat.lt_of_not_le short)).1
    exact ⟨⟨.inr (.inr inBody), fun elsewhere => absurd inBody elsewhere, fun _ =>
      ⟨_, rfl, Body.not_complete later, later.regular⟩⟩, unread⟩

/-- `on_body` on a file body that waits for bytes and takes some keeps the parser under way and
uses a byte. -/
theorem onBody_file_underway (lawful : setting.kind.Lawful) (inBody : s.status = .body)
    {body : FileBody} (present : s.tmp.body = some (.file body))
    (waits : Body.isComplete (.file body) = false)
    (free : ¬ (body.flag.has flagWrite = false ∨ body.bodySize < body.writePos))
    {data : Bytes} (unread : 0 < data.length) :
    Underway (onBody setting s data).state ∧ 0 < (onBody setting s data).used := by
  have used : 0 < body.writeSize data.length := by
    apply FileBody.writeSize_pos _ _ unread
    · simpa using fun unwritten => free (.inl unwritten)
    · have short := fun past => free (.inr past)
      have different : body.writePos ≠ body.bodySize := by
        simpa [Body.isComplete, FileBody.isComplete] using waits
      omega
  rw [onBody_file present]
  simp only
  split
  · exact ⟨.begin lawful rfl rfl, used⟩
  · next open_ =>
    exact ⟨⟨.inr (.inr inBody), fun elsewhere => absurd inBody elsewhere, fun _ =>
      ⟨_, rfl, by simpa using open_, trivial⟩⟩, used⟩

/-- `on_body` on a body that waits for bytes: it keeps the parser under way, and it uses a byte
unless the body takes none; then it changes nothing. -/
theorem onBody_underway (lawful : setting.kind.Lawful) (underway : Underway s)
    (inBody : s.status = .body) {data : Bytes} (unread : data ≠ []) :
    Underway (onBody setting s data).state ∧
      (StuckBody s ∧ onBody setting s data = ⟨s, [], 0, none⟩ ∨
        ¬ StuckBody s ∧ 0 < (onBody setting s data).used) := by
  have length := List.length_pos_iff.mpr unread
  obtain ⟨body, present, waits, regular⟩ := underway.receiving inBody
  cases body with
  | raw body =>
    have free : ¬ StuckBody s := by
      rintro ⟨_, file, other, _⟩
      rw [present] at other
      cases other
    obtain ⟨later, used⟩ := onBody_raw_underway lawful inBody present regular length
    exact ⟨later, .inr ⟨free, used⟩⟩
  | file body =>
    by_cases stuck : body.flag.has flagWrite = false ∨ body.bodySize < body.writePos
    · rw [onBody_stuck present waits stuck]
      exact ⟨underway, .inl ⟨⟨inBody, body, present, stuck⟩, rfl⟩⟩
    · have free : ¬ StuckBody s := by
        rintro ⟨_, file, other, again⟩
        rw [present] at other
        cases other
        exact stuck again
      obtain ⟨later, used⟩ := onBody_file_underway lawful inBody present waits stuck length
      exact ⟨later, .inr ⟨free, used⟩⟩
  | empty => cases waits

variable [UnorderedMultimap σ]

/-- `on_head` keeps a parser under way. -/
theorem onHead_underway (installs : setting.kind.Installs) (underway : Underway s)
    (before : s.status = .head) (ch : UInt8) : Underway (onHead setting s ch).state := by
  have here : s.status ≠ .body := by simp [before]
  rcases onHead_cases setting s ch with ⟨_, _, call⟩ | ⟨_, call, _⟩ | call | ⟨_, call⟩
  · rw [call]
    exact endOfHead_underway installs underway before
  · rw [call]
    exact underway
  · rw [call]
    exact underway.edit here (.inr before)
  · rw [call]
    exact underway.edit here (.inr rfl)

/-- A call of `call_parser_cb` keeps a parser under way, and it uses a byte unless it meets a
body that takes none; then it changes nothing. -/
theorem callParserCb_underway (installs : setting.kind.Installs) (underway : Underway s)
    {data : Bytes} (unread : data ≠ []) :
    Underway (callParserCb setting s data).state ∧
      (StuckBody s ∧ Stalls (callParserCb setting) s data ∨
        ¬ StuckBody s ∧ 0 < (callParserCb setting s data).used) := by
  have free : s.status ≠ .body → ¬ StuckBody s := fun before stuck => before stuck.1
  rcases underway.listed with status | status | status
  · have byte := (callParserCb_byte setting unread [] (.inl status)).2
    refine ⟨?_, .inr ⟨free (by simp [status]), by omega⟩⟩
    cases data with
    | nil => exact absurd rfl unread
    | cons ch rest =>
      simp only [callParserCb, status]
      exact onStartLine_underway underway status ch
  · have byte := (callParserCb_byte setting unread [] (.inr status)).2
    refine ⟨?_, .inr ⟨free (by simp [status]), by omega⟩⟩
    cases data with
    | nil => exact absurd rfl unread
    | cons ch rest =>
      simp only [callParserCb, status]
      exact onHead_underway installs underway status ch
  · rw [Stalls, callParserCb_body status unread]
    exact onBody_underway installs.toLawful underway status unread

/-- A parser that was fed bytes is under way. -/
theorem Fed.underway (installs : setting.kind.Installs) {actions : List HeadAction}
    (fed : Fed setting actions s) : Underway s := by
  induction fed with
  | fresh files => exact .begin installs.toLawful rfl rfl
  | input _ read _ ih =>
    exact read.invariant
      (fun _ _ underway unread => (callParserCb_underway installs underway unread).1) ih

/-! ## The two kinds of message -/

/-- Receiving into a file leaves the body alone, takes it away or puts a file body in its
place. -/
theorem recvFile_body {getRange : σ → HttpRange → Option (Option HttpRange)}
    {surroundings : Surroundings} {files left : Files} {message made : Message ι σ}
    {filepath : Bytes} {flag : FileFlag}
    (received : Service.recvFile getRange surroundings files message filepath flag =
      some (made, left)) :
    made.body = message.body ∨ made.body = none ∨ ∃ body, made.body = some (.file body) := by
  unfold Service.recvFile at received
  cases wanted : Service.recvRange getRange message.head with
  | none => simp [wanted] at received
  | some found =>
    cases found with
    | none =>
      simp only [wanted, Option.bind_eq_bind, Option.bind_some, Option.pure_def,
        Option.some.injEq, Prod.mk.injEq] at received
      exact .inl (by rw [received.1])
    | some range =>
      simp only [wanted, Option.bind_eq_bind, Option.bind_some, Option.pure_def,
        Option.some.injEq, Prod.mk.injEq] at received
      rw [← received.1]
      cases (FileBody.generate surroundings.platform files.fs filepath range flag).1 with
      | none => exact .inr (.inl rfl)
      | some body => exact .inr (.inr ⟨body, rfl⟩)

/-- Requests are received into files. -/
theorem httpRequestParser_installs : (@httpRequestParser σ _).Installs where
  toLawful := httpRequestParser_lawful
  received _ _ _ _ _ _ _ received := recvFile_body received

/-- Responses are received into files. -/
theorem httpResponseParser_installs : (@httpResponseParser σ _).Installs where
  toLawful := httpResponseParser_lawful
  received _ _ _ _ _ _ _ received := recvFile_body received

/-! ## Termination -/

/-- From every state of a parser, `input_data` returns exactly when no state handler is called
with a body that takes no byte. -/
def ReturnsUnlessStuck (setting : Setting ι σ) : Prop :=
  ∀ actions s, Fed setting actions s → ∀ chunk,
    (∃ o, InputData setting s chunk o) ↔
      ∀ later rest, Visits (callParserCb setting) s chunk later rest → ¬ StuckBody later

/-- A kind of parser that installs nothing but what it makes returns unless it is stuck. -/
theorem returnsUnlessStuck_of_installs (installs : setting.kind.Installs) :
    ReturnsUnlessStuck setting := by
  intro actions s fed chunk
  have underway := fed.underway installs
  have visited : ∀ later rest, Visits (callParserCb setting) s chunk later rest →
      Underway later := by
    intro later rest visit
    exact visit.invariant Underway
      (fun _ _ underway unread => (callParserCb_underway installs underway unread).1) underway
  have stalls : ∀ later rest, Visits (callParserCb setting) s chunk later rest →
      (Stalls (callParserCb setting) later rest ↔ StuckBody later) := by
    intro later rest visit
    rcases (callParserCb_underway installs (visited later rest visit) visit.unread).2 with
      ⟨stuck, same⟩ | ⟨free, used⟩
    · exact ⟨fun _ => stuck, fun _ => same⟩
    · refine ⟨fun same => ?_, fun stuck => absurd stuck free⟩
      rw [same] at used
      cases used
  rw [returns_iff_not_stalls]
  · exact forall_congr' fun later => forall_congr' fun rest =>
      forall_congr' fun visit => not_congr (stalls later rest visit)
  · intro later rest visit _
    rcases (callParserCb_underway installs (visited later rest visit) visit.unread).2 with
      ⟨_, same⟩ | ⟨_, used⟩
    · exact .inl same
    · exact .inr used

/-- Both parsers return exactly when no state handler is called with a file body that is not
opened for writing or is written past its section. -/
theorem parsers_returnUnlessStuck (surroundings : Surroundings) (holds : Bool) :
    ReturnsUnlessStuck (⟨httpRequestParser, surroundings, holds⟩ : Setting RequestLine σ) ∧
      ReturnsUnlessStuck (⟨httpResponseParser, surroundings, holds⟩ : Setting ResponseLine σ) :=
  ⟨returnsUnlessStuck_of_installs httpRequestParser_installs,
    returnsUnlessStuck_of_installs httpResponseParser_installs⟩

/-- A response parser under Linux, for an application that receives the next response into `f`,
which it only opens for reading. -/
def readingSetting : Setting ResponseLine ListMultimap :=
  ⟨httpResponseParser, ⟨linux, fun _ => []⟩, false⟩

/-- What the application does. -/
def readingActions : List HeadAction := [.recvFile (ascii "f") flagOpen]

/-- The parser before the response, with a file `f` of five bytes. -/
def readingParser : ParserState ResponseLine ListMultimap :=
  fresh readingSetting ⟨oneFile (ascii "f") ⟨ascii "hello", by decide⟩, 0⟩ readingActions

/-- What `input_data` does with the head of a response with a body of five bytes. -/
def readingHead :
    Option (Outcome (ParserState ResponseLine ListMultimap) (Event ResponseLine ListMultimap)
      Stop) :=
  feed (callParserCb readingSetting) 60 readingParser
    (ascii "HTTP/1.1 200 OK" ++ crlf ++ ascii "Content-Length: 5" ++ crlf ++ crlf)

/-- The head of the response is read, and the body is the file. -/
theorem readingHead_eq :
    readingHead.map (fun o => (o.stop, o.state.status, o.state.tmp.body)) =
      some (none, .body, some (.file
        { fileName := ascii "f", size := 5, flag := flagOpen, start := 0, stop := 4,
          ordered := by decide, inside := by decide })) := by
  decide +kernel

/-- A body byte for a file that is only opened for reading is never left behind. -/
theorem inputData_unwritable_never_returns :
    ¬ ∀ actions s, Fed readingSetting actions s →
      ∀ chunk, ∃ o, InputData readingSetting s chunk o := by
  intro returns
  obtain ⟨o, found, here⟩ := Option.map_eq_some_iff.mp readingHead_eq
  obtain ⟨stop, status, body⟩ : o.stop = none ∧ o.state.status = .body ∧ o.state.tmp.body = _ := by
    simpa only [Prod.mk.injEq] using here
  have fed : Fed readingSetting readingActions o.state :=
    .input (.fresh _) ⟨60, found⟩ (by simp [stop])
  have stuck : StuckBody o.state := ⟨status, _, body, .inl (by decide)⟩
  have free := (returnsUnlessStuck_of_installs httpResponseParser_installs _ _ fed [104]).mp
    (returns _ _ fed _)
  exact free _ _ (.here (by decide)) stuck

end Hnw.Parser
