import Hnw.Service.RecvFile
import Hnw.Theory.Consumer

/-!
# The HTTP parsers

`ParserBase::input_data` and the state handlers of `HttpRequestParser` and
`HttpResponseParser`. The two parsers are the same program over two kinds of message; what they
do differently is a `ParserKind`. A reading stops at an error code, which the caller of
`input_data` does not look at, or at a fault, which it does not survive.
-/

namespace Hnw.Parser

open Hnw.Http Hnw.Util Hnw.Util.UnorderedMultimap Hnw.Theory

/-- `PSTATUS`. -/
inductive PStatus where
  | startLine
  | startLine1
  | startLine2
  | startLine3
  | head
  | headKey
  | headValue
  | body
  | chunkedLen
  | chunkedData
  | over
  | perror
deriving DecidableEq, Repr

/-- The error codes of the parsers. -/
inductive ErrCode where
  | badStartLine
  | badHeadKey
  | cbIsDefault
  | structMessageFail
deriving DecidableEq, Repr

/-- Why a reading stops. -/
inductive Stop where
  /-- A handler returns an error code. -/
  | code (code : ErrCode)
  /-- An exception leaves `input_data`, or a null body is used. -/
  | fault
deriving DecidableEq, Repr

/-- Only a fault keeps the caller from the next chunk. -/
def Stop.fatal : Stop → Bool
  | .code _ => false
  | .fault => true

/-- What the application does in a head event. -/
inductive HeadAction where
  /-- It leaves the message alone. -/
  | leave
  /-- It has the body received into a file. -/
  | recvFile (filepath : Bytes) (flag : FileFlag)
deriving DecidableEq

/-- The events a parser raises. A message is recorded as it is at that moment, with the bytes of
its body. -/
inductive Event (ι σ : Type) where
  /-- `HNW_HTTP_RECV_REQUEST_HEAD`, `HNW_HTTP_RECV_RESPONSE_HEAD`. -/
  | recvHead (line : ι) (head : σ)
  /-- `HNW_HTTP_RECV_REQUEST`, `HNW_HTTP_RECV_RESPONSE`. -/
  | recv (line : ι) (head : σ) (body : Bytes)
  /-- `EVENT_ERR_CB`. -/
  | error (code : ErrCode)
deriving DecidableEq

/-- What distinguishes the two parsers. -/
structure ParserKind (ι σ : Type) where
  /-- The message `reset` makes. -/
  generate : Message ι σ
  /-- What a start line of at least three words sets; `none` where `split` throws. -/
  setLine : ι → List Bytes → Option ι
  /-- `auto_create_body`; `none` where it returns false. -/
  autoCreateBody : Surroundings → Files → Message ι σ → Option (Message ι σ × Files)
  /-- What an application calls to receive into a file; `none` where `split` throws. -/
  recvFile : Surroundings → Files → Message ι σ → Bytes → FileFlag →
    Option (Message ι σ × Files)
  /-- What a body that is still null leads to: the response parser checks for it, the request
  parser does not. -/
  nullBody : Stop

/-- A parser, with the files and the application's coming choices. -/
structure ParserState (ι σ : Type) where
  /-- `parser_status_`. -/
  status : PStatus
  /-- `tmp_`. -/
  tmp : Message ι σ
  /-- `parser_cache1_`. -/
  cache : Bytes
  /-- The files. -/
  files : Files
  /-- What the application will do in the next head events; it leaves the later ones alone. -/
  actions : List HeadAction

/-- What stays the same while a parser runs. -/
structure Setting (ι σ : Type) where
  /-- Which parser. -/
  kind : ParserKind ι σ
  /-- The platform and the names of temporary files. -/
  surroundings : Surroundings
  /-- Whether the application keeps the messages it was given, so that none is destroyed. -/
  holds : Bool

variable {ι σ : Type} [UnorderedMultimap σ]

/-- The result of one call of a state handler. -/
abbrev Call (ι σ : Type) := Step (ParserState ι σ) (Event ι σ) Stop

/-- `reset`: the old message is released. -/
def reset (setting : Setting ι σ) (s : ParserState ι σ) : ParserState ι σ :=
  let fs :=
    if setting.holds then s.files.fs
    else match s.tmp.body with
      | none => s.files.fs
      | some body => body.destroy s.files.fs
  { s with status := .startLine, tmp := setting.kind.generate, cache := [],
           files := { s.files with fs } }

/-- A parser from its constructor. -/
def fresh (setting : Setting ι σ) (files : Files) (actions : List HeadAction) :
    ParserState ι σ :=
  { status := .startLine, tmp := setting.kind.generate, cache := [], files, actions }

/-- `push`: the message is handed over and a new one begun. -/
def push (setting : Setting ι σ) (s : ParserState ι σ) (events : List (Event ι σ)) (used : Nat)
    (body : Body) : Call ι σ :=
  { state := reset setting s
    out := events ++ [.recv s.tmp.line s.tmp.head (body.content s.files.fs)]
    used
    stop := none }

/-- `on_start_line`, on the next byte. -/
def onStartLine (setting : Setting ι σ) (s : ParserState ι σ) (ch : UInt8) : Call ι σ :=
  if ch = cr then ⟨s, [], 1, none⟩
  else if ch = lf then
    match split s.cache space with
    | none => ⟨s, [], 1, some .fault⟩
    | some d =>
      if d.length < 3 then ⟨s, [], 1, some (.code .badStartLine)⟩
      else
        match setting.kind.setLine s.tmp.line d with
        | none => ⟨s, [], 1, some .fault⟩
        | some line =>
          ⟨{ s with tmp := { s.tmp with line }, cache := [], status := .head }, [], 1, none⟩
  else ⟨{ s with cache := s.cache ++ [ch] }, [], 1, none⟩

/-- The head event: what the application does to the message; `none` where an exception leaves
it. -/
def headEvent (setting : Setting ι σ) (s : ParserState ι σ) : Option (ParserState ι σ) :=
  match s.actions with
  | [] => some s
  | .leave :: actions => some { s with actions }
  | .recvFile filepath flag :: actions =>
    (setting.kind.recvFile setting.surroundings s.files s.tmp filepath flag).map
      fun (tmp, files) => { s with tmp, files, actions }

/-- A missing body is made; `none` where `auto_create_body` returns false. -/
def createBody (setting : Setting ι σ) (s : ParserState ι σ) : Option (ParserState ι σ) :=
  if s.tmp.body = none ∨ s.tmp.body = some .empty then
    (setting.kind.autoCreateBody setting.surroundings s.files s.tmp).map
      fun (tmp, files) => { s with tmp, files }
  else some s

/-- The error event and the error code of a body that could not be made. -/
def bodyFails (s : ParserState ι σ) (events : List (Event ι σ)) : Call ι σ :=
  ⟨s, events ++ [.error .structMessageFail], 1, some (.code .structMessageFail)⟩

/-- The end of `on_head`: a complete body ends the message, any other one is waited for. -/
def enterBody (setting : Setting ι σ) (s : ParserState ι σ) (events : List (Event ι σ)) :
    Call ι σ :=
  match s.tmp.body with
  | none =>
    match setting.kind.nullBody with
    | .fault => ⟨s, events, 1, some .fault⟩
    | .code _ => bodyFails s events
  | some body =>
    if body.isComplete then push setting s events 1 body
    else ⟨{ s with status := .body }, events, 1, none⟩

/-- `on_head` at the empty line. -/
def endOfHead (setting : Setting ι σ) (s : ParserState ι σ) : Call ι σ :=
  let events := [.recvHead s.tmp.line s.tmp.head]
  match headEvent setting s with
  | none => ⟨s, events, 1, some .fault⟩
  | some handled =>
    match createBody setting handled with
    | none => bodyFails handled events
    | some ready => enterBody setting ready events

/-- `on_head`, on the next byte. -/
def onHead (setting : Setting ι σ) (s : ParserState ι σ) (ch : UInt8) : Call ι σ :=
  if ch = cr then ⟨s, [], 1, none⟩
  else if ch = lf then
    if s.cache = [] then endOfHead setting s
    else
      match split s.cache headSeq with
      | none => ⟨s, [], 1, some .fault⟩
      | some (key :: value :: _) =>
        ⟨{ s with tmp := { s.tmp with head := addHead s.tmp.head key value }, cache := [],
                  status := .head }, [], 1, none⟩
      | some _ => ⟨s, [], 1, some (.code .badHeadKey)⟩
  else ⟨{ s with cache := s.cache ++ [ch] }, [], 1, none⟩

/-- `on_body`, on the rest of the chunk. -/
def onBody (setting : Setting ι σ) (s : ParserState ι σ) (data : Bytes) : Call ι σ :=
  match s.tmp.body with
  | none => ⟨s, [], 0, some .fault⟩
  | some body =>
    let (writeSize, body, fs) := body.writeBody s.files.fs data
    let s := { s with tmp := { s.tmp with body := some body }, files := { s.files with fs } }
    if body.isComplete then push setting s [] writeSize body else ⟨s, [], writeSize, none⟩

/-- `call_parser_cb`: the handler registered for the status, or `default_parser`. -/
def callParserCb (setting : Setting ι σ) : Consumer (ParserState ι σ) UInt8 (Event ι σ) Stop
  | s, [] => ⟨s, [], 0, none⟩
  | s, ch :: rest =>
    match s.status with
    | .startLine => onStartLine setting s ch
    | .head => onHead setting s ch
    | .body => onBody setting s (ch :: rest)
    | _ => ⟨s, [], (ch :: rest).length, some (.code .cbIsDefault)⟩

/-- `input_data` returns with this outcome; without a reason to stop its return code is
`HNW_BASE_OK`. -/
abbrev InputData (setting : Setting ι σ) (s : ParserState ι σ) (data : Bytes)
    (o : Outcome (ParserState ι σ) (Event ι σ) Stop) : Prop :=
  Returns (callParserCb setting) s data o

/-- `input_data` for one chunk after another, whatever it returns. -/
abbrev inputChunks (setting : Setting ι σ) (s : ParserState ι σ) (chunks : List Bytes) :
    Option (Outcome (ParserState ι σ) (Event ι σ) Stop) :=
  deliver (callParserCb setting) Stop.fatal s chunks

/-! ## The two parsers -/

/-- `HttpRequestParser`. -/
def httpRequestParser : ParserKind RequestLine σ where
  generate := Request.generate
  setLine line d :=
    (RequestLine.setUrl { line with method := d.getD 0 [] } (d.getD 1 [])).map
      fun line => { line with version := d.getD 2 [] }
  autoCreateBody := Request.autoCreateBody
  recvFile := Service.recvFileRequest
  nullBody := .fault

/-- `HttpResponseParser`. The reason that `status_code` sets is overwritten at once. -/
def httpResponseParser : ParserKind ResponseLine σ where
  generate := Response.generate
  setLine line d :=
    let line := ResponseLine.setStatusCode { line with version := d.getD 0 [] } (d.getD 1 [])
    some { line with reason := d.getD 2 [] }
  autoCreateBody := Response.autoCreateBody
  recvFile := Service.recvFileResponse
  nullBody := .code .structMessageFail

end Hnw.Parser
