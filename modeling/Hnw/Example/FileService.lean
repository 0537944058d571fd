import Hnw.Http.Auth
import Hnw.Http.Message
import Hnw.Util.Url

/-!
# The file service

`FileServce` of the examples: it asks for authentication, decodes the path of a request and answers
with a file, a section of it or a page. The pages go through the locale of the machine; what comes
out of that is a parameter. A generated response has no body, and a page is written to it.
-/

namespace Hnw.Example

open Hnw.Http Hnw.Util Hnw.Util.UnorderedMultimap

/-- `FileServce`, as its options set it. -/
structure FileService where
  /-- `file_dir_`. -/
  fileDir : Bytes
  /-- `auth_mode_`. -/
  authMode : HnwHttpAuthMethod
  /-- `username_`. -/
  username : Bytes
  /-- `password_`. -/
  password : Bytes

/-- The pages of the service. -/
inductive Page where
  /-- `response_error`. -/
  | error
  /-- `response_dir`. -/
  | directory
  /-- `response_video_play_page`. -/
  | videoPlay
deriving DecidableEq

/-- What the service runs on, besides the files. -/
structure Machine where
  /-- `boost::filesystem::is_directory`. -/
  isDirectory : Bytes → Bool
  /-- `HnwUtil_Utf8ToAnsi`. -/
  utf8ToAnsi : Bytes → Bytes
  /-- The html of a page about a path, after `HnwUtil_AnsiToUtf8`. -/
  html : Page → Bytes → Bytes
  /-- `HnwUtil_Md5`. -/
  md5 : Bytes → Bytes
  /-- `std::to_string(time(nullptr))`. -/
  time : Bytes

/-- What becomes of a request. -/
inductive Handled (σ : Type) where
  /-- The response is given to `HnwHttp_Response`. -/
  | response (response : Response σ)
  /-- The connection is closed. -/
  | close
  /-- A null body is used, an exception escapes, a byte is read that is not there, or the decoder
  never returns. -/
  | fault

variable {σ τ : Type} [UnorderedMultimap σ] [UnorderedMultimap τ]

/-- `HnwUtil_UrlDecode`. -/
def urlDecode (url : Bytes) : Option Bytes :=
  match decodeUrl url (url.length + 1) with
  | .returned text => some text
  | .outOfBounds | .unfinished => none

/-- `get_query`, with the empty text as default. -/
def getQuery (line : RequestLine) (key : Bytes) : Bytes := getValueForMap line.queryMap key

/-- `response_html_page`, and what `http_event_cb` makes of its result. -/
def responseHtmlPage (fs : FileSystem) (response : Response τ) (html : Bytes) : Handled τ :=
  if html = [] then .close
  else
    match response.body with
    | none => .fault
    | some body =>
      let (size, body, _) := body.writeBody fs html
      if size = html.length then
        .response
          { line := response.line.setStatusCode (ascii "200")
            head := setContentType response.head (ascii "text/html;charset=UTF-8")
            body := some body }
      else .close

/-- The part of `on_request` that sends a file. `set_file_body` leaves the head as it is where it
fails. -/
def responseFile (machine : Machine) (platform : Platform) (fs : FileSystem) (head : σ)
    (response : Response τ) (path dir : Bytes) : Handled τ :=
  match getRange head {} with
  | none => .fault
  | some range =>
    let code := if range.isSome then ascii "206" else ascii "200"
    let response := { response with line := response.line.setStatusCode code }
    match Response.setFileBody platform fs response dir (range.getD {}) flagOpen with
    | (true, response, _) => .response response
    | (false, response, fs) => responseHtmlPage fs response (machine.html .error path)

/-- `on_request`, and what `http_event_cb` makes of its result. -/
def onRequest (service : FileService) (machine : Machine) (platform : Platform) (fs : FileSystem)
    (line : RequestLine) (head : σ) (response : Response τ) : Handled τ :=
  match urlDecode line.path with
  | none => .fault
  | some decoded =>
    let path := machine.utf8ToAnsi decoded
    let dir := service.fileDir ++ path
    let action := getQuery line (ascii "action")
    if machine.isDirectory dir = false ∧ (fs dir).isNone then
      responseHtmlPage fs response (machine.html .error path)
    else if action = [] ∨ action = ascii "donwload" then
      if machine.isDirectory dir then
        responseHtmlPage fs response (machine.html .directory path)
      else responseFile machine platform fs head response path dir
    else if action = ascii "show" then
      responseHtmlPage fs response (machine.html .videoPlay path)
    else responseHtmlPage fs response (machine.html .error path)

/-- The response that asks for authentication. -/
def askAuth (service : FileService) (machine : Machine) (response : Response τ) : Response τ :=
  let auth : HnwWWWAuthenticate :=
    { method := service.authMode, realm := ascii "fileshared@hql",
      nonce := machine.md5 machine.time }
  { response with
    line := response.line.setStatusCode (ascii "401")
    head := (setWwwAuthenticate response.head auth).1 }

/-- `http_event_cb` of a request. -/
def httpEventCb (service : FileService) (machine : Machine) (platform : Platform)
    (fs : FileSystem) (line : RequestLine) (head : σ) : Handled τ :=
  let response : Response τ :=
    { (Response.generate : Response τ) with head := setKeepAlive empty (keepAlive head) }
  if service.authMode = .noneAuth then onRequest service machine platform fs line head response
  else
    match getAuthorization head with
    | none => .fault
    | some auth =>
      if auth.method = .noneAuth ∧ auth.username = service.username then
        .response (askAuth service machine response)
      else if checkAuthOf machine.md5 auth service.password line.method = false then
        .response (askAuth service machine response)
      else onRequest service machine platform fs line head response

end Hnw.Example
