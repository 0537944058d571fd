import Hnw.Service.Destination
import Hnw.Theory.Transition

/-!
# The files downloader

`FilesDownloader` of the examples: it reads a text of URLs and directives, requests one URL after
another and ends when all of them were answered. `on_response` runs on the threads of the service,
and its counter is a plain variable. What the saved files hold is left out, and so are the counters
that are only printed.
-/

namespace Hnw.Example

open Hnw.Http Hnw.Util Hnw.Theory

/-- The static variables. -/
structure Downloader (σ : Type) where
  /-- `urls`. -/
  urls : List Bytes := []
  /-- `out_dir`. -/
  outDir : Bytes := ascii "F:/picture/out"
  /-- `request_delay`. -/
  requestDelay : Nat := 100
  /-- `request_timeout`. -/
  requestTimeout : Nat := 100000
  /-- `head`; `none` is null. -/
  head : Option σ := none
  /-- `log_output`. -/
  logOutput : Bool := false
  /-- `overlay_file`. -/
  overlayFile : Bool := false

/-! ## The text of the URLs -/

/-- A number that is assigned to a `size_t`. -/
def sizeT (value : Int) : Nat := (value % 2 ^ 64).toNat

/-- What `on` and `off` say. -/
def onOff (param : Bytes) : Option Bool :=
  if param = ascii "on" then some true
  else if param = ascii "off" then some false
  else none

/-- The text up to a character, and the text behind it. -/
def cutAt (ch : UInt8) (text : Bytes) : Option (Bytes × Bytes) :=
  match text.span (· ≠ ch) with
  | (_, []) => none
  | (front, _ :: rest) => some (front, rest)

namespace Downloader

variable {σ : Type} [UnorderedMultimap σ]

/-- A directive; `none` where `parse_urls_line` returns false. -/
def directive (s : Downloader σ) (cmd param : Bytes) : Option (Downloader σ) :=
  if cmd = ascii "out_dir" then some { s with outDir := param }
  else if cmd = ascii "request_delay" then
    (Service.stoi param).map fun value => { s with requestDelay := sizeT value }
  else if cmd = ascii "request_timeout" then
    (Service.stoi param).map fun value => { s with requestTimeout := sizeT value }
  else if cmd = ascii "log_output" then
    some { s with logOutput := (onOff param).getD s.logOutput }
  else if cmd = ascii "overlay_file" then
    some { s with overlayFile := (onOff param).getD s.overlayFile }
  else if cmd = ascii "head" then do
    let head ← s.head
    let (key, value) ← cutAt comma param
    some { s with head := some (addHead head key value) }
  else none

/-- `parse_urls_line`: what it returns and what it leaves. -/
def parseUrlsLine (s : Downloader σ) : Bytes → Bool × Downloader σ
  | [] => (false, s)
  | first :: rest =>
    if first = hashMark then
      match (cutAt equals rest).bind fun (cmd, param) => s.directive cmd param with
      | none => (false, s)
      | some next => (true, next)
    else (true, { s with urls := s.urls ++ [first :: rest] })

/-- What ends a word: a blank, CR or LF. -/
def endsWord (u : UInt8) : Bool := u = blank ∨ u = cr ∨ u = lf

/-- The loop of `parse_urls_txt` over the characters that are read, with `temp`. -/
def parseUrlsChar : Bytes × Downloader σ → UInt8 → Bytes × Downloader σ
  | (temp, s), u => if endsWord u then ([], (s.parseUrlsLine temp).2) else (temp ++ [u], s)

/-- `parse_urls_txt`; `none` is a file that is not opened. -/
def parseUrlsTxt (s : Downloader σ) : Option Bytes → Downloader σ
  | none => s
  | some text =>
    let (temp, s) := text.foldl parseUrlsChar ([], s)
    (s.parseUrlsLine temp).2

end Downloader

/-! ## The requests -/

/-- `output`: `out_dir` and the URL from its last slash on; `none` where `substr` throws. -/
def outputOf (outDir url : Bytes) : Option Bytes :=
  if slash ∈ url then some (outDir ++ slash :: (url.reverse.takeWhile (· ≠ slash)).reverse)
  else none

/-- What `on_response` is called with. -/
inductive DownloadAnswer where
  /-- An error code. -/
  | failed
  /-- A response with another status code than `200`. -/
  | refused
  /-- A response with the status code `200`; whether its body is not empty and is saved. -/
  | found (saves : Bool)
deriving DecidableEq, Repr

/-- A run of the program, from its loop over the URLs on. -/
structure Downloading where
  /-- Which files there are. -/
  there : Bytes → Bool
  /-- `request_count_`: how far the loop came. -/
  requestCount : Nat := 0
  /-- An exception ended the program. -/
  terminated : Bool := false
  /-- The URLs that were handed to `HnwHttp_RequestGet`, by their places. -/
  requested : List Nat := []
  /-- The URLs that `on_response` was called for. -/
  called : List Nat := []
  /-- The URLs that were skipped, by the loop or by `on_response`. -/
  skipped : List Nat := []
  /-- The calls that go on to `++response_count_`. -/
  counting : Nat := 0
  /-- The values that `++response_count_` loaded and did not store yet. -/
  loaded : List Nat := []
  /-- The calls that stored and did not compare yet. -/
  comparing : Nat := 0
  /-- `response_count_`. -/
  responseCount : Nat := 0
  /-- `exit_flag`. -/
  exitFlag : Bool := false
  /-- SIGINT was raised. -/
  interrupted : Bool := false

/-- What happens in a run. -/
inductive DownloadLabel where
  /-- The loop goes on to the next URL. -/
  | requests
  /-- `on_response` is called for a URL, up to its counter. -/
  | answered (index : Nat) (answer : DownloadAnswer)
  /-- A call loads `response_count_`. -/
  | loads
  /-- A call stores what it loaded, and one. -/
  | stores (call : Nat)
  /-- A call compares `response_count_`. -/
  | compares
  /-- Something else makes or removes a file. -/
  | fileChanged (path : Bytes) (exist : Bool)
  /-- SIGINT. -/
  | interrupted

namespace Downloading

/-- The output of a URL is there and may not be overlaid. -/
def skips {σ : Type} (settings : Downloader σ) (d : Downloading) (output : Bytes) : Bool :=
  !settings.overlayFile && d.there output

/-- The body of the loop over the URLs. -/
def request {σ : Type} (settings : Downloader σ) (d : Downloading) (url : Bytes) : Downloading :=
  let next := { d with requestCount := d.requestCount + 1 }
  match outputOf settings.outDir url with
  | none => { next with terminated := true }
  | some output =>
    if d.skips settings output then { next with skipped := d.skipped ++ [d.requestCount] }
    else { next with requested := d.requested ++ [d.requestCount] }

/-- `on_response`, up to its counter. -/
def onResponse {σ : Type} (settings : Downloader σ) (d : Downloading) (index : Nat)
    (output : Bytes) (answer : DownloadAnswer) : Downloading :=
  let next := { d with called := d.called ++ [index] }
  match answer with
  | .found saves =>
    if d.skips settings output then { next with skipped := d.skipped ++ [index] }
    else
      { next with
        there := fun path => d.there path || (saves && path = output)
        counting := d.counting + 1 }
  | _ => { next with counting := d.counting + 1 }

/-- What happens leaves this behind. -/
def after {σ : Type} (settings : Downloader σ) (d : Downloading) : DownloadLabel → Downloading
  | .requests =>
    match settings.urls[d.requestCount]? with
    | none => d
    | some url => d.request settings url
  | .answered index answer =>
    match (settings.urls[index]?).bind (outputOf settings.outDir) with
    | none => d
    | some output => d.onResponse settings index output answer
  | .loads => { d with counting := d.counting - 1, loaded := d.loaded ++ [d.responseCount] }
  | .stores call =>
    match d.loaded[call]? with
    | none => d
    | some value =>
      { d with
        loaded := d.loaded.eraseIdx call
        responseCount := value + 1
        comparing := d.comparing + 1 }
  | .compares =>
    { d with
      comparing := d.comparing - 1
      exitFlag := d.exitFlag || decide (settings.urls.length ≤ d.responseCount) }
  | .fileChanged path exist =>
    { d with there := fun other => if other = path then exist else d.there other }
  | .interrupted => { d with exitFlag := true, interrupted := true }

/-- Whether something can happen. -/
def Enabled {σ : Type} (settings : Downloader σ) (d : Downloading) : DownloadLabel → Prop
  | .requests => d.requestCount < settings.urls.length
  | .answered index _ => index ∈ d.requested
  | .loads => 0 < d.counting
  | .stores call => call < d.loaded.length
  | .compares => 0 < d.comparing
  | .fileChanged _ _ | .interrupted => True

instance {σ : Type} (settings : Downloader σ) (d : Downloading) :
    ∀ label, Decidable (d.Enabled settings label)
  | .requests => inferInstanceAs (Decidable (_ < _))
  | .answered index _ => inferInstanceAs (Decidable (index ∈ d.requested))
  | .loads => inferInstanceAs (Decidable (_ < _))
  | .stores _ => inferInstanceAs (Decidable (_ < _))
  | .compares => inferInstanceAs (Decidable (_ < _))
  | .fileChanged _ _ | .interrupted => inferInstanceAs (Decidable True)

end Downloading

/-- Everything that can happen once the URLs are read, on any files. -/
def downloader {σ : Type} (settings : Downloader σ) : System Downloading DownloadLabel where
  init d := d = { there := d.there }
  step d label next :=
    d.terminated = false ∧ d.Enabled settings label ∧ next = d.after settings label

end Hnw.Example
