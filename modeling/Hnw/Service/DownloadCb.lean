import Hnw.Service.Download
import Hnw.Service.RecvFile
import Hnw.Util.Url

/-!
# The events of a download

`Service::download_cb` handles the events of one task's connection and
`Service::on_download_status_change` tells the user's callback about them. What a call does
outside of the task is recorded as actions, in order: the request it sends, the calls of the user's
callback with their answers, and what it does to the connection. Log texts are left out.
-/

namespace Hnw.Service

open Hnw.Http Hnw.Util Hnw.Util.UnorderedMultimap

/-- `HNW_INVALID_HANDLE`. -/
def hnwInvalidHandle : Int := -1

/-- `HNW_BASE_OK`. -/
def hnwBaseOk : Int := 0

/-- `HNW_BASE_ALLOC_FAIL`. -/
def hnwBaseAllocFail : Int := -998

/-- `HNW_BASE_PARAMS_IS_INVALID`. -/
def hnwBaseParamsIsInvalid : Int := -968

/-- `HNW_HTTP_NOT_SUPPORT_RANGE`. -/
def hnwHttpNotSupportRange : Int := -950

/-- `HTTP_METHOD_GET`. -/
def httpMethodGet : Bytes := ascii "GET"

/-- The arguments of a call of the user's callback. -/
structure DownloadReport where
  /-- `url`. -/
  url : Bytes
  /-- `output`. -/
  output : Bytes
  /-- `range`. -/
  range : HttpRange
  /-- `pos`. -/
  pos : Nat
  /-- `status`. -/
  status : Int
deriving DecidableEq

/-- `HTTP_DOWNLOAD_CB`. What it answers may depend on all it was told, the last report last. -/
abbrev HttpDownloadCb := List DownloadReport → Bool

/-- What a call does outside of the task. -/
inductive DownloadAction (σ : Type) where
  /-- `HnwHttp_RawRequest`, with no data. -/
  | rawRequest (method uri : Bytes) (extHead : σ)
  /-- The user's callback is called and answers. -/
  | callback (report : DownloadReport) (answer : Bool)
  /-- `HnwBase_SetEvntCB` with a null callback. -/
  | clearEventCb (handle : Int)
  /-- `HnwBase_Close`. -/
  | close (handle : Int)

/-- The report an action makes. -/
def DownloadAction.report? {σ : Type} : DownloadAction σ → Option DownloadReport
  | .callback report _ => some report
  | _ => none

/-- `DownloadTask` with its callback and response, the files, and what was done so far. -/
structure DownloadState (σ : Type) where
  /-- The fields that are not listed here. -/
  task : DownloadTask
  /-- `cb`; `none` is empty. -/
  cb : Option HttpDownloadCb
  /-- `response`; `none` is null. -/
  response : Option (Response σ) := none
  /-- `error`. -/
  error : Int := hnwBaseOk
  /-- The files. -/
  files : Files
  /-- What was done, in order. -/
  actions : List (DownloadAction σ) := []

/-- The events `download_cb` tells apart. -/
inductive DownloadEvent (σ : Type) where
  /-- `HNW_BASE_CONNECT_ESTABLISH`, with what `HnwHttp_RawRequest` is going to return. -/
  | connectEstablish (returned : Int)
  /-- `HNW_HTTP_RECV_RESPONSE_HEAD`. -/
  | recvResponseHead (response : Response σ)
  /-- `HNW_BASE_ERROR`. -/
  | error (code : Int)
  /-- Any other. -/
  | other

namespace DownloadState

variable {σ : Type} [UnorderedMultimap σ]

/-- More is done. -/
def act (s : DownloadState σ) (more : List (DownloadAction σ)) : DownloadState σ :=
  { s with actions := s.actions ++ more }

/-- What the callback would be told. -/
def report (s : DownloadState σ) : DownloadReport :=
  { url := s.task.url, output := s.task.output, range := s.task.total,
    pos := ((s.response.bind fun response => response.body).map Body.writePos).getD 0,
    status := s.error }

/-- What a callback answers to it. -/
def answer (s : DownloadState σ) (cb : HttpDownloadCb) : Bool :=
  cb (s.actions.filterMap DownloadAction.report? ++ [s.report])

/-- The callback does not want to go on, was told an error, or the section is written. -/
def stops (s : DownloadState σ) (cb : HttpDownloadCb) : Bool :=
  !s.answer cb || s.error != hnwBaseOk || s.task.total.sectionSize.toNat == s.report.pos

/-- `on_download_status_change`, and what it returns. -/
def onDownloadStatusChange (handle : Int) (s : DownloadState σ) : DownloadState σ × Bool :=
  match s.cb with
  | none => (s, false)
  | some cb =>
    let called := s.act [.callback s.report (s.answer cb)]
    if s.stops cb then
      (if handle ≠ hnwInvalidHandle then called.act [.clearEventCb handle, .close handle]
        else called, false)
    else (called, true)

/-- What `recv_file_response` returns; `none` where an exception leaves it. -/
def recvFileReturns (surroundings : Surroundings) (s : DownloadState σ) (response : Response σ) :
    Option Int :=
  (recvRange getContentRange response.head).map fun range =>
    range.elim hnwBaseParamsIsInvalid fun range =>
      let made := FileBody.generate surroundings.platform s.files.fs s.task.output range
        s.task.fflag
      if made.1.isSome then hnwBaseOk else hnwBaseAllocFail

/-- From the call of `recv_file_response` to the end of `download_cb`. -/
def installFile (surroundings : Surroundings) (handle : Int) (response : Response σ)
    (s : DownloadState σ) : Option (DownloadState σ) := do
  let returned ← s.recvFileReturns surroundings response
  let (response, files) ←
    recvFileResponse surroundings s.files response s.task.output s.task.fflag
  let s := { s with response := some response, files }
  if returned ≠ hnwBaseOk then
    let s := ({ s with error := returned }.onDownloadStatusChange handle).1
    return (s.onDownloadStatusChange handle).1
  else
    return (s.onDownloadStatusChange handle).1

/-- What a `200` answer changes in the task before the callback is asked. -/
def wholeResource (response : Response σ) (s : DownloadState σ) : DownloadState σ :=
  { s with
    task.total := { s.task.total with
      useEndEndpoint := true, useStartEndpoint := true,
      total := UInt64.ofInt (getHeadInt64 response.head httpLen 0) }
    error := hnwHttpNotSupportRange }

/-- The branch of `download_cb` for the first response head. -/
def onResponseHead (surroundings : Surroundings) (handle : Int) (response : Response σ)
    (s : DownloadState σ) : Option (DownloadState σ) :=
  let s := { s with response := some response }
  if response.line.statusCode = httpStatusOk then
    let (s, goesOn) := (s.wholeResource response).onDownloadStatusChange handle
    if goesOn then { s with error := hnwBaseOk }.installFile surroundings handle response
    else some s
  else if response.line.statusCode = httpStatusPartial then
    (contentRangeLeft response.head s.task.total).bind fun total =>
      { s with task.total := total }.installFile surroundings handle response
  else s.installFile surroundings handle response

/-- `download_cb`; `none` where an exception leaves it. -/
def downloadCb (surroundings : Surroundings) (handle : Int) (event : DownloadEvent σ)
    (s : DownloadState σ) : Option (DownloadState σ) :=
  match event with
  | .connectEstablish returned =>
    (getPathForUrl s.task.url).map fun path =>
      let s := s.act [.rawRequest httpMethodGet path (setRange empty s.task.total).1]
      ({ s with error := returned }.onDownloadStatusChange handle).1
  | .recvResponseHead response =>
    if s.response.isSome then some s else s.onResponseHead surroundings handle response
  | .error code =>
    let s := ({ s with error := code }.onDownloadStatusChange handle).1
    some (s.onDownloadStatusChange handle).1
  | .other => some (s.onDownloadStatusChange handle).1

end DownloadState

end Hnw.Service
