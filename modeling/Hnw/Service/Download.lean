import Hnw.Http.Range

/-!
# Downloads over several connections

`Service::download` asks for the status of the resource first; its answer decides what is
fetched. On `206` the requested section is split over as many tasks as there are connections.
Callbacks, log texts and the requests the tasks send are left out.
-/

namespace Hnw.Service

open Hnw.Http

/-- `DownloadTask`, without its callback and response. -/
structure DownloadTask where
  /-- `url`. -/
  url : Bytes
  /-- `output`. -/
  output : Bytes
  /-- `fflag`. -/
  fflag : FileFlag := flagCreateNew
  /-- `conn_num`, an `int`. -/
  connNum : Int32 := 1
  /-- `total`. -/
  total : HttpRange := {}
deriving DecidableEq

/-- `HttpResourceStatus`: the fields `download` reads. -/
structure HttpResourceStatus where
  /-- `host`. -/
  host : Bytes := []
  /-- `location`. -/
  location : Bytes := []
  /-- `size`. -/
  size : UInt64 := 0
  /-- `status`. -/
  status : Bytes := ascii "200"

/-- `HTTP_STATUS_OK`. -/
def httpStatusOk : Bytes := ascii "200"

/-- `HTTP_STATUS_PARTIAL`. -/
def httpStatusPartial : Bytes := ascii "206"

/-- `HTTP_STATUS_MOVE_P`. -/
def httpStatusMoveP : Bytes := ascii "301"

/-- `HTTP_STATUS_MOVE_T`. -/
def httpStatusMoveT : Bytes := ascii "302"

/-- The error codes of a download. -/
inductive DownloadError where
  | paramsIsInvalid
  | badMessage
  | resIsInvalid
deriving DecidableEq, Repr

/-- What the status callback does with a task. -/
inductive Outcome where
  /-- `task->error` is set and reported. -/
  | error (code : DownloadError)
  /-- An empty resource: the task is reported without any further request. -/
  | finished
  /-- `download(task)` once more, at the new address. -/
  | redirect (task : DownloadTask)
  /-- The tasks started, in order. -/
  | tasks (subs : List DownloadTask)
  /-- Undefined behaviour: a division by zero or a signed overflow. -/
  | fault
deriving DecidableEq

/-- `download(url, output, cb, con_num, range, file_flag)`: the task made of its arguments. -/
def mainTask (url output : Bytes) (conNum : UInt64) (range : HttpRange) (fileFlag : FileFlag) :
    Except DownloadError DownloadTask :=
  if conNum = 0 ∨ url = [] ∨ output = [] then .error .paramsIsInvalid
  else
    .ok { url, output, fflag := fileFlag, connNum := conNum.toUInt32.toInt32, total := range }

/-- The loop over the explicit sub-tasks, and where the last task starts. -/
def subTasks (task : DownloadTask) (sSize : UInt64) : Nat → UInt64 → List DownloadTask × UInt64
  | 0, start => ([], start)
  | count + 1, start =>
    let subtask : DownloadTask :=
      { url := task.url, output := task.output, fflag := flagOpen, connNum := 1,
        total := { useStartEndpoint := false, useEndEndpoint := false, total := task.total.total,
                   start, stop := start + sSize } }
    let later := subTasks task sSize count (subtask.total.stop + 1)
    (subtask :: later.1, later.2)

/-- The task for what the explicit ones leave. -/
def lastTask (task : DownloadTask) (start : UInt64) : DownloadTask :=
  { url := task.url, output := task.output, fflag := flagOpen, connNum := 1,
    total := { useStartEndpoint := false, useEndEndpoint := true, total := task.total.total,
               start } }

/-- `s_size`, an unsigned quotient: the `int` divisor is converted to `uint64_t`. -/
def sSize (task : DownloadTask) : UInt64 :=
  task.total.sectionSize / task.connNum.toInt64.toUInt64

/-- The `206` branch of the status callback. -/
def partialBranch (task : DownloadTask) (size : UInt64) : Outcome :=
  if size = 0 then .finished
  else
    let task := { task with total := { task.total with total := size } }
    if task.connNum = 0 then .fault
    else if sSize task = 0 then .error .badMessage
    else if task.connNum = Int32.minValue then .fault
    else
      let (subs, start) :=
        subTasks task (sSize task) (task.connNum.toInt - 1).toNat task.total.sectionStart
      .tasks (subs ++ [lastTask task start])

/-- The status callback of `download(task)`. -/
def onStatus (task : DownloadTask) (status : HttpResourceStatus) : Outcome :=
  if status.status = httpStatusOk then
    if status.size = 0 then .finished
    else
      .tasks [{ task with fflag := flagOpen, connNum := 1,
                          total := { task.total with useStartEndpoint := true,
                                                     useEndEndpoint := true,
                                                     total := status.size } }]
  else if status.status = httpStatusMoveP ∨ status.status = httpStatusMoveT then
    .redirect { task with url := status.host ++ status.location }
  else if status.status = httpStatusPartial then partialBranch task status.size
  else .error .resIsInvalid

/-- The section a task fetches, as positions in the resource. -/
def DownloadTask.piece (task : DownloadTask) : Nat × Nat :=
  (task.total.sectionStart.toNat, task.total.sectionEnd.toNat)

end Hnw.Service
