import Hnw.Parser.Parser
import Hnw.Service.Download
import Hnw.Theory.Transition

/-!
# The connections of a download

The status callback of `Service::download` makes the output file with `util::do_file_by_flag` and
starts the tasks. Each task has a connection and a parser of its own, and all of them share the
files. The threads of the service run the reads of the connections in any order.
-/

namespace Hnw.Service

open Hnw.Http Hnw.Util Hnw.Parser Hnw.Theory

variable {σ : Type} [UnorderedMultimap σ]

/-- `util::do_file_by_flag`: what it returns, and the files it leaves. -/
def doFileByFlag (platform : Platform) (fs : FileSystem) (fileName : Bytes) (size : UInt64)
    (flag : FileFlag) : Bool × FileSystem :=
  match fs fileName with
  | none =>
    if flag.has flagCreate || flag.has flagCreateNew then
      match platform.createNullFile fs fileName size with
      | none => (false, fs)
      | some made => (true, made)
    else (false, fs)
  | some _ =>
    if flag.has flagCreateNew then
      let removed := removeFile fs fileName
      match platform.createNullFile removed fileName size with
      | none => (false, removed)
      | some made => (true, made)
    else (true, fs)

/-- The files that the status callback leaves; it does not look at what `do_file_by_flag`
returns. -/
def statusFiles (platform : Platform) (fs : FileSystem) (task : DownloadTask)
    (status : HttpResourceStatus) : FileSystem :=
  if status.status = httpStatusOk ∨ status.status = httpStatusPartial then
    (doFileByFlag platform fs task.output status.size task.fflag).2
  else fs

/-- What `download_cb` may do in the head events of a task's connection: it has the body of the
first response received into the output file, or it does not go on. -/
def DownloadTask.Handles (task : DownloadTask) (actions : List HeadAction) : Prop :=
  actions = [.recvFile task.output task.fflag] ∨ actions = []

/-- The files, and the parsers of the connections. The files that a parser was made with are those
of that moment; it runs on the shared ones. -/
structure Fetching (σ : Type) where
  /-- The shared files. -/
  files : Files
  /-- The parsers. -/
  parsers : List (ParserState ResponseLine σ)

/-- What happens to the connections. -/
inductive FetchLabel where
  /-- A chunk arrives at a connection, and `input_data` returns. -/
  | read (index : Nat) (chunk : Bytes)
  /-- A connection ends: its session is destroyed, and its message where no one keeps it. -/
  | ended (index : Nat)

/-- A parser of a connection, over the shared files. -/
def Fetching.parser (s : Fetching σ) (index : Nat) : Option (ParserState ResponseLine σ) :=
  (s.parsers[index]?).map fun parser => { parser with files := s.files }

/-- One step. -/
def Fetching.Step (setting : Setting ResponseLine σ) (s : Fetching σ) :
    FetchLabel → Fetching σ → Prop
  | .read index chunk, next =>
    ∃ parser o, s.parser index = some parser ∧ InputData setting parser chunk o ∧
      next = { files := o.state.files, parsers := s.parsers.set index o.state }
  | .ended index, next =>
    ∃ parser, s.parser index = some parser ∧
      next = { files := (reset setting parser).files, parsers := s.parsers.eraseIdx index }

/-- The tasks of a download, from the answer about the resource on. -/
def fetching (setting : Setting ResponseLine σ) (files : Files) (task : DownloadTask)
    (status : HttpResourceStatus) : System (Fetching σ) FetchLabel where
  init s := ∃ subs, onStatus task status = .tasks subs ∧
    s.files = { files with fs := statusFiles setting.surroundings.platform files.fs task status } ∧
    List.Forall₂ (fun sub parser => ∃ actions, DownloadTask.Handles sub actions ∧
      parser = fresh setting s.files actions) subs s.parsers
  step s label next := s.Step setting label next

end Hnw.Service
