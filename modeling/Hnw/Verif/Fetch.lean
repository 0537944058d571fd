import Hnw.Service.Fetch
import Hnw.Verif.PartialFile
import Hnw.Verif.RecvFile
import Hnw.Verif.Termination

/-!
# What a download stores

The tasks of a download open the output file with `HTTP_FILE_FLAG_OPEN`, that is, for reading. So
no byte that arrives at any of their connections is ever stored, and the first body byte of a
response that is received into the file is read for ever.
-/

namespace Hnw.Service

open Hnw.Http Hnw.Util Hnw.Parser Hnw.Theory

/-- The names of temporary files. -/
def Temporary (surroundings : Surroundings) (path : Bytes) : Prop :=
  ∃ count, path = tempName (surroundings.uuid count)

/-- No file but a temporary one is changed. -/
def KeepsFiles (surroundings : Surroundings) (before after : FileSystem) : Prop :=
  ∀ path, ¬ Temporary surroundings path → after path = before path

/-- A body that neither writes to a file nor deletes it, unless the file is temporary. -/
def Harmless (surroundings : Surroundings) : Body → Prop
  | .file body => body.flag = flagOpen ∨ Temporary surroundings body.fileName
  | _ => True

variable {surroundings : Surroundings} {fs : FileSystem}

/-- Nothing happens. -/
theorem KeepsFiles.refl (surroundings : Surroundings) (fs : FileSystem) :
    KeepsFiles surroundings fs fs :=
  fun _ _ => rfl

/-- One thing happens after another. -/
theorem KeepsFiles.trans {first second third : FileSystem}
    (early : KeepsFiles surroundings first second)
    (late : KeepsFiles surroundings second third) : KeepsFiles surroundings first third :=
  fun path apart => (late path apart).trans (early path apart)

/-- Something that happens to one temporary file. -/
theorem keeps_of_temporary {after : FileSystem} {name : Bytes}
    (temporary : Temporary surroundings name)
    (others : ∀ path, path ≠ name → after path = fs path) :
    KeepsFiles surroundings fs after := by
  intro path apart
  apply others path
  rintro rfl
  exact apart temporary

/-- `HTTP_FILE_FLAG_OPEN` has no bits. -/
theorem flagOpen_has (bit : FileFlag) : flagOpen.has bit = false := by
  simp [FileFlag.has, flagOpen]

/-- What a body of a file that is only opened writes. -/
theorem writeBody_opened {body : FileBody} (opened : body.flag = flagOpen) (buff : Bytes) :
    body.writeBody fs buff = (0, body, fs) := by
  have stuck : body.flag.has flagWrite = false := by rw [opened, flagOpen_has]
  have nothing := FileBody.writeSize_stuck (.inl stuck) buff.length
  simp only [FileBody.writeBody, nothing, List.take_zero, writeFile_nil, Nat.add_zero]

/-- A write to a harmless body. -/
theorem Harmless.writeBody {body : Body} (harmless : Harmless surroundings body) (buff : Bytes) :
    Harmless surroundings (body.writeBody fs buff).2.1 ∧
      KeepsFiles surroundings fs (body.writeBody fs buff).2.2 := by
  cases body with
  | raw body => exact ⟨trivial, .refl _ _⟩
  | empty => exact ⟨trivial, .refl _ _⟩
  | file body =>
    rcases harmless with opened | temporary
    · simp only [Body.writeBody, writeBody_opened opened]
      exact ⟨.inl opened, .refl _ _⟩
    · refine ⟨.inr temporary, keeps_of_temporary temporary fun path other => ?_⟩
      simp only [Body.writeBody, FileBody.writeBody, writeFile, if_neg other]

/-- The destructor of a harmless body. -/
theorem Harmless.destroy {body : Body} (harmless : Harmless surroundings body) :
    KeepsFiles surroundings fs (body.destroy fs) := by
  cases body with
  | raw body => exact .refl _ _
  | empty => exact .refl _ _
  | file body =>
    rcases harmless with opened | temporary
    · simp only [Body.destroy, FileBody.destroy, opened, flagOpen_has, Bool.false_eq_true, if_false]
      exact .refl _ _
    · refine keeps_of_temporary temporary fun path other => ?_
      simp only [Body.destroy, FileBody.destroy]
      split
      · simp only [removeFile, if_neg other]
      · rfl

variable {platform : Platform} {name : Bytes} {range : HttpRange} {flag : FileFlag}

/-- `init` touches no file but its own. -/
theorem init_others (platform : Platform) (fs : FileSystem) (range : HttpRange) (flag : FileFlag)
    {path : Bytes} (other : path ≠ name) :
    (FileBody.init platform fs name range flag).2 path = fs path := by
  unfold FileBody.init
  split
  · split
    · split
      · rfl
      · next made created => exact (platform.creates _ _ _ _ created).2 path other
    · rfl
  · split
    · simp only
      have removed : removeFile fs name path = fs path := by simp only [removeFile, if_neg other]
      split
      · exact removed
      · next made created => exact ((platform.creates _ _ _ _ created).2 path other).trans removed
    · rfl

/-- `generate` touches no file but its own. -/
theorem generate_others (platform : Platform) (fs : FileSystem) (range : HttpRange)
    (flag : FileFlag) {path : Bytes} (other : path ≠ name) :
    (FileBody.generate platform fs name range flag).2 path = fs path := by
  have opened := init_others platform fs range flag other
  unfold FileBody.generate
  split
  · next made => rwa [made] at opened
  · next left made =>
    rw [made] at opened
    simp only [FileBody.destroy]
    split
    · simp only [removeFile, if_neg other]
      exact opened
    · exact opened

/-- A file that is only opened stays as it is, and so does its body's flag. -/
theorem generate_opened (platform : Platform) (fs : FileSystem) (name : Bytes)
    (range : HttpRange) :
    (FileBody.generate platform fs name range flagOpen).2 = fs ∧
      ∀ body, (FileBody.generate platform fs name range flagOpen).1 = some body →
        body.flag = flagOpen := by
  constructor
  · have opened : (FileBody.init platform fs name range flagOpen).2 = fs := by
      unfold FileBody.init
      split <;> simp only [flagOpen_has, Bool.or_self, Bool.false_eq_true, if_false]
    unfold FileBody.generate
    split
    · next made => rwa [made] at opened
    · next left made =>
      rw [made] at opened
      simpa only [FileBody.destroy, flagOpen_has, Bool.false_eq_true, if_false] using opened
  · intro body made
    have kept : (FileBody.openedFlag flagOpen) = flagOpen := by
      simp only [FileBody.openedFlag, flagOpen_has, Bool.or_self, Bool.false_eq_true, if_false]
    rw [← kept]
    exact (FileBody.generate_spec (Prod.ext made rfl)).2.1

/-! ## One parser -/

section Parsers

variable {σ : Type} [UnorderedMultimap σ] {holds : Bool} {s : ParserState ResponseLine σ}

/-- A parser whose application receives nothing into a file but what it only opens. -/
structure Reads (surroundings : Surroundings) (s : ParserState ResponseLine σ) : Prop where
  /-- What the application will do. -/
  opens : ∀ path flag, .recvFile path flag ∈ s.actions → flag = flagOpen
  /-- The body it receives. -/
  body : ∀ body, s.tmp.body = some body → Harmless surroundings body

/-- What a call leaves: the parser still only reads files, and they are the same. -/
def LeavesFiles (surroundings : Surroundings) (s next : ParserState ResponseLine σ) : Prop :=
  Reads surroundings next ∧ KeepsFiles surroundings s.files.fs next.files.fs

omit [UnorderedMultimap σ] in
/-- A change elsewhere. -/
theorem Reads.edit (reads : Reads surroundings s) (status : PStatus) (line : ResponseLine)
    (head : σ) (cache : Bytes) :
    LeavesFiles surroundings s { s with status, tmp := { s.tmp with line, head }, cache } :=
  ⟨⟨reads.opens, reads.body⟩, .refl _ _⟩

/-- `reset` releases the message. -/
theorem Reads.reset (reads : Reads surroundings s) :
    LeavesFiles surroundings s (reset ⟨httpResponseParser, surroundings, holds⟩ s) := by
  refine ⟨⟨reads.opens, nofun⟩, ?_⟩
  simp only [Parser.reset]
  split
  · exact .refl _ _
  · split
    · exact .refl _ _
    · next body present => exact (reads.body body present).destroy

/-- `recv_file_response` with `HTTP_FILE_FLAG_OPEN`. -/
theorem recvFileResponse_opened {files left : Files} {message made : Response σ} {path : Bytes}
    (received : recvFileResponse surroundings files message path flagOpen = some (made, left))
    (before : ∀ body, message.body = some body → Harmless surroundings body) :
    left.fs = files.fs ∧ ∀ body, made.body = some body → Harmless surroundings body := by
  unfold recvFileResponse recvFile at received
  cases wanted : recvRange getContentRange message.head with
  | none => simp [wanted] at received
  | some found =>
    cases found with
    | none =>
      simp only [wanted, Option.bind_eq_bind, Option.bind_some, Option.pure_def,
        Option.some.injEq, Prod.mk.injEq] at received
      obtain ⟨rfl, rfl⟩ := received
      exact ⟨rfl, before⟩
    | some range =>
      obtain ⟨same, opened⟩ := generate_opened surroundings.platform files.fs path range
      simp only [wanted, Option.bind_eq_bind, Option.bind_some, Option.pure_def,
        Option.some.injEq, Prod.mk.injEq] at received
      obtain ⟨rfl, rfl⟩ := received
      refine ⟨same, fun body present => ?_⟩
      obtain ⟨file, generated, rfl⟩ := Option.map_eq_some_iff.mp present
      exact .inl (opened file generated)

/-- The head event. -/
theorem Reads.headEvent (reads : Reads surroundings s) {handled : ParserState ResponseLine σ}
    (event : headEvent ⟨httpResponseParser, surroundings, holds⟩ s = some handled) :
    LeavesFiles surroundings s handled := by
  unfold Parser.headEvent at event
  split at event
  · cases event
    exact ⟨reads, .refl _ _⟩
  · next actions some_ =>
    cases event
    refine ⟨⟨fun path flag member => ?_, reads.body⟩, .refl _ _⟩
    exact reads.opens path flag (some_ ▸ List.mem_cons_of_mem _ member)
  · next path flag actions some_ =>
    have opened : flag = flagOpen := reads.opens path flag (some_ ▸ List.mem_cons_self)
    subst opened
    obtain ⟨⟨tmp, files⟩, received, rfl⟩ := Option.map_eq_some_iff.mp event
    obtain ⟨same, harmless⟩ := recvFileResponse_opened received reads.body
    refine ⟨⟨fun path flag member => ?_, harmless⟩, ?_⟩
    · exact reads.opens path flag (some_ ▸ List.mem_cons_of_mem _ member)
    · exact same ▸ .refl _ _

/-- A body that `auto_create_body` makes is in memory or in a temporary file. -/
theorem autoCreateBody_temporary {files left : Files} {message made : Response σ}
    (created : Response.autoCreateBody surroundings files message = some (made, left)) :
    (∀ body, made.body = some body → Harmless surroundings body) ∧
      KeepsFiles surroundings files.fs left.fs := by
  unfold Response.autoCreateBody at created
  split at created
  · cases created
    refine ⟨fun body present => ?_, .refl _ _⟩
    cases present
    exact trivial
  · cases created
    have temporary : Temporary surroundings (tempName (surroundings.uuid files.uuids)) := ⟨_, rfl⟩
    refine ⟨fun body present => ?_, ?_⟩
    · obtain ⟨file, generated, rfl⟩ := Option.map_eq_some_iff.mp present
      refine .inr ?_
      rw [(FileBody.generate_spec (Prod.ext generated rfl)).1]
      exact temporary
    · exact keeps_of_temporary temporary fun path other => generate_others _ _ _ _ other

/-- The body that is made where there is none. -/
theorem Reads.createBody (reads : Reads surroundings s) {ready : ParserState ResponseLine σ}
    (made : createBody ⟨httpResponseParser, surroundings, holds⟩ s = some ready) :
    LeavesFiles surroundings s ready := by
  rcases createBody_cases made with ⟨rfl, _⟩ | ⟨tmp, files, created, rfl⟩
  · exact ⟨reads, .refl _ _⟩
  · obtain ⟨harmless, keeps⟩ := autoCreateBody_temporary created
    exact ⟨⟨reads.opens, harmless⟩, keeps⟩

omit [UnorderedMultimap σ] in
/-- One thing happens after another. -/
theorem LeavesFiles.then {middle next : ParserState ResponseLine σ}
    (early : LeavesFiles surroundings s middle)
    (late : Reads surroundings middle → LeavesFiles surroundings middle next) :
    LeavesFiles surroundings s next :=
  ⟨(late early.1).1, early.2.trans (late early.1).2⟩

/-- The end of the head, once there is a body. -/
theorem Reads.enterBody (reads : Reads surroundings s) (events : List (Event ResponseLine σ)) :
    LeavesFiles surroundings s
      (enterBody ⟨httpResponseParser, surroundings, holds⟩ s events).state := by
  unfold Parser.enterBody
  split
  · split <;> exact ⟨reads, .refl _ _⟩
  · split
    · exact reads.reset
    · exact reads.edit .body s.tmp.line s.tmp.head s.cache

/-- The end of the head. -/
theorem Reads.endOfHead (reads : Reads surroundings s) :
    LeavesFiles surroundings s
      (endOfHead ⟨httpResponseParser, surroundings, holds⟩ s).state := by
  unfold Parser.endOfHead
  simp only
  split
  · exact ⟨reads, .refl _ _⟩
  · next handled event =>
    have handles := reads.headEvent event
    split
    · exact handles
    · next ready made =>
      exact (handles.then fun reads => reads.createBody made).then fun reads => reads.enterBody _

/-- A chunk of the body. -/
theorem Reads.onBody (reads : Reads surroundings s) (data : Bytes) :
    LeavesFiles surroundings s
      (onBody ⟨httpResponseParser, surroundings, holds⟩ s data).state := by
  unfold Parser.onBody
  split
  · exact ⟨reads, .refl _ _⟩
  · next body present =>
    have written := @Harmless.writeBody surroundings s.files.fs _ (reads.body body present) data
    have wrote : LeavesFiles surroundings s
        { s with tmp := { s.tmp with body := some (body.writeBody s.files.fs data).2.1 },
                 files := { s.files with fs := (body.writeBody s.files.fs data).2.2 } } := by
      refine ⟨⟨reads.opens, fun body present => ?_⟩, written.2⟩
      cases present
      exact written.1
    simp only
    split
    · exact wrote.then fun reads => reads.reset
    · exact wrote

/-- A call of the parser. -/
theorem Reads.callParserCb (reads : Reads surroundings s) (data : Bytes) :
    LeavesFiles surroundings s
      (callParserCb ⟨httpResponseParser, surroundings, holds⟩ s data).state := by
  cases data with
  | nil => exact ⟨reads, .refl _ _⟩
  | cons ch rest =>
    simp only [Parser.callParserCb]
    split
    · rcases onStartLine_cases ⟨httpResponseParser, surroundings, holds⟩ s ch with
        ⟨_, call, _⟩ | call | ⟨line, call⟩
      · rw [call]
        exact ⟨reads, .refl _ _⟩
      · rw [call]
        exact reads.edit s.status s.tmp.line s.tmp.head _
      · rw [call]
        exact reads.edit .head line s.tmp.head []
    · rcases onHead_cases ⟨httpResponseParser, surroundings, holds⟩ s ch with
        ⟨_, _, call⟩ | ⟨_, call, _⟩ | call | ⟨head, call⟩
      · rw [call]
        exact reads.endOfHead
      · rw [call]
        exact ⟨reads, .refl _ _⟩
      · rw [call]
        exact reads.edit s.status s.tmp.line s.tmp.head _
      · rw [call]
        exact reads.edit .head s.tmp.line head []
    · exact reads.onBody (ch :: rest)
    · exact ⟨reads, .refl _ _⟩

/-- A chunk. -/
theorem Reads.inputData (reads : Reads surroundings s) {chunk : Bytes}
    {o : Theory.Outcome (ParserState ResponseLine σ) (Event ResponseLine σ) Stop}
    (read : InputData ⟨httpResponseParser, surroundings, holds⟩ s chunk o) :
    LeavesFiles surroundings s o.state := by
  refine read.invariant (fun later rest leaves _ => ?_) ⟨reads, KeepsFiles.refl _ _⟩
  exact leaves.then fun reads => reads.callParserCb rest

omit [UnorderedMultimap σ] in
/-- A parser over other files. -/
theorem Reads.withFiles (reads : Reads surroundings s) (files : Files) :
    Reads surroundings { s with files } := ⟨reads.opens, reads.body⟩

end Parsers

/-! ## All connections -/

section Connections

variable {σ : Type} [UnorderedMultimap σ] {holds : Bool} {files : Files} {task : DownloadTask}
  {status : HttpResourceStatus} {s : Fetching σ}

/-- What a task that is started has of the task that asked, and that it only opens the output
file. -/
structure MadeFrom (task sub : DownloadTask) : Prop where
  /-- The URL is that of the task that asked. -/
  url : sub.url = task.url
  /-- The output file is that of the task that asked. -/
  output : sub.output = task.output
  /-- The flag only opens. -/
  opens : sub.fflag = flagOpen

/-- The explicit tasks are made from the task that asked. -/
theorem subTasks_made (task : DownloadTask) (size : UInt64) (count : Nat) (start : UInt64) :
    ∀ sub ∈ (subTasks task size count start).1, MadeFrom task sub := by
  induction count generalizing start with
  | zero => simp [subTasks]
  | succ count ih =>
    intro sub member
    simp only [subTasks, List.mem_cons] at member
    rcases member with rfl | later
    · exact ⟨rfl, rfl, rfl⟩
    · exact ih _ sub later

/-- All tasks that are started are made from the task that asked. -/
theorem onStatus_made {subs : List DownloadTask} (started : onStatus task status = .tasks subs) :
    ∀ sub ∈ subs, MadeFrom task sub := by
  unfold onStatus at started
  split at started
  · split at started
    · cases started
    · cases started
      intro sub member
      rw [List.mem_singleton.mp member]
      exact ⟨rfl, rfl, rfl⟩
  · split at started
    · cases started
    · split at started
      · unfold partialBranch at started
        simp only at started
        split at started
        · cases started
        · split at started
          · cases started
          · split at started
            · cases started
            · split at started
              · cases started
              · cases started
                intro sub member
                rcases List.mem_append.mp member with explicit | last
                · have made := subTasks_made _ _ _ _ sub explicit
                  exact ⟨made.url, made.output, made.opens⟩
                · rw [List.mem_singleton.mp last]
                  exact ⟨rfl, rfl, rfl⟩
      · cases started

/-- What a download has stored: nothing. -/
structure StoresNothing (surroundings : Surroundings) (fs : FileSystem) (s : Fetching σ) :
    Prop where
  /-- The files are those that the status callback left. -/
  keeps : KeepsFiles surroundings fs s.files.fs
  /-- The parsers only read files. -/
  reads : ∀ parser ∈ s.parsers, Reads surroundings parser

/-- A parser that was just made only reads files. -/
theorem fresh_reads {sub : DownloadTask} (opened : sub.fflag = flagOpen) {actions : List HeadAction}
    (handles : sub.Handles actions) (files : Files) :
    Reads surroundings (fresh ⟨@httpResponseParser σ _, surroundings, holds⟩ files actions) := by
  refine ⟨fun path flag member => ?_, nofun⟩
  rcases handles with rfl | rfl
  · simp only [fresh, List.mem_singleton, HeadAction.recvFile.injEq] at member
    rw [member.2, opened]
  · simp [fresh] at member

omit [UnorderedMultimap σ] in
/-- A parser of a connection runs over the shared files. -/
theorem Fetching.parser_some {index : Nat} {parser : ParserState ResponseLine σ}
    (found : s.parser index = some parser) :
    parser.files = s.files ∧ ∃ member ∈ s.parsers, parser = { member with files := s.files } := by
  obtain ⟨member, here, rfl⟩ := Option.map_eq_some_iff.mp found
  exact ⟨rfl, member, List.mem_of_getElem? here, rfl⟩

omit [UnorderedMultimap σ] in
/-- The parser of a connection only reads files. -/
theorem StoresNothing.parser (stores : StoresNothing surroundings fs s) {index : Nat}
    {parser : ParserState ResponseLine σ} (found : s.parser index = some parser) :
    Reads surroundings parser := by
  obtain ⟨_, member, here, rfl⟩ := Fetching.parser_some found
  exact (stores.reads member here).withFiles s.files

/-- An element of the second of two lists that are related has one in the first. -/
theorem related_of_mem {α β : Type} {R : α → β → Prop} {first : List α} {second : List β}
    (related : List.Forall₂ R first second) {element : β} (member : element ∈ second) :
    ∃ other ∈ first, R other element := by
  induction related with
  | nil => cases member
  | cons here _ ih =>
    rcases List.mem_cons.mp member with rfl | later
    · exact ⟨_, List.mem_cons_self, here⟩
    · obtain ⟨other, listed, holds⟩ := ih later
      exact ⟨other, List.mem_cons_of_mem _ listed, holds⟩

/-- At the start nothing is stored. -/
theorem storesNothing_init
    (begins : (fetching ⟨@httpResponseParser σ _, surroundings, holds⟩ files task status).init s) :
    StoresNothing surroundings (statusFiles surroundings.platform files.fs task status) s := by
  obtain ⟨subs, started, same, connections⟩ := begins
  refine ⟨by rw [same]; exact .refl _ _, fun parser member => ?_⟩
  obtain ⟨sub, listed, actions, handles, rfl⟩ := related_of_mem connections member
  exact fresh_reads (onStatus_made started sub listed).opens handles _

/-- A step stores nothing. -/
theorem storesNothing_step {label : FetchLabel} {next : Fetching σ}
    (stores : StoresNothing surroundings fs s)
    (step : s.Step ⟨httpResponseParser, surroundings, holds⟩ label next) :
    StoresNothing surroundings fs next := by
  cases label with
  | read index chunk =>
    obtain ⟨parser, o, found, read, rfl⟩ := step
    obtain ⟨reads, keeps⟩ := (stores.parser found).inputData read
    rw [(Fetching.parser_some found).1] at keeps
    refine ⟨stores.keeps.trans keeps, fun other member => ?_⟩
    rcases List.mem_or_eq_of_mem_set member with kept | rfl
    · exact stores.reads other kept
    · exact reads
  | ended index =>
    obtain ⟨parser, found, rfl⟩ := step
    obtain ⟨_, keeps⟩ := @Reads.reset surroundings σ _ holds _ (stores.parser found)
    rw [(Fetching.parser_some found).1] at keeps
    exact ⟨stores.keeps.trans keeps, fun other member =>
      stores.reads other (List.mem_of_mem_eraseIdx member)⟩

/-- No run stores anything. -/
theorem storesNothing_reached
    (reached : (fetching ⟨@httpResponseParser σ _, surroundings, holds⟩ files task
      status).Reachable s) :
    StoresNothing surroundings (statusFiles surroundings.platform files.fs task status) s := by
  apply reached.invariant
  · intro first begins
    exact storesNothing_init begins
  · intro first label next stores step
    exact storesNothing_step stores step

/-- In every state that the connections of a download reach, whatever arrives at them in whatever
order, every file but temporary ones is what the status callback left. -/
theorem fetching_storesNothing
    (reached : (fetching ⟨@httpResponseParser σ _, surroundings, holds⟩ files task
      status).Reachable s) {path : Bytes} (apart : ¬ Temporary surroundings path) :
    s.files.fs path = statusFiles surroundings.platform files.fs task status path :=
  (storesNothing_reached reached).keeps path apart

end Connections

/-! ## The first byte of a body -/

section Hangs

variable {σ : Type} [UnorderedMultimap σ] {holds : Bool} {parser : ParserState ResponseLine σ}

/-- A parser that receives into the whole of a file which is only opened. -/
def opening (parser : ParserState ResponseLine σ) (path : Bytes) (later : List HeadAction)
    (size : Nat) (some_ : 0 < size) : ParserState ResponseLine σ :=
  { parser with
    status := .body, cache := [], actions := later
    tmp := { parser.tmp with body := some (.file (wholeFile path flagOpen size some_)) } }

omit [UnorderedMultimap σ] in
/-- A whole file waits for bytes. -/
theorem wholeFile_waits (path : Bytes) (flag : FileFlag) {size : Nat} (some_ : 0 < size) :
    Body.isComplete (.file (wholeFile path flag size some_)) = false := by
  simp only [Body.isComplete, FileBody.isComplete, FileBody.bodySize, wholeFile,
    beq_eq_false_iff_ne]
  omega

/-- The last byte of a head with a length, where the file is there. -/
theorem callParserCb_opens {path : Bytes} {later : List HeadAction} {n : Nat} {file : File}
    (atEnd : parser.status = .head ∧ parser.cache = [])
    (handles : parser.actions = .recvFile path flagOpen :: later)
    (length : DeclaresLength parser.tmp.head n) (small : n < 2 ^ 63)
    (present : parser.files.fs path = some file) (some_ : 0 < file.bytes.length) (more : Bytes) :
    callParserCb ⟨httpResponseParser, surroundings, holds⟩ parser (lf :: more) =
      ⟨opening parser path later file.bytes.length some_,
        [.recvHead parser.tmp.line parser.tmp.head], 1, none⟩ := by
  have range := @DeclaresLength.recvRange σ _ getContentRange parser.tmp.head n length small
  have opened := generate_existing surroundings.platform present (flagOpen_has flagCreateNew) some_
    (UInt64.ofInt n)
  have event : headEvent ⟨httpResponseParser, surroundings, holds⟩ parser =
      some { parser with
        actions := later
        tmp := { parser.tmp with
          body := some (.file (wholeFile path flagOpen file.bytes.length some_)) } } := by
    simp only [headEvent, handles, httpResponseParser, recvFileResponse, recvFile, range,
      Option.bind_eq_bind, Option.bind_some, opened, Option.pure_def, Option.map_some]
  have different : lf ≠ cr := by decide
  simp only [callParserCb, atEnd.1, onHead, if_neg different, if_true, atEnd.2, endOfHead, event,
    createBody, reduceCtorEq, Option.some.injEq, or_self, if_false, enterBody,
    wholeFile_waits, Bool.false_eq_true]
  rfl

/-- A byte of the body is never left behind. -/
theorem opening_stalls (path : Bytes) (later : List HeadAction) {size : Nat} (some_ : 0 < size)
    {data : Bytes} (unread : data ≠ []) :
    Stalls (callParserCb ⟨httpResponseParser, surroundings, holds⟩)
      (opening parser path later size some_) data := by
  have opened : (wholeFile path flagOpen size some_).flag = flagOpen := by
    simp only [wholeFile, FileBody.openedFlag, flagOpen_has, Bool.or_self, Bool.false_eq_true,
      if_false]
  have nothing := @writeBody_opened parser.files.fs _ opened data
  rw [Stalls, callParserCb_body rfl unread]
  simp only [onBody, opening, Body.writeBody, nothing, wholeFile_waits, Bool.false_eq_true,
    if_false]

/-- In every state that the connections of a download reach: where a response declares its length
and the output file is there, `input_data` returns with the last byte of the head, and never again
once a byte of the body arrives. -/
theorem fetching_hangs {files : Files} {task : DownloadTask} {status : HttpResourceStatus}
    {s : Fetching σ}
    (reached : (fetching ⟨@httpResponseParser σ _, surroundings, holds⟩ files task
      status).Reachable s) {index : Nat} (found : s.parser index = some parser)
    (atEnd : parser.status = .head ∧ parser.cache = []) {path : Bytes} {flag : FileFlag}
    {later : List HeadAction} (handles : parser.actions = .recvFile path flag :: later) {n : Nat}
    (length : DeclaresLength parser.tmp.head n) (small : n < 2 ^ 63) {file : File}
    (present : s.files.fs path = some file) (some_ : file.bytes ≠ []) (more : Bytes) :
    (∃ o, InputData ⟨httpResponseParser, surroundings, holds⟩ parser (lf :: more) o) ↔
      more = [] := by
  have stores := storesNothing_reached reached
  have opened : flag = flagOpen :=
    (stores.parser found).opens path flag (handles ▸ List.mem_cons_self)
  subst opened
  have here : parser.files.fs path = some file := by rwa [(Fetching.parser_some found).1]
  have call := @callParserCb_opens surroundings σ _ holds parser path later n file atEnd handles
    length small here (List.length_pos_iff.mpr some_) more
  have unread : lf :: more ≠ [] := List.cons_ne_nil lf more
  have goes : (callParserCb ⟨httpResponseParser, surroundings, holds⟩ parser
      (lf :: more)).stop = none := by rw [call]
  constructor
  · rintro ⟨o, read⟩
    by_contra bytes
    obtain ⟨inner, rest, _⟩ := read.next unread goes
    rw [call] at rest
    have behind : (lf :: more).drop 1 = more := rfl
    rw [behind] at rest
    exact rest.not_stalls (.here bytes) (opening_stalls path later _ bytes)
  · rintro rfl
    have rest := @returns_nil _ _ _ _
      (callParserCb ⟨@httpResponseParser σ _, surroundings, holds⟩)
      (callParserCb ⟨@httpResponseParser σ _, surroundings, holds⟩ parser [lf]).state
    exact ⟨_, returns_of_next _ parser unread goes (by rw [call] at rest ⊢; exact rest)⟩

/-! ## A download over two connections -/

/-- An output file that is there. -/
def tenDots : File := ⟨ascii "..........", by decide⟩

/-- A response parser of a download. -/
def fetchSetting : Setting ResponseLine ListMultimap :=
  ⟨httpResponseParser, ⟨linux, fun _ => []⟩, true⟩

/-- The files before the download. -/
def fetchFiles : Files := ⟨oneFile (ascii "f") tenDots, 0⟩

/-- A download over two connections. -/
def fetchTask : DownloadTask where
  url := ascii "http://h/f"
  output := ascii "f"
  fflag := flagCreate
  connNum := 2

/-- A resource of ten bytes that supports ranges. -/
def fetchStatus : HttpResourceStatus where
  size := 10
  status := ascii "206"

/-- A parser of one of its connections. -/
def fetchParser : ParserState ResponseLine ListMultimap :=
  fresh fetchSetting fetchFiles [.recvFile (ascii "f") flagOpen]

/-- A response to the first task, up to the last byte of its head. -/
def fetchHead : Bytes :=
  ascii "HTTP/1.1 206 OK" ++ crlf ++ ascii "Content-Length: 6" ++ crlf ++ [cr]

/-- What is left of the parser that reads it. -/
def fetchRead : Option (Theory.Outcome (ParserState ResponseLine ListMultimap)
    (Event ResponseLine ListMultimap) Stop) :=
  feed (callParserCb fetchSetting) 60 fetchParser fetchHead

/-- The head is read but for its last byte. -/
theorem fetchRead_eq :
    fetchRead.map (fun o => (o.state.status, o.state.cache, o.state.actions,
      getHead o.state.tmp.head httpLen [])) =
        some (.head, [], [.recvFile (ascii "f") flagOpen], decimal 6) := by
  decide +kernel

/-- The two tasks. -/
theorem fetchStatus_tasks : ∃ first second,
    onStatus fetchTask fetchStatus = .tasks [first, second] ∧ first.output = ascii "f" ∧
      first.fflag = flagOpen ∧ second.output = ascii "f" ∧ second.fflag = flagOpen :=
  ⟨_, _, rfl, rfl, rfl, rfl, rfl⟩

/-- A state of the download: the first connection waits for the last byte of the head. -/
theorem fetching_reached : ∃ s parser, (fetching fetchSetting fetchFiles fetchTask
    fetchStatus).Reachable s ∧ s.parser 0 = some parser ∧
      parser.status = .head ∧ parser.cache = [] ∧
      parser.actions = [.recvFile (ascii "f") flagOpen] ∧
      getHead parser.tmp.head httpLen [] = decimal 6 := by
  obtain ⟨o, found, here⟩ := Option.map_eq_some_iff.mp fetchRead_eq
  obtain ⟨first, second, started, named, opened, named', opened'⟩ := fetchStatus_tasks
  simp only [Prod.mk.injEq] at here
  have kept : fetchFiles = { fetchFiles with
      fs := statusFiles linux fetchFiles.fs fetchTask fetchStatus } := rfl
  have begins : (fetching fetchSetting fetchFiles fetchTask fetchStatus).init
      ⟨fetchFiles, [fetchParser, fetchParser]⟩ := by
    refine ⟨_, started, kept, .cons ⟨_, .inl rfl, ?_⟩ (.cons ⟨_, .inl rfl, ?_⟩ .nil)⟩
    · rw [named, opened]
      rfl
    · rw [named', opened']
      rfl
  have read : (fetching fetchSetting fetchFiles fetchTask fetchStatus).step
      ⟨fetchFiles, [fetchParser, fetchParser]⟩ (.read 0 fetchHead)
      ⟨o.state.files, [o.state, fetchParser]⟩ :=
    ⟨fetchParser, o, rfl, ⟨60, found⟩, rfl⟩
  exact ⟨_, o.state, (System.Reachable.start begins).step _ read, rfl, here⟩

/-- The output file is not a temporary one. -/
theorem fetchTask_apart : ¬ Temporary fetchSetting.surroundings (ascii "f") := by
  rintro ⟨_, same⟩
  have other : ascii "f" ≠ tempName [] := by decide
  exact other same

/-- The output file stays as it is. -/
theorem fetching_storesNothing_head :
    ∃ s, (fetching fetchSetting fetchFiles fetchTask fetchStatus).Reachable s ∧
      s.parser 0 ≠ none ∧
      s.files.fs (ascii "f") =
        statusFiles linux fetchFiles.fs fetchTask fetchStatus (ascii "f") := by
  obtain ⟨s, parser, reached, found, _⟩ := fetching_reached
  exact ⟨s, reached, by rw [found]; simp, fetching_storesNothing reached fetchTask_apart⟩

/-- The first byte of the first part is read for ever. -/
theorem fetching_hangs_head :
    ∃ s parser, (fetching fetchSetting fetchFiles fetchTask fetchStatus).Reachable s ∧
      s.parser 0 = some parser ∧
      ¬ ∃ o, InputData fetchSetting parser (lf :: ascii "a") o := by
  obtain ⟨s, parser, reached, found, status, cache, actions, length⟩ := fetching_reached
  have there : s.files.fs (ascii "f") = some tenDots :=
    (storesNothing_reached reached).keeps _ fetchTask_apart
  have hangs := fetching_hangs reached found ⟨status, cache⟩ actions
    (DeclaresLength.of_decimal length) (by decide) there (by decide) (ascii "a")
  exact ⟨s, parser, reached, found, fun returns => absurd (hangs.mp returns) (by decide)⟩

end Hangs

end Hnw.Service
