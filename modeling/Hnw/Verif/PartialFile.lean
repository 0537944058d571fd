import Hnw.Verif.Parser
import Hnw.Verif.Text

/-!
# A partial response in a file

`recv_file_response` opens the section that a response names. A response with a `Content-Length`
is given the whole file, whatever its `Content-Range` says.
-/

namespace Hnw.Parser

open Hnw.Http Hnw.Util Hnw.Theory

variable {σ : Type} [UnorderedMultimap σ]

/-- The text of `Content-Range: bytes a-b/t`. -/
def contentRangeText (a b t : Nat) : Bytes :=
  ascii "bytes " ++ decimal a ++ ascii "-" ++ decimal b ++ ascii "/" ++ decimal t

/-- A parser at the end of the head of a partial response, whose application receives it into a
file it opens for writing as it is. -/
structure PartialResponse (s : ParserState ResponseLine σ) (path : Bytes) (flag : FileFlag)
    (old : File) (a b : Nat) : Prop where
  /-- The head is read but for the last `\n`. -/
  atEnd : s.status = .head ∧ s.cache = []
  /-- `206`. -/
  status : s.tmp.line.statusCode = ascii "206"
  /-- `Content-Length`. -/
  length : getHead s.tmp.head httpLen [] = decimal (b - a + 1)
  /-- `Content-Range`. -/
  contentRange : getHead s.tmp.head httpContentRange [] = contentRangeText a b old.bytes.length
  /-- The section is one of the file. -/
  inside : a ≤ b ∧ b < old.bytes.length
  /-- The application calls `recv_file_response`, and leaves the coming messages alone. -/
  action : s.actions = [.recvFile path flag]
  /-- The file is there. -/
  present : s.files.fs path = some old
  /-- It is not made anew. -/
  keeps : flag.has flagCreateNew = false
  /-- It is opened for writing. -/
  writes : (FileBody.openedFlag flag).has flagWrite = true

/-- The body bytes of a response are stored from `a` on: the message is handed over with the
last of them and not before, and then the file is the old one with the body at `a`. -/
def StoredAt (setting : Setting ResponseLine σ) (s : ParserState ResponseLine σ) (path : Bytes)
    (old : File) (a : Nat) (body : Bytes) : Prop :=
  ∀ chunks : List Bytes, chunks.flatten <+: body →
    ∃ o, inputChunks setting s chunks = some o ∧ o.stop = none ∧
      (chunks.flatten ≠ body → o.out = []) ∧
      (chunks.flatten = body →
        (∃ line head bytes, o.out = [.recv line head bytes]) ∧ o.state.status = .startLine ∧
        ∃ file, o.state.files.fs path = some file ∧
          file.bytes = old.bytes.take a ++ body ++ old.bytes.drop (a + body.length))

variable {surroundings : Surroundings} {holds : Bool} {s : ParserState ResponseLine σ}
  {path : Bytes} {flag : FileFlag} {old : File} {a b : Nat}

/-- The whole of an existing file, opened at its beginning. -/
def wholeFile (path : Bytes) (flag : FileFlag) (size : Nat) (some_ : 0 < size) : FileBody :=
  { fileName := path, size, flag := FileBody.openedFlag flag, start := 0, stop := size - 1,
    ordered := Nat.zero_le _, inside := Nat.sub_lt some_ Nat.one_pos }

/-- The end of `init` for a whole file. -/
theorem initSection_whole {size : Nat} (small : size < 2 ^ 63) (some_ : 0 < size)
    (total : UInt64) :
    FileBody.initSection path size { total } flag = some (wholeFile path flag size some_) := by
  have first : FileBody.firstPos { total } = 0 := rfl
  have last : FileBody.lastPos size { total } = size - 1 := by
    simp only [FileBody.lastPos, if_true]
    omega
  have inside : size - 1 < size := by omega
  simp only [FileBody.initSection, first, last]
  rw [if_neg (by omega), dif_pos inside, dif_pos (Nat.zero_le _)]
  rfl

/-- An existing file that is not made anew is opened as it is. -/
theorem generate_existing (platform : Platform) {fs : FileSystem} (present : fs path = some old)
    (keeps : flag.has flagCreateNew = false) (some_ : 0 < old.bytes.length) (total : UInt64) :
    FileBody.generate platform fs path { total } flag =
      (some (wholeFile path flag old.bytes.length some_), fs) := by
  simp only [FileBody.generate, FileBody.init, present, keeps, Bool.false_eq_true, if_false,
    initSection_whole old.small some_]

/-- The range read from a head with a `Content-Length` is the whole file. -/
theorem recvRange_length (head : σ) {n : Nat} (small : n < 2 ^ 63)
    (length : getHead head httpLen [] = decimal n)
    (getRange : σ → HttpRange → Option (Option HttpRange)) :
    Service.recvRange getRange head = some (some { total := UInt64.ofInt n }) := by
  have size : getHeadInt64 head httpLen (-1) = n := by
    simp [getHeadInt64, length, decimal_ne_nil, stoll_decimal small]
  simp [Service.recvRange, size]

/-- The parser after the head of a partial response: it receives into the whole file. -/
theorem onHead_response (response : PartialResponse s path flag old a b)
    (some_ : 0 < old.bytes.length) :
    (onHead ⟨httpResponseParser, surroundings, holds⟩ s lf).state =
      { s with status := .body, actions := [], tmp := { s.tmp with
          body := some (.file (wholeFile path flag old.bytes.length some_)) } } := by
  have empty := response.atEnd.2
  have small := old.small
  have inside := response.inside
  have range := @recvRange_length σ _ s.tmp.head (b - a + 1) (by omega) response.length
    getContentRange
  have opened := generate_existing surroundings.platform response.present response.keeps some_
    (UInt64.ofInt (b - a + 1 : Nat))
  have waits : Body.isComplete (.file (wholeFile path flag old.bytes.length some_)) = false := by
    simp only [Body.isComplete, FileBody.isComplete, FileBody.bodySize, wholeFile,
      beq_eq_false_iff_ne]
    omega
  have event : headEvent ⟨httpResponseParser, surroundings, holds⟩ s =
      some { s with actions := [], tmp := { s.tmp with
          body := some (.file (wholeFile path flag old.bytes.length some_)) } } := by
    simp only [headEvent, response.action, httpResponseParser, Service.recvFileResponse,
      Service.recvFile, range, Option.bind_eq_bind, Option.bind_some, opened, Option.pure_def,
      Option.map_some]
  simp only [onHead, empty, if_true, endOfHead, event, createBody, reduceCtorEq,
    Option.some.injEq, or_self, if_false, enterBody, waits, Bool.false_eq_true]
  rfl

/-- A parser that receives into the whole of a file. -/
structure Receiving (s : ParserState ResponseLine σ) (path : Bytes) (flag : FileFlag)
    (old : File) (some_ : 0 < old.bytes.length) : Prop where
  /-- It is in the body. -/
  status : s.status = .body
  /-- The application leaves the coming messages alone. -/
  leaves : s.actions = []
  /-- The body is the file. -/
  body : s.tmp.body = some (.file (wholeFile path flag old.bytes.length some_))
  /-- The file is there. -/
  present : s.files.fs path = some old
  /-- It is opened for writing. -/
  writes : (FileBody.openedFlag flag).has flagWrite = true

variable {some_ : 0 < old.bytes.length} {setting : Setting ResponseLine σ}

omit [UnorderedMultimap σ] in
/-- The body takes as many bytes as the file has. -/
theorem Receiving.accepting (receiving : Receiving s path flag old some_) :
    Body.Accepting s.files.fs (.file (wholeFile path flag old.bytes.length some_)) ∧
      Body.left (.file (wholeFile path flag old.bytes.length some_)) = old.bytes.length := by
  have size : FileBody.bodySize (wholeFile path flag old.bytes.length some_) =
      old.bytes.length := by
    simp only [FileBody.bodySize, wholeFile]
    omega
  refine ⟨⟨receiving.writes, ?_, ?_, ?_⟩, ?_⟩
  · simp only [wholeFile]
    omega
  · rw [size]
    exact some_
  · intro file found
    have same : old = file := by
      simpa only [wholeFile, receiving.present, Option.some.injEq] using found
    rw [← same]
    rfl
  · rw [Body.left, size]
    rfl

omit [UnorderedMultimap σ] in
/-- A parser that receives the body into a file is passive. -/
theorem Receiving.passive (receiving : Receiving s path flag old some_) : Passive s where
  leaves := receiving.leaves
  listed := .inr (.inr receiving.status)
  idle elsewhere := absurd receiving.status elsewhere
  receiving _ := ⟨_, receiving.body, receiving.accepting.1⟩

/-- What such a parser does with the bytes of some chunks, together no more than the file has. -/
theorem Receiving.deliver_eq (receiving : Receiving s path flag old some_)
    (lawful : setting.kind.Lawful) {chunks : List Bytes} (unread : chunks.flatten ≠ [])
    (fits : chunks.flatten.length ≤ old.bytes.length) :
    inputChunks setting s chunks =
      some ⟨(onBody setting s chunks.flatten).state, (onBody setting s chunks.flatten).out,
        none⟩ := by
  obtain ⟨accepting, left⟩ := receiving.accepting
  have read := @inputData_body _ _ setting s _ receiving.status _ receiving.body accepting
    chunks.flatten unread (by rw [left]; exact fits)
  exact inputChunks_eq lawful receiving.passive read nofun

omit [UnorderedMultimap σ] in
/-- Fewer bytes than the file has do not complete the message. -/
theorem Receiving.onBody_short (receiving : Receiving s path flag old some_) {data : Bytes}
    (short : data.length < old.bytes.length) : (onBody setting s data).out = [] := by
  obtain ⟨accepting, left⟩ := receiving.accepting
  rw [onBody_eq setting receiving.body accepting]
  simp only
  rw [left, if_neg (by omega)]

omit [UnorderedMultimap σ] in
/-- As many bytes as the file has complete the message. -/
theorem Receiving.onBody_whole (receiving : Receiving s path flag old some_)
    (setting : Setting ResponseLine σ) {data : Bytes}
    (whole : data.length = old.bytes.length) :
    (∃ bytes, (onBody setting s data).out = [.recv s.tmp.line s.tmp.head bytes]) ∧
      (onBody setting s data).state.status = .startLine ∧
      (onBody setting s data).state.files.fs =
        if setting.holds then writeFile s.files.fs path 0 data
        else FileBody.destroy (FileBody.openedFlag flag) path
          (writeFile s.files.fs path 0 data) := by
  obtain ⟨accepting, left⟩ := receiving.accepting
  have size : FileBody.writeSize (wholeFile path flag old.bytes.length some_) data.length =
      data.length := by
    rw [FileBody.writeSize_eq accepting]
    simp only [Body.left] at left
    omega
  have written : Body.writeBody s.files.fs data
      (.file (wholeFile path flag old.bytes.length some_)) =
        (data.length, .file { wholeFile path flag old.bytes.length some_ with
          writePos := data.length }, writeFile s.files.fs path 0 data) := by
    simp only [Body.writeBody, FileBody.writeBody, size, List.take_length]
    simp only [wholeFile, Nat.zero_add]
  rw [onBody_eq setting receiving.body accepting]
  simp only
  rw [left, if_pos (by omega), written]
  exact ⟨⟨_, rfl⟩, rfl, rfl⟩

/-- A flag that is opened for writing deletes if it deleted before. -/
theorem openedFlag_delete (flag : FileFlag) :
    (FileBody.openedFlag flag).has flagDelete = flag.has flagDelete := by
  have apart : flagWrite &&& flagDelete = 0 := by decide
  unfold FileBody.openedFlag
  split
  · rw [FileFlag.has, FileFlag.has, BitVec.and_comm, BitVec.and_or_distrib_left,
      BitVec.and_comm flagDelete flagWrite, apart, BitVec.and_comm flagDelete flag]
    simp
  · rfl

/-- What the destructor leaves of the file. -/
theorem destroy_path (fs : FileSystem) :
    FileBody.destroy (FileBody.openedFlag flag) path fs path =
      if flag.has flagDelete then none else fs path := by
  rw [FileBody.destroy, openedFlag_delete]
  split
  · simp [removeFile]
  · rfl

/-- What a write over the whole file leaves of it. -/
theorem writeFile_whole {fs : FileSystem} (present : fs path = some old) {data : Bytes}
    (whole : data.length = old.bytes.length) :
    ∃ file, writeFile fs path 0 data path = some file ∧ file.bytes = data := by
  have fits : 0 + data.length ≤ old.bytes.length := by omega
  have rest : old.bytes.drop data.length = [] := List.drop_eq_nil_of_le (by omega)
  refine ⟨_, by simp only [writeFile, if_true, present, Option.map_some]; rfl, ?_⟩
  rw [dif_pos fits]
  simp [overwrite, rest]

/-- A body that is stored fills the file, and the file survives the message. -/
theorem Receiving.whole_of_stored (receiving : Receiving s path flag old some_)
    (lawful : setting.kind.Lawful) {body : Bytes} (unread : body ≠ [])
    (fits : body.length ≤ old.bytes.length) (stored : StoredAt setting s path old a body) :
    body.length = old.bytes.length ∧ (flag.has flagDelete = false ∨ setting.holds = true) := by
  obtain ⟨o, found, _, _, complete⟩ := stored [body] (by simp)
  obtain ⟨⟨_, _, _, out⟩, _, file, kept, _⟩ := complete (by simp)
  rw [receiving.deliver_eq lawful (by simpa using unread) (by simpa using fits),
    Option.some.injEq] at found
  subst found
  simp only [List.flatten_cons, List.flatten_nil, List.append_nil] at out kept
  have whole : body.length = old.bytes.length := by
    by_contra short
    rw [receiving.onBody_short (by omega)] at out
    cases out
  apply And.intro whole
  rw [(receiving.onBody_whole setting whole).2.2] at kept
  by_cases holds : setting.holds = true
  · exact .inr holds
  · left
    rw [if_neg holds, destroy_path] at kept
    by_contra deletes
    simp [deletes] at kept

/-- A body that fills a file that survives the message is stored. -/
theorem Receiving.stored_of_whole (receiving : Receiving s path flag old some_)
    (lawful : setting.kind.Lawful) {body : Bytes} (unread : body ≠ [])
    (whole : body.length = old.bytes.length)
    (survives : flag.has flagDelete = false ∨ setting.holds = true) :
    StoredAt setting s path old 0 body := by
  intro chunks part
  have fits := part.length_le
  by_cases nothing : chunks.flatten = []
  · have silent : inputChunks setting s chunks = some ⟨s, [], none⟩ :=
      inputChunks_eq lawful receiving.passive (by rw [nothing]; exact returns_nil) nofun
    refine ⟨_, silent, rfl, fun _ => rfl, ?_⟩
    intro all
    exact absurd (all.symm.trans nothing) unread
  · refine ⟨_, receiving.deliver_eq lawful nothing (by omega), rfl, ?_, ?_⟩
    · intro less
      have shorter : chunks.flatten.length ≠ body.length :=
        fun same => less (part.eq_of_length same)
      exact receiving.onBody_short (by omega)
    · intro all
      rw [all]
      obtain ⟨⟨bytes, out⟩, status, fs⟩ := receiving.onBody_whole setting whole
      obtain ⟨file, found, content⟩ := writeFile_whole receiving.present whole
      refine ⟨⟨_, _, bytes, out⟩, status, file, ?_, by simp [content, whole]⟩
      rw [fs]
      by_cases holds : setting.holds = true
      · rw [if_pos holds]
        exact found
      · have keeps : flag.has flagDelete = false := survives.resolve_right holds
        rw [if_neg holds, destroy_path, keeps]
        exact found

/-- The parser after the head of a partial response receives into the whole file. -/
theorem PartialResponse.receiving (response : PartialResponse s path flag old a b)
    (some_ : 0 < old.bytes.length) :
    Receiving (onHead ⟨httpResponseParser, surroundings, holds⟩ s lf).state path flag old
      some_ := by
  rw [onHead_response response some_]
  exact ⟨rfl, rfl, rfl, response.present, response.writes⟩

/-- The body of a partial response is stored where it belongs exactly when it is the whole file
and the file survives the message. -/
theorem storedAt_iff (response : PartialResponse s path flag old a b) {body : Bytes}
    (length : body.length = b - a + 1) :
    StoredAt ⟨httpResponseParser, surroundings, holds⟩
        (onHead ⟨httpResponseParser, surroundings, holds⟩ s lf).state path old a body ↔
      a = 0 ∧ b + 1 = old.bytes.length ∧ (flag.has flagDelete = false ∨ holds = true) := by
  have inside := response.inside
  have some_ : 0 < old.bytes.length := by omega
  have lawful : (@httpResponseParser σ _).Lawful := httpResponseParser_lawful
  have receiving := @PartialResponse.receiving _ _ surroundings holds _ _ _ _ _ _ response some_
  have unread : body ≠ [] := by
    rintro rfl
    simp at length
  constructor
  · intro stored
    obtain ⟨whole, survives⟩ := receiving.whole_of_stored lawful unread (by omega) stored
    exact ⟨by omega, by omega, survives⟩
  · rintro ⟨rfl, last, survives⟩
    exact receiving.stored_of_whole lawful unread (by omega) survives

/-- A file of four bytes. -/
def fourBytes : File := ⟨ascii "abcd", by decide⟩

/-- A parser at the end of the head of a response with the bytes `a` to `b` of that file. -/
def partialParser (a b : Nat) : ParserState ResponseLine ListMultimap where
  status := .head
  tmp :=
    { line := { statusCode := ascii "206" }
      head := addHead (addHead UnorderedMultimap.empty httpLen (decimal (b - a + 1)))
        httpContentRange (contentRangeText a b 4)
      body := none }
  cache := []
  files := ⟨oneFile (ascii "f") fourBytes, 0⟩
  actions := [.recvFile (ascii "f") flagWrite]

/-- The response whose bytes are the whole file, for an application that keeps its messages. -/
theorem storedAt_fourBytes :
    StoredAt ⟨httpResponseParser, ⟨linux, fun _ => []⟩, true⟩
      (onHead ⟨httpResponseParser, ⟨linux, fun _ => []⟩, true⟩ (partialParser 0 3) lf).state
      (ascii "f") fourBytes 0 (ascii "wxyz") := by
  have response : PartialResponse (partialParser 0 3) (ascii "f") flagWrite fourBytes 0 3 :=
    ⟨by decide, by decide, by decide, by decide, by decide, rfl, rfl, by decide, by decide⟩
  exact (storedAt_iff response (by decide)).mpr (by decide)

/-- The two bytes in the middle of the file are not the end of their message. -/
theorem middle_not_storedAt :
    ¬ ∀ (s : ParserState ResponseLine ListMultimap) path flag old a b,
      PartialResponse s path flag old a b → ∀ body : Bytes, body.length = b - a + 1 →
      StoredAt ⟨httpResponseParser, ⟨linux, fun _ => []⟩, true⟩
        (onHead ⟨httpResponseParser, ⟨linux, fun _ => []⟩, true⟩ s lf).state path old a body := by
  intro always
  have response : PartialResponse (partialParser 1 2) (ascii "f") flagWrite fourBytes 1 2 :=
    ⟨by decide, by decide, by decide, by decide, by decide, rfl, rfl, by decide, by decide⟩
  have silent : (inputChunks ⟨httpResponseParser, ⟨linux, fun _ => []⟩, true⟩
      (onHead ⟨httpResponseParser, ⟨linux, fun _ => []⟩, true⟩ (partialParser 1 2) lf).state
      [ascii "xy"]).map (·.out.length) = some 0 := by
    decide +kernel
  obtain ⟨o, found, _, _, complete⟩ :=
    always _ _ _ _ _ _ response (ascii "xy") (by decide) [ascii "xy"] (by decide)
  obtain ⟨⟨_, _, _, out⟩, _⟩ := complete rfl
  rw [found, Option.map_some, out] at silent
  cases silent

end Hnw.Parser
