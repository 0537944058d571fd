import Hnw.Verif.PartialFile
import Hnw.Verif.Termination

/-!
# The framing of a message that is received into a file

`recv_file_request` and `recv_file_response` ask for a file of the size in `Content-Length`, but an
existing file keeps its own size, and a file that is only opened for reading takes no byte.
-/

namespace Hnw.Service

open Hnw.Http Hnw.Util Hnw.Parser Hnw.Theory

variable {ι σ : Type} [UnorderedMultimap σ]

/-- The head has a `Content-Length` of `n`, with as many leading zeros as it likes. -/
structure DeclaresLength (head : σ) (n : Nat) : Prop where
  /-- The header is there. -/
  present : getHead head httpLen [] ≠ []
  /-- The text is a number. -/
  digits : ∀ byte ∈ getHead head httpLen [], isDigit byte = true
  /-- The value of the text. -/
  value : digitsValue (getHead head httpLen []) = n

/-- `recv_file_request` or `recv_file_response` returns `HNW_BASE_OK`, installs this body and leaves
these files. -/
def ReturnsOk (getRange : σ → HttpRange → Option (Option HttpRange)) (platform : Platform)
    (fs : FileSystem) (head : σ) (path : Bytes) (flag : FileFlag) (body : FileBody)
    (left : FileSystem) : Prop :=
  ∃ range, recvRange getRange head = some (some range) ∧
    FileBody.generate platform fs path range flag = (some body, left)

/-- A parser at the end of a head with a `Content-Length` of `n`, whose application receives the
message into a file and is told that this works. -/
structure ReceivesFile (setting : Setting ι σ)
    (getRange : σ → HttpRange → Option (Option HttpRange)) (s : ParserState ι σ) (path : Bytes)
    (flag : FileFlag) (n : Nat) (body : FileBody) : Prop where
  /-- The head is read but for the last `\n`. -/
  atEnd : s.status = .head ∧ s.cache = []
  /-- `Content-Length`. -/
  length : DeclaresLength s.tmp.head n
  /-- It is not 0. -/
  positive : 1 ≤ n
  /-- The application receives the message into a file. -/
  action : ∃ actions, s.actions = .recvFile path flag :: actions
  /-- `recv_file_request` or `recv_file_response` returns `HNW_BASE_OK`. -/
  ok : ∃ left, ReturnsOk getRange setting.surroundings.platform s.files.fs s.tmp.head path flag
    body left

/-- The body has the size of the head, the parser takes so many bytes, and the next message starts
right after them. -/
structure KeepsFraming (setting : Setting ι σ) (s : ParserState ι σ) (n : Nat) (body : FileBody) :
    Prop where
  /-- `body_size()`. -/
  size : body.bodySize = n
  /-- It is the body of the message. -/
  installed : (onHead setting s lf).state.tmp.body = some (.file body)
  /-- What the parser takes. -/
  takes : TakesExactly setting (onHead setting s lf).state n

/-- The length is a number of the file API, and the file is made with it, or it is there with this
size and is opened for writing. -/
def FileFits (fs : FileSystem) (path : Bytes) (flag : FileFlag) (n : Nat) : Prop :=
  n < 2 ^ 63 ∧ (fs path = none ∨ flag.has flagCreateNew = true ∨
    ∃ file, fs path = some file ∧ file.bytes.length = n ∧
      (FileBody.openedFlag flag).has flagWrite = true)

/-- Receiving into a file keeps the framing exactly where the file fits. -/
def FramedIffFits (setting : Setting ι σ)
    (getRange : σ → HttpRange → Option (Option HttpRange)) : Prop :=
  ∀ s path flag n body, ReceivesFile setting getRange s path flag n body →
    (KeepsFraming setting s n body ↔ FileFits s.files.fs path flag n)

variable {setting : Setting ι σ} {getRange : σ → HttpRange → Option (Option HttpRange)}
  {platform : Platform} {fs left : FileSystem} {head : σ} {path : Bytes} {flag : FileFlag}
  {n : Nat} {body : FileBody}

/-- A length of the file API is the range that is asked for. -/
theorem DeclaresLength.recvRange (length : DeclaresLength head n) (small : n < 2 ^ 63) :
    recvRange getRange head = some (some { total := UInt64.ofInt n }) := by
  have number : stoll (getHead head httpLen []) = some (n : Int) := by
    rw [stoll, signedDigits_digits length.digits length.present, length.value]
    simp only [Bool.false_eq_true, if_false]
    rw [if_pos (by omega)]
  have size : getHeadInt64 head httpLen (-1) = n := by
    rw [getHeadInt64]
    simp only [length.present, if_false, number, Option.getD_some]
  simp [Service.recvRange, size]

/-- A number that is written with `std::to_string` is a length. -/
theorem DeclaresLength.of_decimal (text : getHead head httpLen [] = decimal n) :
    DeclaresLength head n := by
  refine ⟨?_, ?_, ?_⟩ <;> rw [text]
  · exact decimal_ne_nil n
  · exact decimal_digits n
  · exact (decimalDigits_spec (n + 1) n (Nat.lt_succ_self n)).2.2

/-- No file is larger than a file offset. -/
theorem ReturnsOk.small (ok : ReturnsOk getRange platform fs head path flag body left) :
    body.bodySize < 2 ^ 63 := by
  obtain ⟨range, _, made⟩ := ok
  obtain ⟨file, _, length⟩ := FileBody.generate_sized made
  have small := file.small
  have inside := body.inside
  have ordered := body.ordered
  rw [FileBody.bodySize]
  omega

/-- A body for a length of the file API is the whole of its file. -/
theorem ReturnsOk.whole (ok : ReturnsOk getRange platform fs head path flag body left)
    (length : DeclaresLength head n) (small : n < 2 ^ 63) :
    FileBody.generate platform fs path { total := UInt64.ofInt n } flag = (some body, left) ∧
      body.start = 0 ∧ body.stop = body.size - 1 := by
  obtain ⟨range, wanted, made⟩ := ok
  rw [length.recvRange small] at wanted
  cases wanted
  obtain ⟨_, _, start, stop, _, _⟩ := FileBody.generate_spec made
  obtain ⟨file, _, sized⟩ := FileBody.generate_sized made
  have bound := file.small
  have inside := body.inside
  refine ⟨made, start, ?_⟩
  rw [stop]
  simp only [FileBody.lastPos, if_true]
  omega

/-- Where the file is made, its size is the length; else it keeps the size it has. -/
theorem ReturnsOk.sizes (ok : ReturnsOk getRange platform fs head path flag body left)
    (length : DeclaresLength head n) (small : n < 2 ^ 63) :
    (fs path = none ∨ flag.has flagCreateNew = true) ∧ body.size = n ∧
        body.flag.has flagWrite = true ∨
      flag.has flagCreateNew = false ∧
        ∃ file, fs path = some file ∧ body.size = file.bytes.length := by
  have made := (ok.whole length small).1
  rcases FileBody.generate_cases made with ⟨file, found, keeps, _, opened⟩ |
    ⟨create, anew, _, opened⟩
  · have size := (FileBody.initSection_spec opened).2.1
    exact .inr ⟨keeps, file, found, size⟩
  · have size := (FileBody.initSection_spec opened).2.1
    have flags := (FileBody.initSection_spec opened).2.2.1
    have total : (UInt64.ofInt n).toNat = n := by
      rw [UInt64.ofInt, UInt64.toNat_ofNat']
      omega
    refine .inl ⟨anew, by rw [size, total], ?_⟩
    rw [flags]
    exact FileBody.openedFlag_write create

/-- The body has the size of the head exactly where the file is made or has this size. -/
theorem ReturnsOk.size_iff (ok : ReturnsOk getRange platform fs head path flag body left)
    (length : DeclaresLength head n) (small : n < 2 ^ 63) :
    body.bodySize = n ↔ fs path = none ∨ flag.has flagCreateNew = true ∨
      ∃ file, fs path = some file ∧ file.bytes.length = n := by
  obtain ⟨_, start, stop⟩ := ok.whole length small
  have inside := body.inside
  have whole : body.bodySize = body.size := by
    rw [FileBody.bodySize, start, stop]
    omega
  rw [whole]
  rcases ok.sizes length small with ⟨anew, size, _⟩ | ⟨keeps, file, found, size⟩
  · exact iff_of_true size (anew.imp_right .inl)
  · rw [size]
    constructor
    · intro same
      exact .inr (.inr ⟨file, found, same⟩)
    · rintro (missing | fresh | ⟨other, there, same⟩)
      · rw [found] at missing
        cases missing
      · rw [keeps] at fresh
        cases fresh
      · rw [found] at there
        cases there
        exact same

/-- A body for a length of the file API accepts where it is opened for writing. -/
theorem ReturnsOk.accepting (ok : ReturnsOk getRange platform fs head path flag body left)
    (length : DeclaresLength head n) (small : n < 2 ^ 63) (write : body.flag.has flagWrite = true) :
    body.Accepting left := by
  obtain ⟨made, start, stop⟩ := ok.whole length small
  obtain ⟨_, _, _, _, _, unwritten⟩ := FileBody.generate_spec made
  obtain ⟨file, found, sized⟩ := FileBody.generate_sized made
  refine ⟨write, by omega, ?_, ?_⟩
  · rw [unwritten, FileBody.bodySize]
    exact Nat.succ_pos _
  · intro other there
    rw [found] at there
    cases there
    exact sized

/-- The parser after a head whose message is received into a file. -/
theorem onHead_receives (kind : setting.kind.recvFile = recvFile getRange)
    {s : ParserState ι σ} (receives : ReceivesFile setting getRange s path flag n body)
    (ok : ReturnsOk getRange setting.surroundings.platform s.files.fs s.tmp.head path flag body
      left) :
    ∃ actions, (onHead setting s lf).state =
      { s with status := .body, actions, tmp := { s.tmp with body := some (.file body) },
               files := { s.files with fs := left } } := by
  obtain ⟨actions, action⟩ := receives.action
  obtain ⟨range, wanted, made⟩ := ok
  have empty := receives.atEnd.2
  have unwritten : body.writePos = 0 := (FileBody.generate_spec made).2.2.2.2.2
  have waits : Body.isComplete (.file body) = false := by
    simp [Body.isComplete, FileBody.isComplete, FileBody.bodySize, unwritten]
  have received : recvFile getRange setting.surroundings s.files s.tmp path flag =
      some ({ s.tmp with body := some (.file body) }, { s.files with fs := left }) := by
    simp only [recvFile, wanted, made, Option.bind_eq_bind, Option.bind_some, Option.map_some,
      Option.pure_def]
  have event : headEvent setting s = some { s with
      tmp := { s.tmp with body := some (.file body) }, files := { s.files with fs := left },
      actions } := by
    simp only [headEvent, action, kind, received, Option.map_some]
  have other : lf ≠ cr := by decide
  refine ⟨actions, ?_⟩
  simp only [onHead, other, if_false, if_true, empty, endOfHead, event, createBody, enterBody,
    Option.some.injEq, or_self, waits, Bool.false_eq_true, reduceCtorEq]

/-- A parser that takes its bytes receives into a file that is opened for writing. -/
theorem write_of_takes {s : ParserState ι σ} (takes : TakesExactly setting s n)
    (positive : 1 ≤ n) (inBody : s.status = .body) (present : s.tmp.body = some (.file body))
    (waits : Body.isComplete (.file body) = false) : body.flag.has flagWrite = true := by
  by_contra closed
  have unread : List.replicate n (0 : UInt8) ≠ [] := by
    simp only [ne_eq, List.replicate_eq_nil_iff]
    omega
  obtain ⟨later, read, _, last⟩ := takes [] positive
  cases read
  have handed := last (List.replicate n 0) [] unread (by simp)
  have used := handed.used
  rw [List.append_nil, callParserCb_body inBody unread,
    onBody_stuck present waits (.inl (by simpa using closed)), List.length_replicate] at used
  have none : 0 = n := used
  omega

/-- A parser that hands its application's files to `recv_file_request` or `recv_file_response` keeps
the framing exactly where the file fits. -/
theorem framedIffFits_of_kind (kind : setting.kind.recvFile = recvFile getRange) :
    FramedIffFits setting getRange := by
  intro s path flag n body receives
  obtain ⟨left, ok⟩ := receives.ok
  obtain ⟨actions, entered⟩ := onHead_receives kind receives ok
  have length := receives.length
  have positive := receives.positive
  have unwritten : body.writePos = 0 := by
    obtain ⟨_, _, made⟩ := ok
    exact (FileBody.generate_spec made).2.2.2.2.2
  have waits : Body.isComplete (.file body) = false := by
    simp [Body.isComplete, FileBody.isComplete, FileBody.bodySize, unwritten]
  have flags : body.flag = FileBody.openedFlag flag := by
    obtain ⟨_, _, made⟩ := ok
    exact (FileBody.generate_spec made).2.1
  constructor
  · intro keeps
    have small : n < 2 ^ 63 := keeps.size ▸ ok.small
    have write := write_of_takes keeps.takes positive (by rw [entered]) keeps.installed waits
    rw [flags] at write
    refine ⟨small, ?_⟩
    rcases (ok.size_iff length small).mp keeps.size with missing | fresh | ⟨file, found, same⟩
    · exact .inl missing
    · exact .inr (.inl fresh)
    · exact .inr (.inr ⟨file, found, same, write⟩)
  · rintro ⟨small, fits⟩
    have size : body.bodySize = n := by
      apply (ok.size_iff length small).mpr
      rcases fits with missing | fresh | ⟨file, found, same, _⟩
      · exact .inl missing
      · exact .inr (.inl fresh)
      · exact .inr (.inr ⟨file, found, same⟩)
    have write : body.flag.has flagWrite = true := by
      rcases ok.sizes length small with ⟨_, _, write⟩ | ⟨keeps, file, found, _⟩
      · exact write
      · rcases fits with missing | fresh | ⟨_, _, _, write⟩
        · rw [found] at missing
          cases missing
        · rw [keeps] at fresh
          cases fresh
        · rw [flags]
          exact write
    have accepting : Body.Accepting left (.file body) := ok.accepting length small write
    have takes := @takesExactly_of_accepting _ _ setting (onHead setting s lf).state _
      (by rw [entered]) (.file body) (by rw [entered]) (by rw [entered]; exact accepting)
    have all : Body.left (.file body) = n := by
      rw [Body.left, unwritten, size, Nat.sub_zero]
    rw [all] at takes
    exact ⟨size, by rw [entered], takes⟩

/-- Both parsers keep the framing of a message that is received into a file exactly where the
file fits. -/
theorem recvFile_keepsFraming_iff (surroundings : Surroundings) (holds : Bool) :
    FramedIffFits (⟨httpRequestParser, surroundings, holds⟩ : Setting RequestLine σ)
        Http.getRange ∧
      FramedIffFits (⟨httpResponseParser, surroundings, holds⟩ : Setting ResponseLine σ)
        Http.getContentRange :=
  ⟨framedIffFits_of_kind rfl, framedIffFits_of_kind rfl⟩

/-- An application that receives so many bytes of a file of four into that file, which it opens for
writing. -/
theorem partialParser_receives (a b : Nat) (small : b - a + 1 < 2 ^ 63)
    (text : getHead (partialParser a b).tmp.head httpLen [] = decimal (b - a + 1)) :
    ReceivesFile ⟨httpResponseParser, ⟨linux, fun _ => []⟩, true⟩ getContentRange
      (partialParser a b) (ascii "f") flagWrite (b - a + 1)
      (wholeFile (ascii "f") flagWrite 4 (by decide)) where
  atEnd := ⟨rfl, rfl⟩
  length := .of_decimal text
  positive := Nat.le_add_left 1 _
  action := ⟨[], rfl⟩
  ok := by
    have keeps : flagWrite.has flagCreateNew = false := by decide
    have some_ : 0 < Parser.fourBytes.bytes.length := by decide
    have length := DeclaresLength.of_decimal text
    exact ⟨_, _, length.recvRange small, generate_existing linux rfl keeps some_ _⟩

/-- The four bytes are received as what they are. -/
theorem keepsFraming_fourBytes :
    KeepsFraming ⟨httpResponseParser, ⟨linux, fun _ => []⟩, true⟩ (partialParser 0 3) 4
      (wholeFile (ascii "f") flagWrite 4 (by decide)) := by
  have receives := partialParser_receives 0 3 (by decide) (by decide)
  apply ((recvFile_keepsFraming_iff ⟨linux, fun _ => []⟩ true).2 _ _ _ _ _ receives).mpr
  exact ⟨by decide, .inr (.inr ⟨Parser.fourBytes, rfl, by decide, by decide⟩)⟩

/-- Two bytes are received as four. -/
theorem middle_not_keepsFraming :
    ¬ ∀ (s : ParserState ResponseLine ListMultimap) path flag n body,
      ReceivesFile ⟨httpResponseParser, ⟨linux, fun _ => []⟩, true⟩ getContentRange s path flag n
        body →
      KeepsFraming ⟨httpResponseParser, ⟨linux, fun _ => []⟩, true⟩ s n body := by
  intro always
  have receives := partialParser_receives 1 2 (by decide) (by decide)
  have size := (always _ _ _ _ _ receives).size
  exact absurd size (by decide)

end Hnw.Service
