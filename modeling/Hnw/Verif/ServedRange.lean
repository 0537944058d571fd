import Hnw.Verif.Body
import Hnw.Verif.PartialFile
import Hnw.Verif.Prepared

/-!
# Serving a range of a file

`set_file_body` opens a section of a file and describes it in the head. What it describes, the
length that `pre_send` adds and the bytes that are read come from three computations; they agree.
-/

namespace Hnw.Http

open Hnw.Util Hnw.Util.UnorderedMultimap

/-! ## Reading a body to its end -/

/-- What successive calls of `read_body` return, with buffers of these sizes. -/
def Body.reads (fs : FileSystem) : List Nat → Body → List Bytes
  | [], _ => []
  | buffSize :: sizes, body =>
    (body.readBody fs buffSize).1 :: Body.reads fs sizes (body.readBody fs buffSize).2

/-- Buffers have room, and their sizes are no large words. -/
def Buffers (sizes : List Nat) : Prop := ∀ size ∈ sizes, 0 < size ∧ size < 2 ^ 63

/-- The reads of a body return these bytes in order, each once: never others, all of them before
the first read that returns 0, and there is such a read after as many as there are bytes. -/
structure Body.ReadsExactly (fs : FileSystem) (body : Body) (bytes : Bytes) : Prop where
  /-- Every sequence of reads returns a beginning of the bytes. -/
  inOrder : ∀ sizes, Buffers sizes → (body.reads fs sizes).flatten <+: bytes
  /-- Before the first 0 stand all bytes. -/
  complete : ∀ sizes, Buffers sizes → [] ∈ body.reads fs sizes →
    ((body.reads fs sizes).takeWhile (· ≠ [])).flatten = bytes
  /-- A 0 comes. -/
  ends : ∀ sizes, Buffers sizes → bytes.length < sizes.length → [] ∈ body.reads fs sizes

variable {fs : FileSystem} {body : Body}

/-- The reads of a body return a beginning of what is left of it. -/
theorem Body.reads_flatten (readable : body.Readable fs) (sizes : List Nat) :
    (body.reads fs sizes).flatten = (body.rest fs).take sizes.sum := by
  induction sizes generalizing body with
  | nil => rfl
  | cons size sizes ih =>
    obtain ⟨taken, left, kept⟩ := Body.readBody_rest readable size
    rw [reads, List.flatten_cons, taken, ih kept, left, List.sum_cons, List.take_add]

/-- Before the first read that returns 0 stands all that is left of the body. -/
theorem Body.reads_complete (readable : body.Readable fs) {sizes : List Nat}
    (buffers : Buffers sizes) (ended : [] ∈ body.reads fs sizes) :
    ((body.reads fs sizes).takeWhile (· ≠ [])).flatten = body.rest fs := by
  induction sizes generalizing body with
  | nil => cases ended
  | cons size sizes ih =>
    obtain ⟨room, later⟩ := List.forall_mem_cons.mp buffers
    obtain ⟨paid, finished, kept⟩ := Body.readBody_spec readable room.1
    rw [reads] at ended ⊢
    by_cases nothing : (body.readBody fs size).1 = []
    · rw [List.takeWhile_cons_of_neg (by simpa using nothing), finished nothing]
      rfl
    · have behind : [] ∈ (body.readBody fs size).2.reads fs sizes :=
        (List.mem_cons.mp ended).resolve_left (Ne.symm nothing)
      rw [List.takeWhile_cons_of_pos (by simpa using nothing), List.flatten_cons,
        ih kept later behind, paid]

/-- More reads than bytes are left end with one that returns 0. -/
theorem Body.reads_end (readable : body.Readable fs) {sizes : List Nat}
    (buffers : Buffers sizes) (enough : (body.rest fs).length < sizes.length) :
    [] ∈ body.reads fs sizes := by
  induction sizes generalizing body with
  | nil => exact absurd enough (Nat.not_lt_zero _)
  | cons size sizes ih =>
    obtain ⟨room, later⟩ := List.forall_mem_cons.mp buffers
    obtain ⟨taken, left, kept⟩ := Body.readBody_rest readable size
    rw [reads]
    by_cases nothing : body.rest fs = []
    · rw [taken, nothing, List.take_nil]
      exact List.mem_cons_self
    · have some_ := List.length_pos_iff.mpr nothing
      apply List.mem_cons_of_mem
      apply ih kept later
      rw [left, List.length_drop]
      rw [List.length_cons] at enough
      omega

/-- A fresh body is read exactly. -/
theorem Body.Fresh.readsExactly (fresh : body.Fresh fs) :
    body.ReadsExactly fs (body.content fs) := by
  obtain ⟨readable, whole⟩ := fresh.readable
  rw [← whole]
  refine ⟨fun sizes _ => ?_, fun _ => Body.reads_complete readable,
    fun _ => Body.reads_end readable⟩
  rw [Body.reads_flatten readable]
  exact List.take_prefix _ _

/-- A body is read exactly as one byte string. -/
theorem Body.ReadsExactly.unique {first second : Bytes} (reads : body.ReadsExactly fs first)
    (reads' : body.ReadsExactly fs second) : first = second := by
  have bytewise : Buffers (List.replicate (first.length + 1) 1) := by
    intro size member
    rw [List.eq_of_mem_replicate member]
    exact ⟨Nat.one_pos, by decide⟩
  have ended : [] ∈ body.reads fs (List.replicate (first.length + 1) 1) := by
    apply reads.ends _ bytewise
    rw [List.length_replicate]
    exact Nat.lt_succ_self _
  rw [← reads.complete _ bytewise ended, reads'.complete _ bytewise ended]

/-! ## The head that is served -/

section Head

variable {σ : Type} [UnorderedMultimap σ]

/-- `set_content_range` has room for its text. -/
theorem contentRangeValue_length (range : HttpRange) : (contentRangeValue range).length < 256 := by
  have first := decimal_word_length range.sectionStart
  have last := decimal_word_length range.sectionEnd
  have total := decimal_word_length range.total
  have unit : (httpRangeByte ++ space).length = 6 := by decide
  have dash : (ascii "-").length = 1 := by decide
  have slash : (ascii "/").length = 1 := by decide
  rw [contentRangeValue]
  simp only [List.length_append] at unit ⊢
  omega

/-- An added header is the only one of its key where the key was erased before. -/
theorem addHead_delHead_filter (head : σ) (key value : Bytes) :
    (toList (addHead (delHead head key) key value)).filter (·.1 = key) = [(key, value)] := by
  have erased : (toList (delHead head key)).filter (·.1 = key) = [] := by
    rw [delHead, toList_erase, List.filter_filter]
    apply List.filter_eq_nil_iff.mpr
    intro entry _
    simp
  have added := (toList_insert (delHead head key) (key, value)).filter (·.1 = key)
  rw [List.filter_cons_of_pos (by simp), erased] at added
  exact List.perm_singleton.mp added

/-- Adding a header of another key behind an erasure of it keeps the entries of a key. -/
theorem replaceHead_filter (head : σ) {key name : Bytes} (other : name ≠ key) (value : Bytes) :
    ((toList (addHead (delHead head name) name value)).filter (·.1 = key)).Perm
      ((toList head).filter (·.1 = key)) := by
  apply (addHead_filter (delHead head name) other value).trans
  rw [delHead, toList_erase, List.filter_filter]
  apply List.Perm.of_eq
  apply List.filter_congr
  intro entry _
  by_cases here : entry.1 = key
  · simp [here, Ne.symm other]
  · simp [here]

end Head

/-! ## The section that is opened -/

/-- The last position of a section of a resource of this size. -/
def servedLast (size : Nat) (range : HttpRange) : Nat :=
  if range.useEndEndpoint then size - 1 else range.stop.toNat

namespace FileBody

variable {name : Bytes} {size : Nat} {flag : FileFlag}

/-- The end that `init` sets is the last position, but for an empty file. -/
theorem lastPos_eq (small : size < 2 ^ 63) (some_ : 0 < size) (range : HttpRange) :
    lastPos size range = servedLast size range := by
  unfold lastPos servedLast
  split
  · omega
  · rfl

/-- `init` returns true exactly for a section that lies inside the file. -/
theorem initSection_isSome_iff (small : size < 2 ^ 63) (range : HttpRange) :
    (initSection name size range flag).isSome ↔
      firstPos range ≤ servedLast size range ∧ servedLast size range < size := by
  by_cases some_ : 0 < size
  · have last := lastPos_eq small some_ range
    unfold initSection
    simp only [last]
    split
    · simp only [Option.isSome_none, Bool.false_eq_true, false_iff]
      omega
    · split
      · split
        · simp only [Option.isSome_some, true_iff]
          exact ⟨‹_›, ‹_›⟩
        · simp only [Option.isSome_none, Bool.false_eq_true, false_iff]
          omega
      · simp only [Option.isSome_none, Bool.false_eq_true, false_iff]
        omega
  · unfold initSection
    simp only
    rw [if_pos (by omega)]
    simp only [Option.isSome_none, Bool.false_eq_true, false_iff]
    omega

/-- Opening an existing file changes no file. -/
theorem init_open (platform : Platform) {fs : FileSystem} {file : File}
    (present : fs name = some file) (range : HttpRange) :
    init platform fs name range flagOpen =
      (initSection name file.bytes.length range flagOpen, fs) := by
  have keeps : flagOpen.has flagCreateNew = false := by decide
  simp only [init, present, keeps, Bool.false_eq_true, if_false]

/-- A body of an existing file that is not opened changes no file either. -/
theorem generate_open (platform : Platform) {fs : FileSystem} {file : File}
    (present : fs name = some file) (range : HttpRange) :
    generate platform fs name range flagOpen =
      (initSection name file.bytes.length range flagOpen, fs) := by
  have stays : flagOpen.has flagDelete = false := by decide
  rw [generate, init_open platform present]
  cases made : initSection name file.bytes.length range flagOpen with
  | none => simp only [destroy, stays, Bool.false_eq_true, if_false]
  | some body => rfl

/-- A section that is opened is not read yet, and its content is its bytes. -/
theorem initSection_content {fs : FileSystem} {file : File} {body : FileBody} {range : HttpRange}
    (present : fs name = some file)
    (opened : initSection name file.bytes.length range flag = some body) :
    Body.Fresh fs (.file body) ∧ Body.content fs (.file body) =
      file.bytes.extract (firstPos range) (servedLast file.bytes.length range + 1) := by
  have small := file.small
  have inside : firstPos range ≤ servedLast file.bytes.length range ∧
      servedLast file.bytes.length range < file.bytes.length :=
    (initSection_isSome_iff small range).mp (by rw [opened]; rfl)
  obtain ⟨named, size, _, start, stop, unread, _⟩ := initSection_spec opened
  rw [lastPos_eq small (by omega)] at stop
  have found : fs body.fileName = some file := by rw [named, present]
  refine ⟨⟨unread, file, found, size.symm⟩, ?_⟩
  rw [Body.content, found, start, stop]
  rfl

/-- A section that is opened is read as its bytes. -/
theorem initSection_reads {fs : FileSystem} {file : File} {body : FileBody} {range : HttpRange}
    (present : fs name = some file)
    (opened : initSection name file.bytes.length range flag = some body) :
    (Body.file body).ReadsExactly fs
      (file.bytes.extract (firstPos range) (servedLast file.bytes.length range + 1)) := by
  obtain ⟨fresh, content⟩ := initSection_content present opened
  rw [← content]
  exact fresh.readsExactly

end FileBody

/-! ## `set_file_body` -/

section Served

variable {σ : Type} [UnorderedMultimap σ]

/-- What a response with the bytes `a` to `b` of a file is. -/
structure ServesRange (fs : FileSystem) (file : File) (a b : Nat)
    (response served : Response σ) : Prop where
  /-- There is one `Content-Range`, and it names the section and the size of the file. -/
  contentRange : (toList served.head).filter (·.1 = httpContentRange) =
    [(httpContentRange, Parser.contentRangeText a b file.bytes.length)]
  /-- Where the response had no `Content-Length`, every session gives it the size of the
  section, and no other. -/
  length : getHeadCount response.head httpLen = 0 → ∀ sessionHead : σ, ∃ ready close,
    Session.preSendResponse sessionHead served = some (ready, close) ∧
      (toList ready.head).filter (·.1 = httpLen) = [(httpLen, decimal (b - a + 1))]
  /-- The body is read as the bytes of the section. -/
  reads : ∃ body, served.body = some body ∧
    body.ReadsExactly fs (file.bytes.extract a (b + 1))

/-- `set_content_range` sets the header. -/
theorem setContentRange_eq (head : σ) (range : HttpRange) :
    setContentRange head range =
      addHead (delHead head httpContentRange) httpContentRange (contentRangeValue range) := by
  have room := contentRangeValue_length range
  unfold setContentRange
  simp only
  rw [if_neg (by omega)]

/-- The head that `set_file_body` leaves has one `Content-Range`, and its lengths are untouched. -/
theorem fileHead_spec (head : σ) (range : HttpRange) (mime : Bytes) :
    ∃ served : σ,
      (if contentType (setContentRange head range) = [] then
        setContentType (setContentRange head range) mime else setContentRange head range) = served ∧
        (toList served).filter (·.1 = httpContentRange) =
          [(httpContentRange, contentRangeValue range)] ∧
        ((toList served).filter (·.1 = httpLen)).Perm ((toList head).filter (·.1 = httpLen)) := by
  have one := addHead_delHead_filter head httpContentRange (contentRangeValue range)
  have same := replaceHead_filter head (by decide : httpContentRange ≠ httpLen)
    (contentRangeValue range)
  rw [← setContentRange_eq] at one same
  generalize setContentRange head range = ranged at one same ⊢
  split
  · have typed := addHead_filter ranged (by decide : httpCt ≠ httpContentRange) mime
    rw [one] at typed
    exact ⟨_, rfl, List.perm_singleton.mp typed,
      (addHead_filter ranged (by decide) mime).trans same⟩
  · exact ⟨_, rfl, one, same⟩

/-- What `set_content_range` prints for the range of a response names the section. -/
theorem contentRangeValue_eq {size : Nat} (small : size < 2 ^ 63) (some_ : 0 < size)
    (range : HttpRange) :
    contentRangeValue { range with total := UInt64.ofNat size } =
      Parser.contentRangeText (FileBody.firstPos range) (servedLast size range) size := by
  have total : (UInt64.ofNat size).toNat = size := by
    rw [UInt64.toNat_ofNat']
    omega
  have first : (HttpRange.sectionStart { range with total := UInt64.ofNat size }).toNat =
      FileBody.firstPos range := by
    unfold HttpRange.sectionStart FileBody.firstPos
    split <;> rfl
  have last : (HttpRange.sectionEnd { range with total := UInt64.ofNat size }).toNat =
      servedLast size range := by
    unfold HttpRange.sectionEnd servedLast
    split
    · have one : (1 : UInt64) ≤ UInt64.ofNat size := by
        rw [UInt64.le_iff_toNat_le, total]
        exact some_
      rw [UInt64.toNat_sub_of_le _ _ one, total]
      rfl
    · rfl
  have unit : httpRangeByte ++ space = ascii "bytes " := by decide
  rw [contentRangeValue, first, last, total, unit, Parser.contentRangeText]

/-- A key occurs as often as it has entries. -/
theorem getHeadCount_eq (head : σ) (key : Bytes) :
    getHeadCount head key = ((toList head).filter (·.1 = key)).length :=
  List.countP_eq_length_filter

/-- On an open section `set_file_body` returns true, and the response serves the section. -/
theorem setFileBody_opened (platform : Platform) {fs : FileSystem} {file : File} {body : FileBody}
    {path : Bytes} {range : HttpRange} (present : fs path = some file)
    (opened : FileBody.initSection path file.bytes.length range flagOpen = some body)
    (response : Response σ) :
    ∃ served, response.setFileBody platform fs path range flagOpen = (true, served, fs) ∧
      ServesRange fs file (FileBody.firstPos range) (servedLast file.bytes.length range)
        response served := by
  have small := file.small
  have inside : FileBody.firstPos range ≤ servedLast file.bytes.length range ∧
      servedLast file.bytes.length range < file.bytes.length :=
    (FileBody.initSection_isSome_iff small range).mp (by rw [opened]; rfl)
  obtain ⟨_, size, _, start, stop, _⟩ := FileBody.initSection_spec opened
  rw [FileBody.lastPos_eq small (by omega)] at stop
  obtain ⟨head, chosen, one, same⟩ := fileHead_spec response.head
    { range with total := UInt64.ofNat body.size } (getHttpMimeByUri path octMime)
  have returns : response.setFileBody platform fs path range flagOpen =
      (true, { response with head, body := some (.file body) }, fs) := by
    rw [Response.setFileBody, FileBody.generate_open platform present, opened]
    simp only [chosen]
  refine ⟨_, returns, ?_, ?_, ?_⟩
  · rw [one, size, contentRangeValue_eq small (by omega)]
  · intro absent sessionHead
    have still : getHeadCount head httpLen = 0 := by
      rw [getHeadCount_eq, same.length_eq, ← getHeadCount_eq]
      exact absent
    obtain ⟨_, close, made, _, _, length⟩ :=
      @preSendResponse_spec σ _ { response with head, body := some (.file body) } (.file body)
        still rfl sessionHead
    refine ⟨_, close, made, ?_⟩
    rw [length, Body.bodySize, FileBody.bodySize, start, stop]
  · exact ⟨.file body, rfl, FileBody.initSection_reads present opened⟩

/-- For an existing file and `HTTP_FILE_FLAG_OPEN`, `set_file_body` returns true exactly where
the range lies inside the file; then the response serves the range, else it is unchanged. No file
changes. -/
theorem setFileBody_serves (platform : Platform) {fs : FileSystem} {file : File} {path : Bytes}
    (present : fs path = some file) (range : HttpRange) (response : Response σ) :
    ∃ success left, response.setFileBody platform fs path range flagOpen = (success, left, fs) ∧
      (success = true ↔ FileBody.firstPos range ≤ servedLast file.bytes.length range ∧
        servedLast file.bytes.length range < file.bytes.length) ∧
      (success = true → ServesRange fs file (FileBody.firstPos range)
        (servedLast file.bytes.length range) response left) ∧
      (success = false → left = response) := by
  have inside := @FileBody.initSection_isSome_iff path _ flagOpen file.small range
  cases opened : FileBody.initSection path file.bytes.length range flagOpen with
  | some body =>
    obtain ⟨served, returns, serves⟩ := setFileBody_opened platform present opened response
    rw [opened] at inside
    exact ⟨true, served, returns, inside, fun _ => serves, nofun⟩
  | none =>
    have returns : response.setFileBody platform fs path range flagOpen =
        (false, response, fs) := by
      rw [Response.setFileBody, FileBody.generate_open platform present, opened]
    rw [opened] at inside
    exact ⟨false, response, returns, inside, nofun, fun _ => rfl⟩

/-- The two bytes in the middle of a file of four are served. -/
theorem setFileBody_middle :
    ∃ left, Response.setFileBody linux (oneFile (ascii "f") Parser.fourBytes)
        (Response.generate : Response ListMultimap) (ascii "f")
        { useStartEndpoint := false, useEndEndpoint := false, start := 1, stop := 2 } flagOpen =
        (true, left, oneFile (ascii "f") Parser.fourBytes) ∧
      ServesRange (oneFile (ascii "f") Parser.fourBytes) Parser.fourBytes 1 2
        Response.generate left := by
  have present : oneFile (ascii "f") Parser.fourBytes (ascii "f") = some Parser.fourBytes := rfl
  obtain ⟨success, left, returns, inside, serves, _⟩ :=
    setFileBody_serves linux present
      { useStartEndpoint := false, useEndEndpoint := false, start := 1, stop := 2 }
      (Response.generate : Response ListMultimap)
  have yes : success = true := inside.mpr (by decide)
  rw [yes] at returns
  exact ⟨left, returns, serves yes⟩

end Served

end Hnw.Http
