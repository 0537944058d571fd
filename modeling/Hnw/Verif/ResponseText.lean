import Hnw.Verif.HeaderLine
import Hnw.Verif.Responses
import Hnw.Verif.Split

/-!
# Response heads as texts

A response head as the lines of a stream, and what a response parser makes of it. The parser finds
the length of the body only under the very name `Content-Length`; without it there is none.
-/

namespace Hnw.Parser

open Hnw.Http Hnw.Util Hnw.Util.UnorderedMultimap Hnw.Theory

/-- A response head as it stands in a stream. -/
structure ResponseHead where
  /-- The status line. -/
  line : Bytes
  /-- Name and value of each header line. -/
  entries : List Entry
deriving DecidableEq

/-- A header that is a `Content-Length`, whatever the case of its letters. -/
def NamesLength (entry : Entry) : Prop := toLower entry.1 = toLower httpLen

instance (entry : Entry) : Decidable (NamesLength entry) :=
  inferInstanceAs (Decidable (toLower entry.1 = toLower httpLen))

namespace ResponseHead

/-- The bytes of a head, with the empty line behind it. -/
def text (head : ResponseHead) : Bytes :=
  head.line ++ (crlf ++ (head.entries.flatMap headLine ++ crlf))

/-- A head and what follows it. -/
theorem text_append (head : ResponseHead) (more : Bytes) :
    head.text ++ more =
      head.line ++ (crlf ++ (head.entries.flatMap headLine ++ (crlf ++ more))) := by
  simp only [text, List.append_assoc]

/-- A head as a stream can hold it, of a response with a body of this size. All its lengths say
the same, and without one there is no body. -/
structure WellFormed (head : ResponseHead) (size : Nat) : Prop where
  /-- The status line is a text of one line, -/
  line : LineFree head.line
  /-- with three words or more. -/
  words : 3 ≤ (head.line.splitOn blank).length
  /-- No name holds a colon, and names and values are texts of one line. -/
  texts : ∀ entry ∈ head.entries,
    colonByte ∉ entry.1 ∧ LineFree entry.1 ∧ LineFree entry.2
  /-- A length says the size. -/
  length : ∀ entry ∈ head.entries, NamesLength entry →
    colonByte ∉ entry.2 ∧ stoll entry.2 = some (size : Int)
  /-- Without a length there is no body. -/
  noLength : (∀ entry ∈ head.entries, ¬ NamesLength entry) → size = 0
  /-- The size is at most ten megabytes. -/
  small : (size : Int) ≤ rawBodyLimit

/-- `split` gets through all lines of a head. -/
def Near (head : ResponseHead) : Prop :=
  BytesNear blank head.line ∧ ∀ entry ∈ head.entries, split (headerText entry) headSeq ≠ none

instance (head : ResponseHead) : Decidable head.Near :=
  inferInstanceAs (Decidable (BytesNear blank head.line ∧
    ∀ entry ∈ head.entries, split (headerText entry) headSeq ≠ none))

/-- One of the headers has the very name that the code looks for. -/
def NamesExactly (head : ResponseHead) : Prop := ∃ entry ∈ head.entries, entry.1 = httpLen

instance (head : ResponseHead) : Decidable head.NamesExactly :=
  inferInstanceAs (Decidable (∃ entry ∈ head.entries, entry.1 = httpLen))

/-- The size of the body that the code waits for. -/
def seen (head : ResponseHead) (size : Nat) : Nat := if head.NamesExactly then size else 0

/-- The status line as it is stored. -/
def storedLine (head : ResponseHead) : ResponseLine :=
  { version := (head.line.splitOn blank).getD 0 []
    statusCode := (head.line.splitOn blank).getD 1 []
    reason := (head.line.splitOn blank).getD 2 [] }

end ResponseHead

variable {τ : Type} [UnorderedMultimap τ] {surroundings : Surroundings} {holds : Bool}
  {files : Files} {head : ResponseHead} {size : Nat} {more : Bytes}
  {o : Outcome (ParserState ResponseLine τ) (Event ResponseLine τ) Stop}

/-! ## The headers -/

/-- A header whose name holds no colon is cut behind its name, where `split` gets through it. -/
theorem cutBehindName {entry : Entry} (noColon : colonByte ∉ entry.1)
    (near : split (headerText entry) headSeq ≠ none) : CutBehindName entry := by
  obtain ⟨pieces, cut⟩ := Option.ne_none_iff_exists'.mp near
  obtain ⟨value, more, rfl⟩ := split_name_pieces (seqFree_of_noColon noColon) cut
  exact ⟨value, more, cut⟩

/-- A header without any colon is stored as it is, where `split` gets through it. -/
theorem stored_of_noColon {entry : Entry} (nameFree : colonByte ∉ entry.1)
    (valueFree : colonByte ∉ entry.2)
    (near : split (headerText entry) headSeq ≠ none) : stored entry = entry := by
  have short : entry.1.length + 2 < 2 ^ 31 := by
    by_contra long
    exact near (split_header_long (seqFree_of_noColon nameFree) (Nat.le_of_not_lt long))
  have pieces : split (headerText entry) headSeq = some [entry.1, entry.2] :=
    split_header (seqFree_of_noColon nameFree) (seqFree_of_noColon valueFree) short
  rw [stored, pieces]
  rfl

/-- The size that the code finds in a head. -/
theorem declaredSize_stored (formed : head.WellFormed size) (near : head.Near)
    (line : ResponseLine) :
    Message.declaredSize
      (⟨line, addHeads empty (head.entries.map stored), none⟩ : Message ResponseLine τ) =
      head.seen size := by
  have perm : (toList (addHeads (empty : τ) (head.entries.map stored))).Perm
      (head.entries.map stored) := addHeads_empty_perm _
  rw [Message.declaredSize, getHeadInt64, getHead, ResponseHead.seen]
  cases found : UnorderedMultimap.find (addHeads (empty : τ) (head.entries.map stored)) httpLen with
  | none =>
    have absent : ¬ head.NamesExactly := by
      rintro ⟨entry, member, name⟩
      have inside := perm.mem_iff.mpr (List.mem_map.mpr ⟨entry, member, rfl⟩)
      have other := List.find?_eq_none.mp found (stored entry) inside
      exact other (decide_eq_true name)
    rw [if_pos rfl, if_neg absent]
    rfl
  | some entry =>
    have name : entry.1 = httpLen := by simpa using List.find?_some found
    have inside := perm.mem_iff.mp (List.mem_of_find?_eq_some found)
    obtain ⟨sent, member, rfl⟩ := List.mem_map.mp inside
    have exact_ : sent.1 = httpLen := name
    obtain ⟨noColon, number⟩ := formed.length sent member (congrArg toLower exact_)
    have same := stored_of_noColon (formed.texts sent member).1 noColon (near.2 sent member)
    have some_ : sent.2 ≠ [] := by
      intro nothing
      rw [nothing] at number
      cases number
    have present : head.NamesExactly := ⟨sent, member, exact_⟩
    simp only [same, if_neg some_, number, Option.getD_some, if_pos present]

/-! ## One text, one head -/

/-- A text of one line in front of a line end is the only one. -/
theorem line_unique {first second rest rest' : Bytes} (free : LineFree first)
    (free' : LineFree second) (same : first ++ (crlf ++ rest) = second ++ (crlf ++ rest')) :
    first = second ∧ rest = rest' := by
  have cut : cutFirst cr (first ++ (crlf ++ rest)) = (first, lf :: rest) :=
    cutFirst_append free.1 _
  have cut' : cutFirst cr (second ++ (crlf ++ rest')) = (second, lf :: rest') :=
    cutFirst_append free'.1 _
  rw [same, cut', Prod.mk.injEq, List.cons.injEq] at cut
  exact ⟨cut.1.symm, cut.2.2.symm⟩

/-- A header line has one name without a colon, and one value. -/
theorem headerText_unique {entry other : Entry} (noColon : colonByte ∉ entry.1)
    (noColon' : colonByte ∉ other.1) (same : headerText entry = headerText other) :
    entry = other := by
  have cut : cutFirst colonByte (headerText entry) = (entry.1, blank :: entry.2) :=
    cutFirst_append noColon _
  have cut' : cutFirst colonByte (headerText other) = (other.1, blank :: other.2) :=
    cutFirst_append noColon' _
  rw [same, cut', Prod.mk.injEq, List.cons.injEq] at cut
  exact Prod.ext cut.1.symm cut.2.2.symm

/-- The first of several header lines. -/
theorem headLines_cons (entry : Entry) (entries : List Entry) (more : Bytes) :
    (entry :: entries).flatMap headLine ++ more =
      headerText entry ++ (crlf ++ (entries.flatMap headLine ++ more)) := by
  rw [List.flatMap_cons, List.append_assoc, headLine_eq, headerText]

/-- Header lines up to the empty line are the only ones. -/
theorem headLines_unique {entries others : List Entry} {rest rest' : Bytes}
    (texts : ∀ entry ∈ entries, colonByte ∉ entry.1 ∧ LineFree (headerText entry))
    (texts' : ∀ entry ∈ others, colonByte ∉ entry.1 ∧ LineFree (headerText entry))
    (same : entries.flatMap headLine ++ (crlf ++ rest) =
      others.flatMap headLine ++ (crlf ++ rest')) : entries = others ∧ rest = rest' := by
  have emptyLine : LineFree [] := ⟨List.not_mem_nil, List.not_mem_nil⟩
  have some_ : ∀ entry : Entry, headerText entry ≠ [] := by simp [headerText, headSeq]
  induction entries generalizing others with
  | nil =>
    cases others with
    | nil => exact ⟨rfl, (line_unique emptyLine emptyLine same).2⟩
    | cons other others =>
      rw [headLines_cons] at same
      have nothing := (line_unique emptyLine (texts' other (by simp)).2 same).1
      exact absurd nothing.symm (some_ other)
  | cons entry entries ih =>
    rw [headLines_cons] at same
    cases others with
    | nil =>
      have nothing := (line_unique (texts entry (by simp)).2 emptyLine same).1
      exact absurd nothing (some_ entry)
    | cons other others =>
      rw [headLines_cons] at same
      obtain ⟨lines, behind⟩ :=
        line_unique (texts entry (by simp)).2 (texts' other (by simp)).2 same
      obtain ⟨rfl, rests⟩ := ih (fun entry member => texts entry (by simp [member]))
        (fun entry member => texts' entry (by simp [member])) behind
      obtain rfl := headerText_unique (texts entry (by simp)).1 (texts' other (by simp)).1 lines
      exact ⟨rfl, rests⟩

/-- The lines of a well formed head, without colons in names. -/
theorem ResponseHead.WellFormed.lines (formed : head.WellFormed size) :
    ∀ entry ∈ head.entries, colonByte ∉ entry.1 ∧ LineFree (headerText entry) := by
  intro entry member
  obtain ⟨noColon, texts⟩ := formed.texts entry member
  exact ⟨noColon, headerText_lineFree texts⟩

/-- A text begins with one head, which has one size. -/
theorem ResponseHead.WellFormed.unique {other : ResponseHead} {size' : Nat} {rest rest' : Bytes}
    (formed : head.WellFormed size) (formed' : other.WellFormed size')
    (same : head.text ++ rest = other.text ++ rest') :
    head = other ∧ size = size' ∧ rest = rest' := by
  rw [head.text_append, other.text_append] at same
  obtain ⟨line, behind⟩ := line_unique formed.line formed'.line same
  obtain ⟨entries, rests⟩ := headLines_unique formed.lines formed'.lines behind
  have heads : head = other := by
    obtain ⟨_, _⟩ := head
    obtain ⟨_, _⟩ := other
    exact congrArg₂ ResponseHead.mk line entries
  subst heads
  refine ⟨rfl, ?_, rests⟩
  by_cases lengths : ∃ entry ∈ head.entries, NamesLength entry
  · obtain ⟨entry, member, names⟩ := lengths
    have number := (formed.length entry member names).2
    rw [(formed'.length entry member names).2, Option.some.injEq, Int.natCast_inj] at number
    exact number.symm
  · have none : ∀ entry ∈ head.entries, ¬ NamesLength entry :=
      fun entry member names => lengths ⟨entry, member, names⟩
    rw [formed.noLength none, formed'.noLength none]

/-! ## Reading a head -/

/-- A response parser behind the header lines of a head. -/
def behindHeaders (surroundings : Surroundings) (holds : Bool) (files : Files)
    (head : ResponseHead) : ParserState ResponseLine τ :=
  { (behindLine surroundings holds files head.storedLine : ParserState ResponseLine τ) with
    tmp := ⟨head.storedLine, addHeads empty (head.entries.map stored), none⟩ }

/-- The lines of a head are read, whatever follows them. -/
theorem reads_lines (formed : head.WellFormed size) (near : head.Near)
    (rest : InputData ⟨httpResponseParser, surroundings, holds⟩
      (behindHeaders surroundings holds files head : ParserState ResponseLine τ) more o) :
    InputData ⟨httpResponseParser, surroundings, holds⟩
      (fresh ⟨httpResponseParser, surroundings, holds⟩ files [])
      (head.line ++ (crlf ++ (head.entries.flatMap headLine ++ more))) o := by
  have cut : split head.line space = some (head.line.splitOn blank) :=
    (split_byte head.line blank).trans (if_pos near.1)
  have sets : (@httpResponseParser τ _).setLine {} (head.line.splitOn blank) =
      some head.storedLine := rfl
  apply reads_startLine rfl rfl formed.line cut formed.words sets
  have free : ∀ entry ∈ head.entries, LineFree (headerText entry) :=
    fun entry member => (formed.lines entry member).2
  have cuts : ∀ entry ∈ head.entries, CutBehindName entry :=
    fun entry member => cutBehindName (formed.texts entry member).1 (near.2 entry member)
  exact reads_entries rfl rfl free cuts rest

/-- A head ends the reading where `split` does not get through its lines. -/
theorem reads_far (formed : head.WellFormed size) (far : ¬ head.Near) (more : Bytes) :
    ∃ last, InputData ⟨httpResponseParser, surroundings, holds⟩
      (fresh ⟨httpResponseParser, surroundings, holds⟩ files [] : ParserState ResponseLine τ)
      (head.line ++ (crlf ++ (head.entries.flatMap headLine ++ more)))
      ⟨last, [], some .fault⟩ := by
  by_cases nearLine : BytesNear blank head.line
  · have cut : split head.line space = some (head.line.splitOn blank) :=
      (split_byte head.line blank).trans (if_pos nearLine)
    have sets : (@httpResponseParser τ _).setLine {} (head.line.splitOn blank) =
        some head.storedLine := rfl
    have free : ∀ entry ∈ head.entries, LineFree (headerText entry) :=
      fun entry member => (formed.lines entry member).2
    have cuts : ∀ entry ∈ head.entries,
        split (headerText entry) headSeq = none ∨ CutBehindName entry := by
      intro entry member
      by_cases here : split (headerText entry) headSeq = none
      · exact .inl here
      · exact .inr (cutBehindName (formed.texts entry member).1 here)
    have long : ∃ entry ∈ head.entries, split (headerText entry) headSeq = none := by
      by_contra none
      exact far ⟨nearLine, fun entry member here => none ⟨entry, member, here⟩⟩
    obtain ⟨last, stops⟩ := @reads_entries_long _ _ _ ⟨httpResponseParser, surroundings, holds⟩
      (behindLine surroundings holds files head.storedLine : ParserState ResponseLine τ) _
      more rfl rfl free cuts long
    exact ⟨last, reads_startLine rfl rfl formed.line cut formed.words sets stops⟩
  · have cut : split head.line space = none :=
      (split_byte head.line blank).trans (if_neg nearLine)
    exact reads_startLine_long _ rfl rfl formed.line cut

/-- A head whose end goes on is read, whatever follows it. -/
theorem reads_headEnd (formed : head.WellFormed size) (near : head.Near)
    {next : ParserState ResponseLine τ} {events : List (Event ResponseLine τ)}
    (ends : endOfHead ⟨httpResponseParser, surroundings, holds⟩
      (behindHeaders surroundings holds files head) = ⟨next, events, 1, none⟩)
    (rest : InputData ⟨httpResponseParser, surroundings, holds⟩ next more o) :
    InputData ⟨httpResponseParser, surroundings, holds⟩
      (fresh ⟨httpResponseParser, surroundings, holds⟩ files []) (head.text ++ more)
      (o.after events) := by
  rw [head.text_append]
  apply reads_lines formed near
  exact @reads_line _ _ _ ⟨httpResponseParser, surroundings, holds⟩
    (behindHeaders surroundings holds files head) o [] more (by simp [LineFree]) (.inr rfl) next
    events (by rw [List.append_nil, ← ends]; exact onLineEnd_empty rfl rfl) rest

/-- Nothing is put out for a head that is not there to its end. -/
theorem reads_cutHead (formed : head.WellFormed size) {count : Nat}
    (inside : count < head.text.length) :
    ∃ o : Outcome (ParserState ResponseLine τ) (Event ResponseLine τ) Stop,
      InputData ⟨httpResponseParser, surroundings, holds⟩
        (fresh ⟨httpResponseParser, surroundings, holds⟩ files []) (head.text.take count) o ∧
      o.out = [] ∧ ∀ reason, o.stop = some reason → reason.fatal = true := by
  let front := head.line ++ (crlf ++ (head.entries.flatMap headLine ++ [cr]))
  have last : head.text = front ++ [lf] := by
    simp [ResponseHead.text, front, crlf]
  have start : head.text.take count ++ front.drop count = front := by
    rw [last, List.length_append, List.length_singleton] at inside
    rw [last, List.take_append_of_le_length (Nat.le_of_lt_succ inside), List.take_append_drop]
  have whole : ∃ o : Outcome (ParserState ResponseLine τ) (Event ResponseLine τ) Stop,
      InputData ⟨httpResponseParser, surroundings, holds⟩
        (fresh ⟨httpResponseParser, surroundings, holds⟩ files []) front o ∧
      o.out = [] ∧ (o.stop = none ∨ o.stop = some .fault) := by
    by_cases near : head.Near
    · exact ⟨_, reads_lines formed near (reads_cr (.inr rfl) returns_nil), rfl, .inl rfl⟩
    · obtain ⟨last, read⟩ := @reads_far τ _ surroundings holds files head size formed near [cr]
      exact ⟨_, read, rfl, .inr rfl⟩
  obtain ⟨o, read, silent, ends⟩ := whole
  rw [← start] at read
  rcases (callParserCb_splits httpResponseParser_lawful).returns_parts
    (freshResponse_passive surroundings holds files) read with
    ⟨stops, here⟩ | ⟨first, later, here, goes, _, rfl⟩
  · refine ⟨o, here, silent, fun reason stopped => ?_⟩
    rcases ends with goes | fault
    · exact absurd goes stops
    · rw [fault] at stopped
      cases stopped
      rfl
  · refine ⟨first, here, (List.append_eq_nil_iff.mp silent).1, fun reason stopped => ?_⟩
    rw [goes] at stopped
    cases stopped

/-! ## Reading a response -/

/-- The status codes and the bodies of the responses that are handed over. -/
def reports (events : List (Event ResponseLine τ)) : List (Bytes × Bytes) :=
  events.filterMap fun event => match event with
    | .recv line _ body => some (line.statusCode, body)
    | _ => none

omit [UnorderedMultimap τ] in
/-- What is handed over first is reported first. -/
theorem reports_append (first second : List (Event ResponseLine τ)) :
    reports (first ++ second) = reports first ++ reports second :=
  List.filterMap_append

/-- The parser is at the end of a head that was read. -/
theorem behindHeaders_atHeadEnd (formed : head.WellFormed size) (near : head.Near) :
    AtHeadEnd (behindHeaders surroundings holds files head : ParserState ResponseLine τ)
      (head.seen size) where
  status := rfl
  leaves := rfl
  none := rfl
  declared := declaredSize_stored formed near head.storedLine
  small := by
    have small := formed.small
    have limit : (0 : Int) ≤ rawBodyLimit := by decide
    rw [ResponseHead.seen]
    split
    · exact small
    · exact limit

/-- A body of the size that is waited for is reported. -/
theorem reads_response (formed : head.WellFormed size) (near : head.Near) {body : Bytes}
    (whole : body.length = head.seen size)
    (rest : InputData ⟨httpResponseParser, surroundings, holds⟩
      (fresh ⟨httpResponseParser, surroundings, holds⟩ files []) more o) :
    ∃ events : List (Event ResponseLine τ),
      reports events = [(head.storedLine.statusCode, body)] ∧
        InputData ⟨httpResponseParser, surroundings, holds⟩
          (fresh ⟨httpResponseParser, surroundings, holds⟩ files []) (head.text ++ (body ++ more))
          (o.after events) := by
  have atEnd := @behindHeaders_atHeadEnd τ _ surroundings holds files head size formed near
  rw [← whole] at atEnd
  by_cases nothing : body = []
  · subst nothing
    exact ⟨_, rfl, reads_headEnd formed near (endOfHead_noBody atEnd) rest⟩
  · have read := reads_headEnd formed near
      (endOfHead_body atEnd (List.length_pos_iff.mpr nothing)) (reads_body atEnd nothing rest)
    rw [Outcome.after_after] at read
    exact ⟨_, rfl, read⟩

/-- Nothing is reported of a body that is not there to its end. -/
theorem reads_partBody (formed : head.WellFormed size) (near : head.Near) {body : Bytes}
    (part_ : body.length < head.seen size) :
    ∃ last, ∃ events : List (Event ResponseLine τ), reports events = [] ∧
      InputData ⟨httpResponseParser, surroundings, holds⟩
        (fresh ⟨httpResponseParser, surroundings, holds⟩ files []) (head.text ++ body)
        ⟨last, events, none⟩ := by
  have atEnd := @behindHeaders_atHeadEnd τ _ surroundings holds files head size formed near
  obtain ⟨last, part⟩ := @reads_bodyPart τ _ surroundings holds _ _ atEnd body part_
  have read := reads_headEnd formed near
    (endOfHead_body atEnd (Nat.zero_lt_of_lt part_)) part
  exact ⟨last, _, rfl, read⟩

end Hnw.Parser
