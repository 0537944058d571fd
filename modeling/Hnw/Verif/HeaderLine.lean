import Hnw.Verif.Reading

/-!
# One header line

A header line is cut at every `": "`, and the first two pieces are kept. So a value that holds the
separator is cut short, and a line without a blank behind its colon is either refused or cut at a
separator of its value.
-/

namespace Hnw.Util

/-- The first two pieces of a text end at the first two separators, or the second one with the
text. -/
theorem split_two {src splitor first second : Bytes} {more : List Bytes}
    (cut : split src splitor = some (first :: second :: more)) :
    ∃ pos, find src splitor 0 = some pos ∧ pos + splitor.length < 2 ^ 31 ∧ first = src.take pos ∧
      ((find src splitor (pos + splitor.length) = none ∧
          second = src.drop (pos + splitor.length)) ∨
        ∃ next, find src splitor (pos + splitor.length) = some next ∧
          second = src.extract (pos + splitor.length) next) := by
  have step : ∀ (fuel beg : Nat) (piece : Bytes) (pieces : List Bytes),
      splitFrom src splitor fuel beg = some (piece :: pieces) →
      (find src splitor beg = none ∧ piece = src.drop beg ∧ pieces = []) ∨
        ∃ pos rest, find src splitor beg = some pos ∧ pos + splitor.length < 2 ^ 31 ∧
          piece = src.extract beg pos ∧
          splitFrom src splitor rest (pos + splitor.length) = some pieces := by
    intro fuel beg piece pieces found
    cases fuel with
    | zero => cases found
    | succ fuel =>
      cases here : find src splitor beg with
      | none =>
        simp only [splitFrom, here, Option.some.injEq, List.cons.injEq] at found
        exact .inl ⟨rfl, found.1.symm, found.2.symm⟩
      | some pos =>
        simp only [splitFrom, here] at found
        split at found
        · next short =>
          obtain ⟨later, rest, same⟩ := Option.map_eq_some_iff.mp found
          rw [List.cons.injEq] at same
          exact .inr ⟨pos, fuel, rfl, short, same.1.symm, same.2 ▸ rest⟩
        · cases found
  rcases step _ _ _ _ cut with ⟨_, _, nothing⟩ | ⟨pos, rest, found, short, front, later⟩
  · cases nothing
  · refine ⟨pos, found, short, ?_, ?_⟩
    · rw [front, List.extract_eq_take_drop, List.drop_zero, Nat.sub_zero]
    · rcases step _ _ _ _ later with ⟨none, last, _⟩ | ⟨next, _, behind, _, piece, _⟩
      · exact .inl ⟨none, last⟩
      · exact .inr ⟨next, behind, piece⟩

end Hnw.Util

namespace Hnw.Parser

open Hnw.Http Hnw.Util Hnw.Util.UnorderedMultimap Hnw.Theory

/-- The two forms of a header line. -/
inductive HeadForm where
  /-- A blank behind the colon, as `HeadImpl::string` writes it. -/
  | spaced
  /-- No blank behind the colon. -/
  | tight
deriving DecidableEq

/-- What stands between name and value. -/
def HeadForm.seq : HeadForm → Bytes
  | .spaced => headSeq
  | .tight => [colonByte]

/-- A header line without its end. -/
def HeadForm.text (form : HeadForm) (entry : Entry) : Bytes := entry.1 ++ (form.seq ++ entry.2)

/-- A header as a line can hold it: a name without a colon, and a value without blanks around
it. -/
structure HeaderTexts (entry : Entry) : Prop where
  /-- There is a name. -/
  some_ : entry.1 ≠ []
  /-- The name holds no colon. -/
  noColon : colonByte ∉ entry.1
  /-- The name is a text of one line. -/
  name : LineFree entry.1
  /-- The value is a text of one line. -/
  value : LineFree entry.2
  /-- The value does not begin with a blank. -/
  begins : entry.2.head? ≠ some blank
  /-- The value does not end with a blank. -/
  ends : entry.2.getLast? ≠ some blank

variable {ι σ : Type} [UnorderedMultimap σ] {setting : Setting ι σ} {s : ParserState ι σ}
  {entry : Entry}

/-- A parser reads a header line as one `add_head` of the name and the whole value, and nothing
else. -/
def DecodesLine (setting : Setting ι σ) (s : ParserState ι σ) (text : Bytes) (entry : Entry) :
    Prop :=
  InputData setting s (text ++ crlf)
    ⟨{ s with tmp := { s.tmp with head := addHead s.tmp.head entry.1 entry.2 } }, [], none⟩

/-- A head with another entry is another head. -/
theorem addHead_injective {head : σ} {first second : Entry}
    (same : addHead head first.1 first.2 = addHead head second.1 second.2) : first = second := by
  have perm : (first :: toList head).Perm (second :: toList head) := by
    have left := toList_insert head first
    have right := toList_insert head second
    have both : toList (insert head first) = toList (insert head second) := congrArg toList same
    rw [both] at left
    exact left.symm.trans right
  have counts := perm.count_eq first
  rw [List.count_cons_self, List.count_cons] at counts
  by_contra different
  rw [if_neg (by simpa using Ne.symm different)] at counts
  omega

/-- A line of two pieces or more adds a header. -/
theorem reads_pieces (inHead : s.status = .head) (empty : s.cache = []) {text : Bytes}
    (some_ : text ≠ []) (free : LineFree text) {key value : Bytes} {more : List Bytes}
    (pieces : split text headSeq = some (key :: value :: more)) :
    DecodesLine setting s text (key, value) := by
  have ends := @onLineEnd_pieces _ _ _ setting s inHead text some_ key value more pieces
  have read := reads_newLine free (.inr inHead) empty ends returns_nil
  rw [List.append_nil, ← empty] at read
  exact read

/-- A line of fewer pieces, or one that `split` does not get through, ends the reading. -/
theorem stops_pieces (inHead : s.status = .head) (empty : s.cache = []) {text : Bytes}
    (some_ : text ≠ []) (free : LineFree text)
    (fewer : ∀ key value more, split text headSeq ≠ some (key :: value :: more)) :
    ∃ last reason, InputData setting s (text ++ crlf) ⟨last, [], some reason⟩ := by
  have different : lf ≠ cr := by decide
  have ends : ∃ reason, onLineEnd setting { s with cache := text } =
      ⟨{ s with cache := text }, [], 1, some reason⟩ := by
    simp only [onLineEnd, callParserCb, inHead, onHead, if_neg different, if_true, if_neg some_]
    cases pieces : split text headSeq with
    | none => exact ⟨_, rfl⟩
    | some d =>
      cases d with
      | nil => exact ⟨_, rfl⟩
      | cons key rest =>
        cases rest with
        | nil => exact ⟨_, rfl⟩
        | cons value more => exact absurd pieces (fewer key value more)
  obtain ⟨reason, call⟩ := ends
  have read := stops_newLine [] free (.inr inHead) empty call
  rw [List.append_nil] at read
  exact ⟨_, reason, read⟩

/-- What a header line is read as is decided by its first two pieces. -/
theorem decodesLine_iff_split (inHead : s.status = .head) (empty : s.cache = []) {text : Bytes}
    (some_ : text ≠ []) (free : LineFree text) :
    DecodesLine setting s text entry ↔
      ∃ more, split text headSeq = some (entry.1 :: entry.2 :: more) := by
  constructor
  · intro decodes
    by_cases two : ∃ key value more, split text headSeq = some (key :: value :: more)
    · obtain ⟨key, value, more, pieces⟩ := two
      have read := @reads_pieces _ _ _ setting s inHead empty text some_ free key value more pieces
      have same := congrArg Outcome.state (Returns.unique decodes read)
      have heads := congrArg (fun state : ParserState ι σ => state.tmp.head) same
      have equal : entry = (key, value) :=
        @addHead_injective σ _ s.tmp.head entry (key, value) heads
      exact ⟨more, by rw [equal]; exact pieces⟩
    · have fewer : ∀ key value more, split text headSeq ≠ some (key :: value :: more) :=
        fun key value more pieces => two ⟨key, value, more, pieces⟩
      obtain ⟨last, reason, read⟩ :=
        @stops_pieces _ _ _ setting s inHead empty text some_ free fewer
      have same := congrArg Outcome.stop (Returns.unique decodes read)
      cases same
  · rintro ⟨more, pieces⟩
    exact reads_pieces inHead empty some_ free pieces

/-! ## The two forms -/

/-- A header line is a text of one line. -/
theorem HeadForm.lineFree (form : HeadForm) (texts : HeaderTexts entry) :
    LineFree (form.text entry) := by
  have seq : LineFree form.seq := by cases form <;> decide
  exact lineFree_append.mpr ⟨texts.name, lineFree_append.mpr ⟨seq, texts.value⟩⟩

/-- The line as it is written is cut into name and value exactly where the value does not hold the
separator, and the name is short enough for `split`. -/
theorem split_spaced_iff (texts : HeaderTexts entry) :
    (∃ more, split (HeadForm.spaced.text entry) headSeq = some (entry.1 :: entry.2 :: more)) ↔
      SeqFree entry.2 ∧ ShortName entry := by
  have nameFree := seqFree_of_noColon texts.noColon
  have size : headSeq.length = 2 := rfl
  constructor
  · rintro ⟨more, cut⟩
    obtain ⟨pos, found, short, _, behind⟩ := split_two cut
    have here : find (HeadForm.spaced.text entry) headSeq 0 = some entry.1.length :=
      find_headSeq nameFree
    rw [here, Option.some.injEq] at found
    subst found
    have whole : HeadForm.spaced.text entry = (entry.1 ++ headSeq) ++ entry.2 :=
      (List.append_assoc _ _ _).symm
    have front : (entry.1 ++ headSeq).length = entry.1.length + headSeq.length :=
      List.length_append
    rcases behind with ⟨none, _⟩ | ⟨next, found, piece⟩
    · refine ⟨fun pos occurs => ?_, short⟩
      have there : OccursAt (HeadForm.spaced.text entry) headSeq
          (entry.1.length + headSeq.length + pos) := by
        rw [OccursAt, whole, ← front, ← List.drop_drop, List.drop_left]
        exact occurs
      have length := there.length_le (by decide)
      obtain ⟨first, found, _⟩ := find_le (Nat.le_add_right _ pos) (by omega) there
      rw [none] at found
      cases found
    · obtain ⟨after, _, occurs⟩ := find_occurs found
      have length := occurs.length_le (by decide)
      have pieceLength := congrArg List.length piece
      rw [List.extract_eq_take_drop, List.length_take, List.length_drop] at pieceLength
      rw [whole, List.length_append, front] at length pieceLength
      omega
  · rintro ⟨valueFree, short⟩
    exact ⟨[], split_header nameFree valueFree short⟩

/-- The line without a blank is never cut into name and value. -/
theorem split_tight (texts : HeaderTexts entry) :
    ¬ ∃ more, split (HeadForm.tight.text entry) headSeq = some (entry.1 :: entry.2 :: more) := by
  rintro ⟨more, cut⟩
  obtain ⟨pos, found, _, front, _⟩ := split_two cut
  obtain ⟨_, _, occurs⟩ := find_occurs found
  have inside := occurs.length_le (by decide)
  have length := congrArg List.length front
  rw [List.length_take] at length
  have here : pos = entry.1.length := by omega
  subst here
  rw [OccursAt, HeadForm.text, List.drop_left] at occurs
  have tail : [blank] <+: entry.2 := by
    have both : colonByte :: [blank] <+: colonByte :: entry.2 := occurs
    exact (List.cons_prefix_cons.mp both).2
  obtain ⟨rest, same⟩ := tail
  exact texts.begins (by rw [← same]; rfl)

/-- A parser in a head reads a line as its header exactly where the line has the blank behind the
colon, the value does not hold the separator, and the name is short enough for `split`. -/
theorem decodesLine_iff (setting : Setting ι σ) (inHead : s.status = .head) (empty : s.cache = [])
    (form : HeadForm) (texts : HeaderTexts entry) :
    DecodesLine setting s (form.text entry) entry ↔
      form = .spaced ∧ SeqFree entry.2 ∧ ShortName entry := by
  have some_ : form.text entry ≠ [] := by
    intro nothing
    exact texts.some_ (List.append_eq_nil_iff.mp nothing).1
  rw [decodesLine_iff_split inHead empty some_ (form.lineFree texts)]
  cases form with
  | spaced => simp only [true_and, split_spaced_iff texts]
  | tight => simp only [split_tight texts, false_and, reduceCtorEq]

/-- A new response parser that waits for headers. -/
def waitingForHeaders : ParserState ResponseLine ListMultimap :=
  { fresh ⟨httpResponseParser, ⟨linux, fun _ => []⟩, false⟩ ⟨fun _ => none, 0⟩ [] with
    status := .head }

/-- A header is read as it was written. -/
theorem decodesLine_host :
    DecodesLine ⟨httpResponseParser, ⟨linux, fun _ => []⟩, false⟩ waitingForHeaders
      (HeadForm.spaced.text (ascii "Host", ascii "h")) (ascii "Host", ascii "h") := by
  have texts : HeaderTexts (ascii "Host", ascii "h") :=
    ⟨by decide, by decide, by decide, by decide, by decide, by decide⟩
  exact (decodesLine_iff _ rfl rfl .spaced texts).mpr ⟨rfl, by decide, by decide⟩

/-- A value that holds the separator is cut short. -/
theorem value_cut_short :
    ¬ ∀ (form : HeadForm) (entry : Entry), HeaderTexts entry →
      DecodesLine ⟨httpResponseParser, ⟨linux, fun _ => []⟩, false⟩ waitingForHeaders
        (form.text entry) entry := by
  intro always
  have texts : HeaderTexts (ascii "Warning", ascii "a: b") :=
    ⟨by decide, by decide, by decide, by decide, by decide, by decide⟩
  have decodes := always .spaced _ texts
  rw [decodesLine_iff_split rfl rfl (by decide) (HeadForm.lineFree _ texts)] at decodes
  obtain ⟨more, pieces⟩ := decodes
  have cut : split (HeadForm.spaced.text (ascii "Warning", ascii "a: b")) headSeq =
      some [ascii "Warning", ascii "a", ascii "b"] := by decide
  rw [cut, Option.some.injEq, List.cons.injEq, List.cons.injEq] at pieces
  exact absurd pieces.2.1 (by decide)

end Hnw.Parser
