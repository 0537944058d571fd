import Mathlib.Data.List.Forall2
import Hnw.Theory.Framing
import Hnw.Verif.Parser
import Hnw.Verif.Text

/-!
# Reading a message

What the parsers make of a start line, of headers and of an empty line, whatever bytes follow.
A `split` that goes too far behind ends the reading.
-/

namespace Hnw.Parser

open Hnw.Http Hnw.Util Hnw.Util.UnorderedMultimap Hnw.Theory

variable {ι σ : Type} [UnorderedMultimap σ] {setting : Setting ι σ} {s : ParserState ι σ}
  {o : Outcome (ParserState ι σ) (Event ι σ) Stop}

/-- A text without the two bytes that end a line. -/
def LineFree (text : Bytes) : Prop := cr ∉ text ∧ lf ∉ text

instance (text : Bytes) : Decidable (LineFree text) :=
  inferInstanceAs (Decidable (cr ∉ text ∧ lf ∉ text))

/-- A text that is one word of a line. -/
def Word (text : Bytes) : Prop := blank ∉ text ∧ LineFree text

instance (text : Bytes) : Decidable (Word text) :=
  inferInstanceAs (Decidable (blank ∉ text ∧ LineFree text))

/-- A text is of one line where its parts are. -/
theorem lineFree_append {first second : Bytes} :
    LineFree (first ++ second) ↔ LineFree first ∧ LineFree second := by
  simp only [LineFree, List.mem_append, not_or]
  exact and_and_and_comm

/-- Two words and what follows them are a text of one line. -/
theorem lineFree_words {first second rest : Bytes} (firstWord : Word first)
    (secondWord : Word second) (free : LineFree rest) :
    LineFree (first ++ ([blank] ++ (second ++ ([blank] ++ rest)))) := by
  have between : LineFree [blank] := by decide
  simp only [lineFree_append]
  exact ⟨firstWord.2, between, secondWord.2, between, free⟩

/-- The events that hand a message over. -/
def recvs {ι σ : Type} (events : List (Event ι σ)) : List (Event ι σ) :=
  events.filter fun event => match event with
    | .recv _ _ _ => true
    | _ => false

/-- Events in order hand their messages over in order. -/
theorem recvs_append {ι σ : Type} (first second : List (Event ι σ)) :
    recvs (first ++ second) = recvs first ++ recvs second :=
  List.filter_append first second

/-- A text is added to the line that is read. -/
theorem reads_text {text more : Bytes} (free : LineFree text)
    (inLine : s.status = .startLine ∨ s.status = .head)
    (rest : InputData setting { s with cache := s.cache ++ text } more o) :
    InputData setting s (text ++ more) o := by
  induction text generalizing s with
  | nil => simpa using rest
  | cons ch text ih =>
    obtain ⟨noCr, noLf⟩ := free
    rw [List.mem_cons, not_or] at noCr noLf
    have call : callParserCb setting s (ch :: (text ++ more)) =
        ⟨{ s with cache := s.cache ++ [ch] }, [], 1, none⟩ := by
      rcases inLine with status | status <;>
        simp only [callParserCb, status, onStartLine, onHead, if_neg (Ne.symm noCr.1),
          if_neg (Ne.symm noLf.1)]
    have later := @ih { s with cache := s.cache ++ [ch] } ⟨noCr.2, noLf.2⟩ inLine
      (by simpa using rest)
    have read := returns_of_next (callParserCb setting) s (List.cons_ne_nil ch (text ++ more))
      (by rw [call]) (by rw [call]; simpa using later)
    rw [call] at read
    exact read

/-- The handler of the byte that ends a line. -/
def onLineEnd (setting : Setting ι σ) (s : ParserState ι σ) : Call ι σ :=
  callParserCb setting s [lf]

/-- A `\r` is skipped. -/
theorem reads_cr {more : Bytes} (inLine : s.status = .startLine ∨ s.status = .head)
    (rest : InputData setting s more o) : InputData setting s (cr :: more) o := by
  have call : callParserCb setting s (cr :: more) = ⟨s, [], 1, none⟩ := by
    rcases inLine with status | status <;>
      simp only [callParserCb, status, onStartLine, onHead, if_true]
  have read := returns_of_next (callParserCb setting) s (List.cons_ne_nil cr more)
    (by rw [call]) (by rw [call]; simpa using rest)
  rw [call] at read
  exact read

/-- The byte that ends a line goes to its handler. -/
theorem call_lf (inLine : s.status = .startLine ∨ s.status = .head) (more : Bytes) :
    callParserCb setting s (lf :: more) = onLineEnd setting s :=
  (callParserCb_byte setting (List.cons_ne_nil lf []) more inLine).1

/-- A line is read up to the byte that ends it. -/
theorem reads_toEnd {text more : Bytes} (free : LineFree text)
    (inLine : s.status = .startLine ∨ s.status = .head)
    (rest : InputData setting { s with cache := s.cache ++ text } (lf :: more) o) :
    InputData setting s (text ++ (crlf ++ more)) o := by
  apply reads_text free inLine
  have still : ({ s with cache := s.cache ++ text } : ParserState ι σ).status = .startLine ∨
      ({ s with cache := s.cache ++ text } : ParserState ι σ).status = .head := inLine
  exact reads_cr still rest

/-- A line that does not end the reading. -/
theorem reads_line {text more : Bytes} (free : LineFree text)
    (inLine : s.status = .startLine ∨ s.status = .head) {next : ParserState ι σ}
    {events : List (Event ι σ)}
    (ends : onLineEnd setting { s with cache := s.cache ++ text } = ⟨next, events, 1, none⟩)
    (rest : InputData setting next more o) :
    InputData setting s (text ++ (crlf ++ more)) (o.after events) := by
  have call : callParserCb setting { s with cache := s.cache ++ text } (lf :: more) =
      ⟨next, events, 1, none⟩ :=
    (call_lf (s := { s with cache := s.cache ++ text }) inLine more).trans ends
  have read := returns_of_next (callParserCb setting) _ (List.cons_ne_nil lf more)
    (by rw [call]) (by rw [call]; exact rest)
  rw [call] at read
  exact reads_toEnd free inLine read

/-- A line that ends the reading. -/
theorem reads_line_stop {text : Bytes} (more : Bytes) (free : LineFree text)
    (inLine : s.status = .startLine ∨ s.status = .head) {next : ParserState ι σ}
    {events : List (Event ι σ)} {reason : Stop}
    (ends : onLineEnd setting { s with cache := s.cache ++ text } =
      ⟨next, events, 1, some reason⟩) :
    InputData setting s (text ++ (crlf ++ more)) ⟨next, events, some reason⟩ := by
  have call : callParserCb setting { s with cache := s.cache ++ text } (lf :: more) =
      ⟨next, events, 1, some reason⟩ :=
    (call_lf (s := { s with cache := s.cache ++ text }) inLine more).trans ends
  have read := returns_of_stop (callParserCb setting) _ (List.cons_ne_nil lf more)
    (show _ = some reason by rw [call])
  rw [call] at read
  exact reads_toEnd free inLine read

/-- A line that begins with the text and does not end the reading. -/
theorem reads_newLine {text more : Bytes} (free : LineFree text)
    (inLine : s.status = .startLine ∨ s.status = .head) (empty : s.cache = [])
    {next : ParserState ι σ} {events : List (Event ι σ)}
    (ends : onLineEnd setting { s with cache := text } = ⟨next, events, 1, none⟩)
    (rest : InputData setting next more o) :
    InputData setting s (text ++ (crlf ++ more)) (o.after events) := by
  refine reads_line free inLine ?_ rest
  rw [empty, List.nil_append]
  exact ends

/-- A line that begins with the text and ends the reading. -/
theorem stops_newLine {text : Bytes} (more : Bytes) (free : LineFree text)
    (inLine : s.status = .startLine ∨ s.status = .head) (empty : s.cache = [])
    {next : ParserState ι σ} {events : List (Event ι σ)} {reason : Stop}
    (ends : onLineEnd setting { s with cache := text } = ⟨next, events, 1, some reason⟩) :
    InputData setting s (text ++ (crlf ++ more)) ⟨next, events, some reason⟩ := by
  apply reads_line_stop more free inLine
  rw [empty, List.nil_append]
  exact ends

/-! ## The head -/

/-- A header without line ends, whose name and value do not hold the separator. -/
def CleanEntry (entry : Entry) : Prop :=
  (LineFree entry.1 ∧ LineFree entry.2) ∧ SeqFree entry.1 ∧ SeqFree entry.2

instance (entry : Entry) : Decidable (CleanEntry entry) :=
  inferInstanceAs (Decidable ((LineFree entry.1 ∧ LineFree entry.2) ∧ SeqFree entry.1 ∧
    SeqFree entry.2))

/-- `split` finds its way behind the name of a header. -/
def ShortName (entry : Entry) : Prop := entry.1.length + 2 < 2 ^ 31

instance (entry : Entry) : Decidable (ShortName entry) :=
  inferInstanceAs (Decidable (entry.1.length + 2 < 2 ^ 31))

/-- A header line without its end. -/
theorem headLine_eq (entry : Entry) (more : Bytes) :
    headLine entry ++ more = (entry.1 ++ (headSeq ++ entry.2)) ++ (crlf ++ more) := by
  simp only [headLine, List.append_assoc]

/-- A header line without its end. -/
def headerText (entry : Entry) : Bytes := entry.1 ++ (headSeq ++ entry.2)

/-- A header whose name and value are texts of one line is a text of one line. -/
theorem headerText_lineFree {entry : Entry} (texts : LineFree entry.1 ∧ LineFree entry.2) :
    LineFree (headerText entry) := by
  have seq : LineFree headSeq := by decide
  exact lineFree_append.mpr ⟨texts.1, lineFree_append.mpr ⟨seq, texts.2⟩⟩

/-- A header as it is stored: under its name, the second piece of its line. -/
def stored (entry : Entry) : Entry :=
  (entry.1, ((split (headerText entry) headSeq).getD []).getD 1 [])

/-- `split` gets through a header line, and its first piece is the name. -/
def CutBehindName (entry : Entry) : Prop :=
  ∃ value more, split (headerText entry) headSeq = some (entry.1 :: value :: more)

/-- A message with one more header. -/
def withHeader (message : Message ι σ) (entry : Entry) : Message ι σ :=
  { message with head := addHead message.head entry.1 entry.2 }

/-- The end of a line of two pieces or more adds a header. -/
theorem onLineEnd_pieces (inHead : s.status = .head) {text : Bytes} (some_ : text ≠ [])
    {key value : Bytes} {more : List Bytes}
    (pieces : split text headSeq = some (key :: value :: more)) :
    onLineEnd setting { s with cache := text } =
      ⟨{ s with tmp := withHeader s.tmp (key, value), cache := [] }, [], 1, none⟩ := by
  have different : lf ≠ cr := by decide
  simp only [onLineEnd, callParserCb, inHead, onHead, if_neg different, if_true, if_neg some_,
    pieces, withHeader]

/-- What the end of a header line leads to. -/
theorem onLineEnd_header (inHead : s.status = .head) {entry : Entry}
    (cut : CutBehindName entry) :
    onLineEnd setting { s with cache := headerText entry } =
      ⟨{ s with tmp := withHeader s.tmp (stored entry), cache := [] }, [], 1, none⟩ := by
  obtain ⟨value, more, pieces⟩ := cut
  have some_ : headerText entry ≠ [] := by simp [headerText, headSeq]
  have same : stored entry = (entry.1, value) := by rw [stored, pieces]; rfl
  rw [same]
  exact onLineEnd_pieces inHead some_ pieces

/-- What the end of a header line leads to that `split` does not get through. -/
theorem onLineEnd_header_long (inHead : s.status = .head) {entry : Entry}
    (long : split (headerText entry) headSeq = none) :
    onLineEnd setting { s with cache := headerText entry } =
      ⟨{ s with cache := headerText entry }, [], 1, some .fault⟩ := by
  have some_ : headerText entry ≠ [] := by simp [headerText, headSeq]
  have different : lf ≠ cr := by decide
  simp only [onLineEnd, callParserCb, inHead, onHead, if_neg different, if_true, if_neg some_,
    long]

/-- A clean header with a short name is stored as it is. -/
theorem CleanEntry.stored_eq {entry : Entry} (clean : CleanEntry entry) (short : ShortName entry) :
    CutBehindName entry ∧ stored entry = entry := by
  have pieces : split (headerText entry) headSeq = some [entry.1, entry.2] :=
    split_header clean.2.1 clean.2.2 short
  refine ⟨⟨entry.2, [], pieces⟩, ?_⟩
  rw [stored, pieces]
  rfl

/-- The headers of a container, read into another one. -/
def addHeads (head : σ) (entries : List Entry) : σ :=
  entries.foldl (fun head entry => addHead head entry.1 entry.2) head

/-- Headers that are read are the headers that were sent. -/
theorem addHeads_perm (head : σ) (entries : List Entry) :
    (toList (addHeads head entries)).Perm (entries ++ toList head) := by
  induction entries generalizing head with
  | nil => exact .refl _
  | cons entry entries ih =>
    have added := toList_insert head entry
    calc (toList (addHeads (addHead head entry.1 entry.2) entries)).Perm _ := ih _
      List.Perm _ (entries ++ entry :: toList head) := added.append_left entries
      List.Perm _ (entry :: (entries ++ toList head)) := List.perm_middle

/-- Headers that are read into an empty container are the headers that were sent. -/
theorem addHeads_empty_perm (entries : List Entry) :
    (toList (addHeads (empty : σ) entries)).Perm entries := by
  have added := addHeads_perm (empty : σ) entries
  rwa [toList_empty, List.append_nil] at added

/-- Headers that `split` gets through are read as they are stored. -/
theorem reads_entries {entries : List Entry} {more : Bytes} (inHead : s.status = .head)
    (empty : s.cache = []) (free : ∀ entry ∈ entries, LineFree (headerText entry))
    (cut : ∀ entry ∈ entries, CutBehindName entry)
    (rest : InputData setting
      { s with tmp := { s.tmp with head := addHeads s.tmp.head (entries.map stored) } } more o) :
    InputData setting s (entries.flatMap headLine ++ more) o := by
  induction entries generalizing s with
  | nil => exact rest
  | cons entry entries ih =>
    rw [List.flatMap_cons, List.append_assoc, headLine_eq]
    have ends := @onLineEnd_header _ _ _ setting s inHead entry (cut entry (by simp))
    have read := reads_newLine (free entry (by simp)) (.inr inHead) empty ends
      (@ih { s with tmp := withHeader s.tmp (stored entry), cache := [] }
        inHead rfl (fun other member => free other (by simp [member]))
        (fun other member => cut other (by simp [member]))
        (by simpa [addHeads, withHeader, empty] using rest))
    exact read

/-- A header that `split` does not get through ends the reading. -/
theorem reads_entries_long {entries : List Entry} (more : Bytes) (inHead : s.status = .head)
    (empty : s.cache = []) (free : ∀ entry ∈ entries, LineFree (headerText entry))
    (cut : ∀ entry ∈ entries,
      split (headerText entry) headSeq = none ∨ CutBehindName entry)
    (long : ∃ entry ∈ entries, split (headerText entry) headSeq = none) :
    ∃ last, InputData setting s (entries.flatMap headLine ++ more) ⟨last, [], some .fault⟩ := by
  induction entries generalizing s with
  | nil => simp at long
  | cons entry entries ih =>
    rw [List.flatMap_cons, List.append_assoc, headLine_eq]
    rcases cut entry (by simp) with here | goes
    · have ends := @onLineEnd_header_long _ _ _ setting s inHead entry here
      exact ⟨_, stops_newLine _ (free entry (by simp)) (.inr inHead) empty ends⟩
    · have ends := @onLineEnd_header _ _ _ setting s inHead entry goes
      have behind : ∃ entry ∈ entries, split (headerText entry) headSeq = none := by
        obtain ⟨other, member, far⟩ := long
        rcases List.mem_cons.mp member with rfl | later
        · obtain ⟨value, more, pieces⟩ := goes
          rw [pieces] at far
          cases far
        · exact ⟨other, later, far⟩
      obtain ⟨last, read⟩ := @ih
        { s with tmp := withHeader s.tmp (stored entry), cache := [] }
        inHead rfl (fun other member => free other (by simp [member]))
        (fun other member => cut other (by simp [member])) behind
      exact ⟨last, reads_newLine (free entry (by simp)) (.inr inHead) empty ends read⟩

/-- Headers with short names are read. -/
theorem reads_headers {entries : List Entry} {more : Bytes} (inHead : s.status = .head)
    (empty : s.cache = []) (clean : ∀ entry ∈ entries, CleanEntry entry)
    (short : ∀ entry ∈ entries, ShortName entry)
    (rest : InputData setting
      { s with tmp := { s.tmp with head := addHeads s.tmp.head entries } } more o) :
    InputData setting s (entries.flatMap headLine ++ more) o := by
  have same : entries.map stored = entries := by
    calc entries.map stored = entries.map id :=
          List.map_congr_left fun entry member =>
            ((clean entry member).stored_eq (short entry member)).2
      _ = entries := List.map_id entries
  exact reads_entries inHead empty (fun entry member => headerText_lineFree (clean entry member).1)
    (fun entry member => ((clean entry member).stored_eq (short entry member)).1)
    (by rw [same]; exact rest)

/-- A header whose name is too long ends the reading. -/
theorem reads_headers_long {entries : List Entry} (more : Bytes) (inHead : s.status = .head)
    (empty : s.cache = []) (clean : ∀ entry ∈ entries, CleanEntry entry)
    (long : ∃ entry ∈ entries, ¬ ShortName entry) :
    ∃ last, InputData setting s (entries.flatMap headLine ++ more) ⟨last, [], some .fault⟩ := by
  have tooLong : ∀ entry ∈ entries, ¬ ShortName entry →
      split (headerText entry) headSeq = none :=
    fun entry member far => split_header_long (clean entry member).2.1 (Nat.le_of_not_lt far)
  have free : ∀ entry ∈ entries, LineFree (headerText entry) :=
    fun entry member => headerText_lineFree (clean entry member).1
  refine reads_entries_long more inHead empty free (fun entry member => ?_) ?_
  · by_cases short : ShortName entry
    · exact .inr ((clean entry member).stored_eq short).1
    · exact .inl (tooLong entry member short)
  · obtain ⟨entry, member, far⟩ := long
    exact ⟨entry, member, tooLong entry member far⟩

/-- The empty line ends the head. -/
theorem onLineEnd_empty (inHead : s.status = .head) (empty : s.cache = []) :
    onLineEnd setting s = endOfHead setting s := by
  have different : lf ≠ cr := by decide
  simp only [onLineEnd, callParserCb, inHead, onHead, if_neg different, if_true, empty]

/-- Headers and the empty line behind them, where the reading goes on. -/
theorem reads_head {entries : List Entry} {more : Bytes} (inHead : s.status = .head)
    (empty : s.cache = []) (clean : ∀ entry ∈ entries, CleanEntry entry)
    (short : ∀ entry ∈ entries, ShortName entry) {next : ParserState ι σ}
    {events : List (Event ι σ)}
    (ends : endOfHead setting
      { s with tmp := { s.tmp with head := addHeads s.tmp.head entries } } =
        ⟨next, events, 1, none⟩)
    (rest : InputData setting next more o) :
    InputData setting s (entries.flatMap headLine ++ (crlf ++ more)) (o.after events) := by
  apply reads_headers inHead empty clean short
  exact @reads_line _ _ _ setting
    { s with tmp := { s.tmp with head := addHeads s.tmp.head entries } } o [] more
    (by simp [LineFree]) (.inr inHead) next events
    (by rw [← ends, List.append_nil]; exact onLineEnd_empty inHead empty) rest

/-! ## The start line -/

/-- The end of a start line. -/
theorem onLineEnd_startLine (starts : s.status = .startLine) :
    onLineEnd setting s = onStartLine setting s lf := by
  simp only [onLineEnd, callParserCb, starts]

/-- A start line of three words or more that sets the line. -/
theorem reads_startLine {text more : Bytes} (starts : s.status = .startLine)
    (empty : s.cache = []) (free : LineFree text) {words : List Bytes} {line : ι}
    (found : split text space = some words) (three : 3 ≤ words.length)
    (sets : setting.kind.setLine s.tmp.line words = some line)
    (rest : InputData setting { s with tmp := { s.tmp with line }, status := .head } more o) :
    InputData setting s (text ++ (crlf ++ more)) o := by
  have different : lf ≠ cr := by decide
  have enough : ¬ words.length < 3 := by omega
  have ends : onLineEnd setting { s with cache := text } =
      ⟨{ s with tmp := { s.tmp with line }, cache := [], status := .head }, [], 1, none⟩ := by
    rw [onLineEnd_startLine (by exact starts)]
    simp only [onStartLine, if_neg different, if_true, found, if_neg enough, sets]
  exact reads_newLine free (.inl starts) empty ends (by rw [← empty]; exact rest)

/-- A start line that `split` does not get through ends the reading. -/
theorem reads_startLine_long {text : Bytes} (more : Bytes) (starts : s.status = .startLine)
    (empty : s.cache = []) (free : LineFree text) (far : split text space = none) :
    ∃ last, InputData setting s (text ++ (crlf ++ more)) ⟨last, [], some .fault⟩ := by
  have different : lf ≠ cr := by decide
  have ends : onLineEnd setting { s with cache := text } =
      ⟨{ s with cache := text }, [], 1, some .fault⟩ := by
    rw [onLineEnd_startLine (by exact starts)]
    simp only [onStartLine, if_neg different, if_true, far]
  exact ⟨_, stops_newLine more free (.inl starts) empty ends⟩

/-! ## A stream of messages -/

section Stream

variable {μ : Type} {wire : μ → Bytes} {Valid Good : μ → Prop}
  {Puts : μ → List (Event ι σ) → Prop} {Arrives : μ → Event ι σ → Prop} {files : Files}
  {messages : List μ}

omit [UnorderedMultimap σ] in
/-- Where every good message hands itself over, a list of them does. -/
theorem recvs_puts (hands : ∀ message out, Puts message out →
      ∃ event, recvs out = [event] ∧ Arrives message event)
    {outs : List (List (Event ι σ))} (put : List.Forall₂ Puts messages outs) :
    List.Forall₂ Arrives messages (recvs outs.flatten) := by
  induction put with
  | nil => exact .nil
  | cons first _ ih =>
    obtain ⟨event, handed, arrives⟩ := hands _ _ first
    rw [List.flatten_cons, recvs_append, handed]
    exact .cons arrives ih

/-- Where messages are frames, chunks of a stream of them are understood exactly when all of them
are good. -/
theorem understands_iff (lawful : setting.kind.Lawful)
    (framing : Framing (callParserCb setting) (fresh setting files []) wire Valid Good Puts
      Stop.fault)
    (hands : ∀ message out, Puts message out →
      ∃ event, recvs out = [event] ∧ Arrives message event)
    (valid : ∀ message ∈ messages, Valid message) {chunks : List Bytes}
    (cut : chunks.flatten = messages.flatMap wire) :
    (∃ o, inputChunks setting (fresh setting files []) chunks = some o ∧
        List.Forall₂ Arrives messages (recvs o.out) ∧
        o.state.status = .startLine ∧ o.state.cache = []) ↔
      ∀ message ∈ messages, Good message := by
  have passive := @fresh_passive _ _ setting lawful files
  constructor
  · rintro ⟨o, found, arrive, _, _⟩
    by_contra bad
    obtain ⟨before, outs, last, fewer, put, read⟩ := framing.returns_bad valid bad
    have delivered := inputChunks_eq lawful passive (by rw [cut]; exact read)
      (by rintro _ ⟨⟩; rfl)
    rw [delivered, Option.some.injEq] at found
    subst found
    have same := List.Forall₂.length_eq arrive
    have fewerEvents := List.Forall₂.length_eq (recvs_puts hands put)
    rw [← fewerEvents] at same
    omega
  · intro good
    obtain ⟨outs, put, read⟩ := framing.returns_good valid good
    have delivered := inputChunks_eq lawful passive (by rw [cut]; exact read)
      (by simp)
    exact ⟨_, delivered, recvs_puts hands put, rfl, rfl⟩

end Stream

end Hnw.Parser
