import Hnw.Verif.Termination

/-!
# What an error leaves behind

The state handlers return their error codes from where they are: the line that was read, the
message that was begun and the state stay. Only an empty line in the place of a start line is
rejected in the state that `reset` makes.
-/

namespace Hnw.Parser

open Hnw.Http Hnw.Util Hnw.Theory

variable {ι σ : Type}

/-- A start line with something in it, of too few words. -/
def RejectsLine (s : ParserState ι σ) : Prop :=
  s.status = .startLine ∧ s.cache ≠ [] ∧
    ∃ words, split s.cache space = some words ∧ words.length < 3

/-- A header without a value. -/
def RejectsHeader (s : ParserState ι σ) : Prop :=
  s.status = .head ∧ s.cache ≠ [] ∧
    ∃ parts, split s.cache headSeq = some parts ∧ parts.length < 2

/-- The end of a head after which there is no body. -/
def RejectsBody (setting : Setting ι σ) (s : ParserState ι σ) : Prop :=
  s.status = .head ∧ s.cache = [] ∧ ∃ handled, headEvent setting s = some handled ∧
    (createBody setting handled = none ∨ ∃ ready, createBody setting handled = some ready ∧
      ready.tmp.body = none ∧ setting.kind.nullBody ≠ .fault)

/-- The end of a line that is rejected with something read of the message. -/
def LeavesResidue (setting : Setting ι σ) (s : ParserState ι σ) (unread : Bytes) : Prop :=
  unread.head? = some lf ∧ (RejectsLine s ∨ RejectsHeader s ∨ RejectsBody setting s)

/-- Where a start line is read the message is new. -/
def StartsFresh (setting : Setting ι σ) (s : ParserState ι σ) : Prop :=
  s.status = .startLine → s.tmp = setting.kind.generate

/-- In whatever state a parser is and whatever chunk it is given: where `input_data` returns an
error code, the parser is as `reset` leaves it or the application closed the connection in one of
the events, if and only if no line was rejected with something read or it did so. -/
def ResidueIff [UnorderedMultimap σ] (setting : Setting ι σ) : Prop :=
  ∀ actions s, Fed setting actions s → ∀ (chunk : Bytes) o code, InputData setting s chunk o →
    o.stop = some (.code code) → ∀ closes : Event ι σ → Prop,
      ((o.state = fresh setting o.state.files o.state.actions ∨ ∃ event ∈ o.out, closes event) ↔
        (∀ later rest, Visits (callParserCb setting) s chunk later rest →
          ¬ LeavesResidue setting later rest) ∨ ∃ event ∈ o.out, closes event)

variable {setting : Setting ι σ} {s : ParserState ι σ}

/-- A body is made in the state the parser is in. -/
theorem createBody_status {ready : ParserState ι σ} (made : createBody setting s = some ready) :
    ready.status = s.status := by
  rcases createBody_cases made with ⟨rfl, _⟩ | ⟨_, _, _, rfl⟩ <;> rfl

/-- The end of a head leads to a new message or to another state. -/
theorem endOfHead_startsFresh (inHead : s.status = .head) :
    StartsFresh setting (endOfHead setting s).state := by
  have elsewhere : ∀ {later : ParserState ι σ}, later.status = .head → StartsFresh setting later :=
    fun status starts => by rw [status] at starts; cases starts
  unfold endOfHead
  simp only
  split
  · exact elsewhere inHead
  · next handled event =>
    have handledHere := (headEvent_cases event).1.trans inHead
    split
    · exact elsewhere handledHere
    · next ready made =>
      have readyHere := (createBody_status made).trans handledHere
      unfold enterBody
      split
      · split <;> exact elsewhere readyHere
      · split
        · exact fun _ => rfl
        · exact nofun

/-- A start line leads to a new message or to the head. -/
theorem onStartLine_startsFresh (starts : StartsFresh setting s) (ch : UInt8) :
    StartsFresh setting (onStartLine setting s ch).state := by
  rcases onStartLine_cases setting s ch with ⟨_, call, _⟩ | call | ⟨_, call⟩
  · rw [call]
    exact starts
  · rw [call]
    exact starts
  · rw [call]
    exact nofun

/-- A body leads to a new message or stays. -/
theorem onBody_startsFresh (inBody : s.status = .body) (data : Bytes) :
    StartsFresh setting (onBody setting s data).state := by
  have elsewhere : ∀ {later : ParserState ι σ}, later.status = .body → StartsFresh setting later :=
    fun status starts => by rw [status] at starts; cases starts
  unfold onBody
  split
  · exact elsewhere inBody
  · simp only
    split
    · exact fun _ => rfl
    · exact elsewhere inBody

/-- A state that is not before a start line is no new one. -/
theorem ne_fresh (inHead : s.status = .head) (files : Files) (actions : List HeadAction) :
    s ≠ fresh setting files actions := by
  rintro rfl
  cases inHead

/-- A head that is rejected without a body ends in an error code. -/
theorem RejectsBody.fails (rejects : RejectsBody setting s) :
    ∃ code later, (endOfHead setting s).stop = some (.code code) ∧
      (endOfHead setting s).state = later ∧ later.status = .head := by
  obtain ⟨inHead, _, handled, event, fails⟩ := rejects
  have handledHere := (headEvent_cases event).1.trans inHead
  rcases fails with none | ⟨ready, made, missing, code⟩
  · refine ⟨.structMessageFail, handled, ?_, ?_, handledHere⟩ <;>
      simp only [endOfHead, event, none, bodyFails]
  · refine ⟨.structMessageFail, ready, ?_, ?_, (createBody_status made).trans handledHere⟩ <;>
      simp only [endOfHead, event, made, enterBody, missing]
    · cases null : setting.kind.nullBody with
      | fault => exact absurd null code
      | code other => rfl
    · cases null : setting.kind.nullBody with
      | fault => exact absurd null code
      | code other => rfl

/-- `on_start_line` fails at the end of a line, and keeps it. -/
theorem onStartLine_fails {ch : UInt8} {code : ErrCode}
    (stop : (onStartLine setting s ch).stop = some (.code code)) :
    ch = lf ∧ (∃ words, split s.cache space = some words ∧ words.length < 3) ∧
      (onStartLine setting s ch).state = s := by
  rcases onStartLine_cases setting s ch with ⟨_, call, fails⟩ | call | ⟨_, call⟩
  · rw [call] at stop ⊢
    obtain ⟨ends, few⟩ := fails code stop
    exact ⟨ends, few, rfl⟩
  · rw [call] at stop
    cases stop
  · rw [call] at stop
    cases stop

/-- The end of a head fails where there is no body. -/
theorem endOfHead_fails {code : ErrCode}
    (stop : (endOfHead setting s).stop = some (.code code)) :
    ∃ handled, headEvent setting s = some handled ∧
      (createBody setting handled = none ∨ ∃ ready, createBody setting handled = some ready ∧
        ready.tmp.body = none ∧ setting.kind.nullBody ≠ .fault) := by
  unfold endOfHead at stop
  simp only at stop
  split at stop
  · cases stop
  · next handled event =>
    refine ⟨handled, event, ?_⟩
    split at stop
    · next none => exact .inl none
    · next ready made =>
      refine .inr ⟨ready, made, ?_⟩
      unfold enterBody at stop
      split at stop
      · next missing =>
        refine ⟨missing, fun fault => ?_⟩
        rw [fault] at stop
        cases stop
      · split at stop <;> cases stop

variable [UnorderedMultimap σ]

/-- A head leads to a new message or to another state. -/
theorem onHead_startsFresh (inHead : s.status = .head) (ch : UInt8) :
    StartsFresh setting (onHead setting s ch).state := by
  have elsewhere : ∀ {later : ParserState ι σ}, later.status = .head → StartsFresh setting later :=
    fun status starts => by rw [status] at starts; cases starts
  rcases onHead_cases setting s ch with ⟨_, _, call⟩ | ⟨_, call, _⟩ | call | ⟨_, call⟩
  · rw [call]
    exact endOfHead_startsFresh inHead
  · rw [call]
    exact elsewhere inHead
  · rw [call]
    exact elsewhere inHead
  · rw [call]
    exact nofun

/-- A call leads to a new message or to another state than a start line. -/
theorem callParserCb_startsFresh (underway : Underway s) (starts : StartsFresh setting s)
    (data : Bytes) : StartsFresh setting (callParserCb setting s data).state := by
  cases data with
  | nil => exact starts
  | cons ch rest =>
    rcases underway.listed with status | status | status <;> simp only [callParserCb, status]
    · exact onStartLine_startsFresh starts ch
    · exact onHead_startsFresh status ch
    · exact onBody_startsFresh status (ch :: rest)

/-- A call keeps a parser under way that begins its messages anew. -/
theorem callParserCb_begins (installs : setting.kind.Installs) (s : ParserState ι σ)
    (data : Bytes) (inv : Underway s ∧ StartsFresh setting s) (unread : data ≠ []) :
    Underway (callParserCb setting s data).state ∧
      StartsFresh setting (callParserCb setting s data).state :=
  ⟨(callParserCb_underway installs inv.1 unread).1, callParserCb_startsFresh inv.1 inv.2 data⟩

/-- A parser that was fed bytes begins its messages anew. -/
theorem Fed.startsFresh (installs : setting.kind.Installs) {actions : List HeadAction}
    (fed : Fed setting actions s) : Underway s ∧ StartsFresh setting s := by
  induction fed with
  | fresh files => exact ⟨.begin installs.toLawful rfl rfl, fun _ => rfl⟩
  | input _ read _ ih => exact read.invariant (callParserCb_begins installs) ih

/-! ## The calls that fail -/

/-- A call that rejects something read of a message fails, and does not begin a new message. -/
theorem LeavesResidue.fails {unread : Bytes} (leaves : LeavesResidue setting s unread) :
    (callParserCb setting s unread).stop ≠ none ∧
      ∀ files actions, (callParserCb setting s unread).state ≠ fresh setting files actions := by
  obtain ⟨ends, rejected⟩ := leaves
  cases unread with
  | nil => cases ends
  | cons ch rest =>
    rw [List.head?_cons, Option.some.injEq] at ends
    subst ends
    have other : lf ≠ cr := by decide
    rcases rejected with ⟨status, something, words, found, few⟩ |
      ⟨status, something, parts, found, few⟩ | rejects
    · have call : callParserCb setting s (lf :: rest) =
          ⟨s, [], 1, some (.code .badStartLine)⟩ := by
        simp only [callParserCb, status, onStartLine, other, if_false, if_true, found, few]
      rw [call]
      refine ⟨Option.some_ne_none _, fun files actions same => something ?_⟩
      rw [show s = fresh setting files actions from same]
      rfl
    · have call : callParserCb setting s (lf :: rest) =
          ⟨s, [], 1, some (.code .badHeadKey)⟩ := by
        simp only [callParserCb, status, onHead, other, if_false, if_true, something, found]
        cases parts with
        | nil => rfl
        | cons first rest =>
          cases rest with
          | nil => rfl
          | cons second rest => exact absurd few (by simp)
      rw [call]
      exact ⟨Option.some_ne_none _, ne_fresh status⟩
    · have call : callParserCb setting s (lf :: rest) = endOfHead setting s := by
        simp only [callParserCb, rejects.1, onHead, other, if_false, if_true, rejects.2.1]
      obtain ⟨code, later, stop, same, inHead⟩ := rejects.fails
      rw [call, stop, same]
      exact ⟨Option.some_ne_none _, ne_fresh inHead⟩

/-- `on_head` fails at the end of a line. -/
theorem onHead_fails (inHead : s.status = .head) {ch : UInt8} {code : ErrCode}
    (stop : (onHead setting s ch).stop = some (.code code)) :
    ch = lf ∧ (RejectsHeader s ∨ RejectsBody setting s) := by
  rcases onHead_cases setting s ch with
    ⟨ends, nothing, call⟩ | ⟨_, call, fails⟩ | call | ⟨_, call⟩
  · rw [call] at stop
    exact ⟨ends, .inr ⟨inHead, nothing, endOfHead_fails stop⟩⟩
  · rw [call] at stop
    obtain ⟨ends, something, few⟩ := fails code stop
    exact ⟨ends, .inl ⟨inHead, something, few⟩⟩
  · rw [call] at stop
    cases stop
  · rw [call] at stop
    cases stop

/-- A call that fails rejects something read of a message, or it rejects an empty line in the
place of a start line and changes nothing. -/
theorem callParserCb_fails (underway : Underway s) {unread : Bytes} {code : ErrCode}
    (stop : (callParserCb setting s unread).stop = some (.code code)) :
    LeavesResidue setting s unread ∨ s.status = .startLine ∧ s.cache = [] ∧
      (callParserCb setting s unread).state = s := by
  cases unread with
  | nil => cases stop
  | cons ch rest =>
    rcases underway.listed with status | status | status <;>
      simp only [callParserCb, status] at stop ⊢
    · obtain ⟨rfl, few, same⟩ := onStartLine_fails stop
      by_cases nothing : s.cache = []
      · exact .inr ⟨trivial, nothing, same⟩
      · exact .inl ⟨rfl, .inl ⟨status, nothing, few⟩⟩
    · obtain ⟨rfl, rejects⟩ := onHead_fails status stop
      exact .inl ⟨rfl, .inr rejects⟩
    · unfold onBody at stop
      split at stop
      · cases stop
      · simp only at stop
        split at stop <;> cases stop

/-! ## The readings that fail -/

/-- A parser that installs nothing but what it makes leaves no residue exactly where it rejects
nothing that it read. -/
theorem residueIff_of_installs (installs : setting.kind.Installs) : ResidueIff setting := by
  intro actions s fed chunk o code read stop closes
  obtain ⟨later, rest, visit, fails, same, only⟩ := read.stopped stop
  have inv : Underway later ∧ StartsFresh setting later :=
    visit.invariant _ (callParserCb_begins installs) (fed.startsFresh installs)
  refine or_congr_left' fun _ => ?_
  constructor
  · intro new other unread met leaves
    have failed := leaves.fails
    rcases only other unread met with goes | ⟨rfl, rfl⟩
    · exact failed.1 goes
    · exact failed.2 _ _ (same ▸ new)
  · intro clean
    rcases callParserCb_fails inv.1 fails with leaves | ⟨status, nothing, kept⟩
    · exact absurd leaves (clean later rest visit)
    · rw [same, kept]
      have begun := inv.2 status
      cases later
      simp only at status nothing begun
      subst status nothing begun
      rfl

/-- Both parsers leave no residue exactly where they reject nothing that they read. -/
theorem parsers_residueIff (surroundings : Surroundings) (holds : Bool) :
    ResidueIff (⟨httpRequestParser, surroundings, holds⟩ : Setting RequestLine σ) ∧
      ResidueIff (⟨httpResponseParser, surroundings, holds⟩ : Setting ResponseLine σ) :=
  ⟨residueIff_of_installs httpRequestParser_installs,
    residueIff_of_installs httpResponseParser_installs⟩

/-- A request parser under Linux. -/
def requestSetting : Setting RequestLine ListMultimap :=
  ⟨httpRequestParser, ⟨linux, fun _ => []⟩, false⟩

/-- What `input_data` does with a start line of two words. -/
def shortLine :
    Option (Outcome (ParserState RequestLine ListMultimap) (Event RequestLine ListMultimap)
      Stop) :=
  feed (callParserCb requestSetting) 10 (fresh requestSetting ⟨fun _ => none, 0⟩ [])
    (ascii "GET /" ++ crlf)

/-- A request line of two words returns an error code without an event, and stays in the cache. -/
theorem shortLine_eq :
    shortLine.map (fun o => (o.stop, o.out.length, o.state.cache)) =
      some (some (.code .badStartLine), 0, ascii "GET /") := by
  decide +kernel

/-- The line of a rejected request is the beginning of the next one. -/
theorem shortLine_residue :
    ¬ ∀ actions s, Fed requestSetting actions s → ∀ (chunk : Bytes) o code,
      InputData requestSetting s chunk o → o.stop = some (.code code) →
        ∀ closes : Event RequestLine ListMultimap → Prop,
          o.state = fresh requestSetting o.state.files o.state.actions ∨
            ∃ event ∈ o.out, closes event := by
  intro always
  obtain ⟨o, found, here⟩ := Option.map_eq_some_iff.mp shortLine_eq
  rw [Prod.mk.injEq, Prod.mk.injEq] at here
  have none : o.out = [] := List.length_eq_zero_iff.mp here.2.1
  rcases always _ _ (.fresh _) _ o _ ⟨10, found⟩ here.1 fun _ => True with same | ⟨event, raised, _⟩
  · have cache := here.2.2
    rw [same] at cache
    have nothing : [] = ascii "GET /" := cache
    exact absurd nothing (by decide)
  · rw [none] at raised
    cases raised

end Hnw.Parser
