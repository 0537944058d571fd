import Hnw.Verif.Responses
import Hnw.Verif.Split

/-!
# The status line

A status line is cut at every blank, and the third piece is kept as the reason. So a reason comes
back up to its first blank; most of the standard reasons have one.
-/

namespace Hnw.Parser

open Hnw.Http Hnw.Util Hnw.Util.UnorderedMultimap Hnw.Theory

/-- A call that sets a part of a response line. -/
inductive LineCall where
  /-- `version(m)`. -/
  | version (m : Bytes)
  /-- `status_code(m)`. -/
  | statusCode (m : Bytes)
  /-- `reason(m)`. -/
  | reason (m : Bytes)
deriving DecidableEq

namespace LineCall

/-- A call on a line. -/
def apply (line : ResponseLine) : LineCall → ResponseLine
  | .version m => line.setVersion m
  | .statusCode m => line.setStatusCode m
  | .reason m => line.setReason m

/-- The line that calls leave of a new one. -/
def run (calls : List LineCall) : ResponseLine := calls.foldl apply {}

end LineCall

/-- A line of which version and code are words, and the reason is a text of one line. -/
structure LineTexts (line : ResponseLine) : Prop where
  /-- The version is a word. -/
  version : Word line.version
  /-- The status code is a word. -/
  statusCode : Word line.statusCode
  /-- The reason is a text of one line. -/
  reason : LineFree line.reason

variable {τ : Type} [UnorderedMultimap τ] {surroundings : Surroundings} {holds : Bool}
  {line : ResponseLine}

/-- A new response parser that is fed the line, cut in any way, has it as its own: the version,
the status code and the whole reason. -/
def LineRoundTrips (setting : Setting ResponseLine τ) (files : Files) (line : ResponseLine) :
    Prop :=
  ∀ chunks : List Bytes, chunks.flatten = line.string ++ crlf →
    ∃ o, inputChunks setting (fresh setting files []) chunks = some o ∧ o.stop = none ∧
      o.state.status = .head ∧ o.state.tmp.line = line

/-- The pieces of a status line. -/
theorem split_statusLine (texts : LineTexts line) :
    split line.string space =
      if BytesNear blank line.string then
        some (line.version :: line.statusCode :: line.reason.splitOn blank) else none := by
  have cut := split_byte line.string blank
  rwa [statusLine_eq, List.splitOn_append_cons_self_of_not_mem texts.version.1,
    List.splitOn_append_cons_self_of_not_mem texts.statusCode.1, ← statusLine_eq] at cut

/-- A status line is a text of one line. -/
theorem LineTexts.lineFree (texts : LineTexts line) : LineFree line.string :=
  statusLine_lineFree texts.version texts.statusCode texts.reason

/-- Where its blanks are near, a status line is read up to the first blank of its reason. -/
theorem reads_statusLine (texts : LineTexts line) (near : BytesNear blank line.string)
    (files : Files) {chunks : List Bytes} (cut : chunks.flatten = line.string ++ crlf) :
    inputChunks ⟨@httpResponseParser τ _, surroundings, holds⟩
      (fresh ⟨httpResponseParser, surroundings, holds⟩ files []) chunks =
        some ⟨behindLine surroundings holds files
          { line with reason := (cutFirst blank line.reason).1 }, [], none⟩ := by
  have pieces := split_statusLine texts
  rw [if_pos near, head_splitOn blank line.reason] at pieces
  have read := @reads_startLine _ τ _ ⟨httpResponseParser, surroundings, holds⟩
    (fresh ⟨httpResponseParser, surroundings, holds⟩ files []) _ line.string [] rfl rfl
    texts.lineFree _ { line with reason := (cutFirst blank line.reason).1 } pieces (by simp) rfl
    returns_nil
  rw [List.append_nil, ← cut] at read
  exact inputChunks_eq httpResponseParser_lawful (fresh_passive httpResponseParser_lawful files)
    read nofun

/-- Where a blank is too far, the status line ends the reading. -/
theorem stops_statusLine (texts : LineTexts line) (far : ¬ BytesNear blank line.string)
    (files : Files) : ∃ last,
      inputChunks ⟨@httpResponseParser τ _, surroundings, holds⟩
        (fresh ⟨httpResponseParser, surroundings, holds⟩ files []) [line.string ++ crlf] =
          some ⟨last, [], some .fault⟩ := by
  have pieces := split_statusLine texts
  rw [if_neg far] at pieces
  obtain ⟨last, read⟩ := @reads_startLine_long _ τ _ ⟨httpResponseParser, surroundings, holds⟩
    (fresh ⟨httpResponseParser, surroundings, holds⟩ files []) line.string [] rfl rfl
    texts.lineFree pieces
  rw [List.append_nil] at read
  refine ⟨last, inputChunks_eq httpResponseParser_lawful
    (fresh_passive httpResponseParser_lawful files) ?_ ?_⟩
  · rw [List.flatten_singleton]
    exact read
  · rintro _ ⟨⟩
    rfl

/-- What makes the round trip has no blank in its reason, and its blanks are near. -/
theorem LineRoundTrips.plain (texts : LineTexts line) {files : Files}
    (trips : LineRoundTrips ⟨@httpResponseParser τ _, surroundings, holds⟩ files line) :
    blank ∉ line.reason ∧ BytesNear blank line.string := by
  obtain ⟨o, found, goes, _, same⟩ := trips [line.string ++ crlf] (by simp)
  have near : BytesNear blank line.string := by
    by_contra far
    obtain ⟨last, stops⟩ := @stops_statusLine τ _ surroundings holds line texts far files
    rw [stops, Option.some.injEq] at found
    rw [← found] at goes
    cases goes
  have read := @reads_statusLine τ _ surroundings holds line texts near files
    [line.string ++ crlf] (by simp)
  rw [read, Option.some.injEq] at found
  rw [← found] at same
  have reason : (cutFirst blank line.reason).1 = line.reason := congrArg ResponseLine.reason same
  exact ⟨reason ▸ not_mem_cutFirst, near⟩

/-- The line that calls leave makes the round trip exactly where its reason has no blank, and
version and code are short enough for `split`. -/
theorem lineRoundTrips_iff (surroundings : Surroundings) (holds : Bool) (files : Files)
    {calls : List LineCall} (texts : LineTexts (LineCall.run calls)) :
    LineRoundTrips ⟨@httpResponseParser τ _, surroundings, holds⟩ files (LineCall.run calls) ↔
      blank ∉ (LineCall.run calls).reason ∧
        (LineCall.run calls).version.length + (LineCall.run calls).statusCode.length + 2 <
          2 ^ 31 := by
  generalize LineCall.run calls = line at texts ⊢
  have text := statusLine_eq line
  constructor
  · intro trips
    obtain ⟨plain, near⟩ := trips.plain texts
    rw [text] at near
    exact ⟨plain, BytesNear.words near⟩
  · rintro ⟨plain, short⟩ chunks cut
    have near : BytesNear blank line.string := by
      have whole : line.string =
          (line.version ++ blank :: line.statusCode) ++ blank :: line.reason := by
        rw [text, List.append_assoc]
        rfl
      rw [whole, bytesNear_last plain, bytesNear_pair texts.version.1 texts.statusCode.1,
        List.length_append, List.length_cons]
      omega
    have read := @reads_statusLine τ _ surroundings holds line texts near files chunks cut
    refine ⟨_, read, rfl, rfl, ?_⟩
    show { line with reason := (cutFirst blank line.reason).1 } = line
    rw [cutFirst_free plain]

/-- The line of a new response comes back. -/
theorem lineRoundTrips_ok :
    LineRoundTrips ⟨@httpResponseParser ListMultimap _, ⟨linux, fun _ => []⟩, false⟩
      ⟨fun _ => none, 0⟩ (LineCall.run [.statusCode (ascii "200")]) :=
  (lineRoundTrips_iff _ _ _ ⟨by decide, by decide, by decide⟩).mpr (by decide)

/-- Of the reason of 404 the first word comes back. -/
theorem reason_cut_short :
    ¬ ∀ calls : List LineCall, LineTexts (LineCall.run calls) →
      LineRoundTrips ⟨@httpResponseParser ListMultimap _, ⟨linux, fun _ => []⟩, false⟩
        ⟨fun _ => none, 0⟩ (LineCall.run calls) := by
  intro always
  have texts : LineTexts (LineCall.run [.statusCode (ascii "404")]) :=
    ⟨by decide, by decide, by decide⟩
  have plain := ((always _ texts).plain texts).1
  exact absurd plain (by decide)

end Hnw.Parser
