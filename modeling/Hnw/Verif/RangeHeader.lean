import Hnw.Verif.Head
import Hnw.Verif.ServedRange
import Hnw.Verif.Split

/-!
# The range headers

`set_range` and `set_content_range` print a range into a buffer, and `get_range` and
`get_content_range` read it back number by number. A range that does not fit into the 32 bytes of
`set_range` is refused, and a header that is refused while it is read leaves what was read before.
-/

namespace Hnw.Http

open Hnw.Util Hnw.Util.UnorderedMultimap Hnw.Theory

/-- `-`. -/
def hyphen : UInt8 := 45

variable {σ : Type} [UnorderedMultimap σ]

/-! ## Reading two endpoints -/

/-- A separator that is no digit stands in no number. -/
theorem not_mem_digits {digits : Bytes} (all : ∀ byte ∈ digits, isDigit byte = true) {byte : UInt8}
    (other : isDigit byte = false) : byte ∉ digits := by
  intro inside
  rw [all byte inside] at other
  cases other

/-- Two texts around a hyphen. -/
theorem split_endpoints {first second : Bytes} (firstFree : hyphen ∉ first)
    (secondFree : hyphen ∉ second) :
    split (first ++ hyphen :: second) (ascii "-") =
      if first.length + 1 < 2 ^ 31 then some [first, second] else none :=
  split_pair firstFree secondFree

/-- A section behind `bytes=` is split at its hyphens. -/
theorem getRange_bytes {head : σ} {spec : Bytes}
    (text : getHead head httpRange [] = httpRangeByte ++ equals :: spec) (noEquals : equals ∉ spec)
    (noSemicolon : semicolon ∉ spec) (range : HttpRange) :
    getRange head range = (split spec (ascii "-")).map (readEndpoints range) := by
  have unitFree : equals ∉ httpRangeByte := by decide
  have halves : split (httpRangeByte ++ equals :: spec) (ascii "=") = some [httpRangeByte, spec] :=
    (split_pair unitFree noEquals).trans (if_pos (by decide))
  have sections : split spec (ascii ";") = some [spec] := split_byte_free noSemicolon
  have some_ : httpRangeByte ++ equals :: spec ≠ [] := by simp
  have bytes : ¬ Util.find httpRangeByte httpRangeByte 0 = none := by decide
  rw [getRange, text]
  simp only [if_neg some_, halves, sections, if_neg bytes, Option.bind_eq_bind, Option.bind_some,
    List.headD_cons]
  cases split spec (ascii "-") with
  | none => rfl
  | some texts => rfl

/-- Two numbers are read as the endpoints. -/
theorem readEndpoints_numbers (range : HttpRange) {first second : Bytes} {start stop : UInt64}
    (some_ : first ≠ []) (read : stoull first = some start) (some_' : second ≠ [])
    (read' : stoull second = some stop) :
    readEndpoints range [first, second] = some
      { range with useStartEndpoint := false, start, useEndEndpoint := false, stop } := by
  have long : ¬ first.length = 0 := mt List.length_eq_zero_iff.mp some_
  have long' : ¬ second.length = 0 := mt List.length_eq_zero_iff.mp some_'
  rw [readEndpoints]
  simp only [List.headD_cons, if_neg long, if_neg long', read, read']
  rfl

/-- A number and nothing behind the hyphen are read as a range up to the end. -/
theorem readEndpoints_open (range : HttpRange) {first : Bytes} {start : UInt64}
    (some_ : first ≠ []) (read : stoull first = some start) :
    readEndpoints range [first, []] = some
      { range with useStartEndpoint := false, start, useEndEndpoint := true } := by
  have long : ¬ first.length = 0 := mt List.length_eq_zero_iff.mp some_
  rw [readEndpoints]
  simp only [List.headD_cons, if_neg long, read, List.length_nil, if_true]
  rfl

/-! ## `set_range` and `get_range` -/

/-- What `set_range` prints behind the hyphen. -/
def stopText (range : HttpRange) : Bytes :=
  if range.useEndEndpoint then [] else decimal range.stop.toNat

/-- What `set_range` prints: the unit, the beginning of the section and its end, if it has one. -/
theorem rangeValue_eq (range : HttpRange) :
    rangeValue range = httpRangeByte ++ equals ::
      (decimal range.sectionStart.toNat ++ hyphen :: stopText range) := by
  have sign : ascii "=" = [equals] := by decide
  have dash : ascii "-" = [hyphen] := by decide
  rw [rangeValue, stopText, ← HttpRange.sectionStart, sign, dash]
  cases range.useEndEndpoint with
  | true => simp only [if_true, List.append_assoc, List.cons_append, List.nil_append]
  | false =>
    simp only [Bool.false_eq_true, if_false, List.append_assoc, List.cons_append, List.nil_append]

/-- The digits of a number are neither hyphens nor other separators. -/
theorem decimal_free (n : Nat) {byte : UInt8} (other : isDigit byte = false) :
    byte ∉ decimal n :=
  not_mem_digits (decimal_digits n) other

/-- The end is printed in digits. -/
theorem stopText_free (range : HttpRange) {byte : UInt8} (other : isDigit byte = false) :
    byte ∉ stopText range := by
  rw [stopText]
  split
  · exact List.not_mem_nil
  · exact decimal_free _ other

/-- The text of `set_range` fits just where the range has no end or its numbers have at most 24
digits. -/
theorem rangeValue_fits_iff (range : HttpRange) :
    (rangeValue range).length < 32 ↔ range.useEndEndpoint = true ∨
      (decimal range.sectionStart.toNat).length + (decimal range.stop.toNat).length ≤ 24 := by
  have unit : httpRangeByte.length = 5 := by decide
  have start := decimal_word_length range.sectionStart
  rw [rangeValue_eq, List.length_append, List.length_cons, List.length_append, List.length_cons,
    stopText, unit]
  cases range.useEndEndpoint with
  | true =>
    simp only [if_true, List.length_nil, true_or, iff_true]
    omega
  | false =>
    simp only [Bool.false_eq_true, if_false, false_or]
    omega

/-- `get_range` reads back what `set_range` printed. -/
theorem getRange_rangeValue {head : σ} {range : HttpRange}
    (text : getHead head httpRange [] = rangeValue range) (before : HttpRange) :
    ∃ found, getRange head before = some (some found) ∧
      found.sectionStart = range.sectionStart ∧ found.useEndEndpoint = range.useEndEndpoint ∧
      (range.useEndEndpoint = false → found.stop = range.stop) := by
  have start := decimal_word_length range.sectionStart
  have noHyphen := decimal_free range.sectionStart.toNat (by decide : isDigit hyphen = false)
  have noHyphen' := stopText_free range (by decide : isDigit hyphen = false)
  have specFree : ∀ byte, isDigit byte = false → byte ≠ hyphen →
      byte ∉ decimal range.sectionStart.toNat ++ hyphen :: stopText range :=
    fun byte other differs =>
      not_mem_around (decimal_free _ other) differs (stopText_free range other)
  rw [rangeValue_eq] at text
  rw [getRange_bytes text (specFree equals (by decide) (by decide))
      (specFree semicolon (by decide) (by decide)), split_endpoints noHyphen noHyphen',
    if_pos (by omega), Option.map_some]
  have number := stoull_decimal range.sectionStart
  cases ends : range.useEndEndpoint with
  | true =>
    have none_ : stopText range = [] := if_pos ends
    rw [none_, readEndpoints_open before (decimal_ne_nil _) number]
    exact ⟨_, rfl, rfl, rfl, fun other => by cases other⟩
  | false =>
    have some_ : stopText range = decimal range.stop.toNat := by
      rw [stopText, ends]
      rfl
    rw [some_, readEndpoints_numbers before (decimal_ne_nil _) number (decimal_ne_nil _)
      (stoull_decimal range.stop)]
    exact ⟨_, rfl, rfl, rfl, fun _ => rfl⟩

/-- `set_range` returns true and leaves one header, from which `get_range` reads the range back,
whatever the range was before. -/
def RangeRoundTrips (head : σ) (range : HttpRange) : Prop :=
  (setRange head range).2 = true ∧ getHeadCount (setRange head range).1 httpRange = 1 ∧
    ∀ before, ∃ found, getRange (setRange head range).1 before = some (some found) ∧
      found.sectionStart = range.sectionStart ∧ found.useEndEndpoint = range.useEndEndpoint ∧
      (range.useEndEndpoint = false → found.stop = range.stop)

/-- A range comes back just where its text fits into the buffer: where it has no end, or its
numbers have at most 24 digits. -/
theorem rangeRoundTrips_iff (head : σ) (range : HttpRange) :
    RangeRoundTrips head range ↔ range.useEndEndpoint = true ∨
      (decimal range.sectionStart.toNat).length + (decimal range.stop.toNat).length ≤ 24 := by
  rw [← rangeValue_fits_iff]
  constructor
  · intro returned
    by_contra long
    have refused : setRange head range = (head, false) := if_pos (Nat.le_of_not_lt long)
    have true_ := returned.1
    rw [refused] at true_
    cases true_
  · intro fits
    have written : setRange head range =
        (addHead (delHead head httpRange) httpRange (rangeValue range), true) :=
      if_neg (Nat.not_le_of_lt fits)
    rw [RangeRoundTrips, written]
    refine ⟨rfl, ?_, fun before => getRange_rangeValue (getHead_replace head _ _ _) before⟩
    rw [getHeadCount_eq, addHead_delHead_filter]
    rfl

/-- A range of two large offsets is refused. -/
theorem largeOffsets_not_rangeRoundTrips :
    ¬ RangeRoundTrips (UnorderedMultimap.empty : ListMultimap)
      { useStartEndpoint := false
        useEndEndpoint := false
        start := 1000000000000
        stop := 1099999999999 } := by
  rintro ⟨returned, _⟩
  have long : 32 ≤ (rangeValue
      { useStartEndpoint := false
        useEndEndpoint := false
        start := 1000000000000
        stop := 1099999999999 }).length := by
    rw [← Nat.not_lt, rangeValue_fits_iff]
    decide
  rw [setRange] at returned
  simp only [if_pos long] at returned
  cases returned

/-! ## `set_content_range` and `get_content_range` -/

/-- The section as `set_content_range` prints it. -/
def endsText (range : HttpRange) : Bytes :=
  decimal range.sectionStart.toNat ++ hyphen :: decimal range.sectionEnd.toNat

/-- What `set_content_range` prints behind the unit. -/
def spanText (range : HttpRange) : Bytes :=
  endsText range ++ slash :: decimal range.total.toNat

/-- What `set_content_range` prints: the unit, the section and the size of the whole. -/
theorem contentRangeValue_parts (range : HttpRange) :
    contentRangeValue range = httpRangeByte ++ blank :: spanText range := by
  have dash : ascii "-" = [hyphen] := by decide
  have whole : ascii "/" = [slash] := by decide
  simp only [contentRangeValue, spanText, endsText, space, dash, whole, List.append_assoc,
    List.cons_append, List.nil_append]

/-- A section is digits and a hyphen. -/
theorem endsText_free (range : HttpRange) {byte : UInt8} (other : isDigit byte = false)
    (differs : byte ≠ hyphen) : byte ∉ endsText range :=
  not_mem_around (decimal_free _ other) differs (decimal_free _ other)

/-- The text of a range is cut at its separators into its numbers. -/
theorem split_contentRange (range : HttpRange) :
    split (contentRangeValue range) space = some [httpRangeByte, spanText range] ∧
      split (spanText range) (ascii "/") = some [endsText range, decimal range.total.toNat] ∧
      split (endsText range) (ascii "-") =
        some [decimal range.sectionStart.toNat, decimal range.sectionEnd.toNat] := by
  have start := decimal_word_length range.sectionStart
  have stop := decimal_word_length range.sectionEnd
  have size : (endsText range).length ≤ 41 := by
    rw [endsText, List.length_append, List.length_cons]
    omega
  refine ⟨?_, ?_, ?_⟩
  · have unitFree : blank ∉ httpRangeByte := by decide
    have spanFree : blank ∉ spanText range :=
      not_mem_around (endsText_free range (by decide) (by decide)) (by decide)
        (decimal_free _ (by decide))
    rw [contentRangeValue_parts]
    exact (split_pair unitFree spanFree).trans (if_pos (by decide))
  · have endsFree : slash ∉ endsText range := endsText_free range (by decide) (by decide)
    have totalFree : slash ∉ decimal range.total.toNat := decimal_free _ (by decide)
    exact (split_pair endsFree totalFree).trans (if_pos (by omega))
  · have startFree : hyphen ∉ decimal range.sectionStart.toNat := decimal_free _ (by decide)
    have stopFree : hyphen ∉ decimal range.sectionEnd.toNat := decimal_free _ (by decide)
    exact (split_endpoints startFree stopFree).trans (if_pos (by omega))

/-- `get_content_range` reads back what `set_content_range` printed. -/
theorem getContentRange_value {head : σ} {range : HttpRange}
    (text : getHead head httpContentRange [] = contentRangeValue range) (before : HttpRange) :
    getContentRange head before = some (some
      { useStartEndpoint := false
        useEndEndpoint := false
        start := range.sectionStart
        stop := range.sectionEnd
        total := range.total }) := by
  obtain ⟨halves, parts, ends⟩ := split_contentRange range
  have read := readEndpoints_numbers before (decimal_ne_nil _) (stoull_decimal range.sectionStart)
    (decimal_ne_nil _) (stoull_decimal range.sectionEnd)
  have some_ : contentRangeValue range ≠ [] := by
    rw [contentRangeValue_parts]
    simp
  have bytes : ¬ Util.find httpRangeByte httpRangeByte 0 = none := by decide
  rw [getContentRange, text]
  simp only [if_neg some_, halves, if_neg bytes, parts, ends, read, stoull_decimal range.total,
    Option.bind_eq_bind, Option.bind_some]
  rfl

/-- `set_content_range` returns true and replaces the `Content-Range` headers by one, from which
`get_content_range` reads the section and the size back, whatever the range was before; every other
header stays. -/
theorem contentRange_round_trip (head : σ) (range : HttpRange) :
    setContentRangeReturns range = true ∧
      getHeadCount (setContentRange head range) httpContentRange = 1 ∧
      ((toList (setContentRange head range)).filter (·.1 ≠ httpContentRange)).Perm
        ((toList head).filter (·.1 ≠ httpContentRange)) ∧
      ∀ before, ∃ found, getContentRange (setContentRange head range) before = some (some found) ∧
        found.sectionStart = range.sectionStart ∧ found.sectionEnd = range.sectionEnd ∧
        found.total = range.total := by
  refine ⟨decide_eq_true (contentRangeValue_length range), ?_, ?_, fun before => ?_⟩
  · rw [getHeadCount_eq, setContentRange_eq, addHead_delHead_filter]
    rfl
  · rw [setContentRange_eq]
    have added := (toList_insert (delHead head httpContentRange)
      (httpContentRange, contentRangeValue range)).filter (·.1 ≠ httpContentRange)
    rw [List.filter_cons_of_neg (by simp), delHead, toList_erase, List.filter_filter] at added
    simp only [Bool.and_self] at added
    exact added
  · have text : getHead (setContentRange head range) httpContentRange [] =
        contentRangeValue range := by
      rw [setContentRange_eq]
      exact getHead_replace head _ _ _
    exact ⟨_, getContentRange_value text before, rfl, rfl, rfl⟩

end Hnw.Http
