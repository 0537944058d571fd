import Hnw.Verif.ResponseText

/-!
# Header names in another case

Two streams of responses that differ in the case of header names only. The container finds a
header under its very name, so a length in another case is not found: its response is handed over
without a body, and the body is read as what follows it.
-/

namespace Hnw.Util

variable {byte : UInt8} {text other : Bytes}

/-- A byte that is no letter is left alone, and nothing else becomes it. -/
theorem tolower_eq (noUpper : byte < 65 ∨ 90 < byte) (noLower : byte < 97 ∨ 122 < byte)
    (letter : UInt8) : tolower letter = byte ↔ letter = byte := by
  rw [tolower]
  split
  · next upper =>
    simp only [UInt8.lt_iff_toNat_lt, UInt8.le_iff_toNat_le, ← UInt8.toNat_inj, UInt8.toNat_add,
      UInt8.toNat_ofNat] at *
    omega
  · exact Iff.rfl

/-- A byte that is no letter stands in a text whatever the case of its letters. -/
theorem mem_toLower (noUpper : byte < 65 ∨ 90 < byte) (noLower : byte < 97 ∨ 122 < byte) :
    byte ∈ toLower text ↔ byte ∈ text := by
  rw [toLower, List.mem_map]
  constructor
  · rintro ⟨letter, member, same⟩
    rwa [← (tolower_eq noUpper noLower letter).mp same]
  · exact fun member => ⟨byte, member, (tolower_eq noUpper noLower byte).mpr rfl⟩

/-- Texts that differ in the case of letters have the same bytes that are no letters. -/
theorem mem_of_toLower (same : toLower text = toLower other) (noUpper : byte < 65 ∨ 90 < byte)
    (noLower : byte < 97 ∨ 122 < byte) : byte ∈ text ↔ byte ∈ other := by
  rw [← mem_toLower noUpper noLower, same, mem_toLower noUpper noLower]

/-- Texts that differ in the case of letters have one size. -/
theorem length_of_toLower (same : toLower text = toLower other) : text.length = other.length := by
  have lengths := congrArg List.length same
  rwa [toLower, toLower, List.length_map, List.length_map] at lengths

/-- Lower case stays lower case. -/
theorem toLower_toLower (text : Bytes) : toLower (toLower text) = toLower text := by
  rw [toLower, toLower, List.map_map]
  apply List.map_congr_left
  intro letter _
  simp only [Function.comp, tolower]
  split
  · next upper =>
    rw [if_neg]
    simp only [UInt8.le_iff_toNat_le, UInt8.toNat_add, UInt8.toNat_ofNat] at *
    omega
  · rfl

end Hnw.Util

namespace Hnw.Parser

open Hnw.Http Hnw.Util Hnw.Util.UnorderedMultimap Hnw.Theory

/-- A header under a name that differs at most in the case of its letters. -/
def RenamedEntry (entry other : Entry) : Prop :=
  toLower entry.1 = toLower other.1 ∧ entry.2 = other.2

/-- A head with header names that differ at most in the case of their letters. -/
structure RenamedHead (head other : ResponseHead) : Prop where
  /-- The status line is the same, -/
  line : head.line = other.line
  /-- and so are the headers up to the case of their names. -/
  entries : List.Forall₂ RenamedEntry head.entries other.entries

/-- Renamed headers take as many bytes. -/
theorem length_headLines {entries others : List Entry}
    (renamed : List.Forall₂ RenamedEntry entries others) :
    (entries.flatMap headLine).length = (others.flatMap headLine).length := by
  induction renamed with
  | nil => rfl
  | cons same _ ih =>
    simp only [List.flatMap_cons, List.length_append, headLine, length_of_toLower same.1,
      same.2, ih]

namespace RenamedHead

variable {head other : ResponseHead} {size : Nat} (renamed : RenamedHead head other)
include renamed

/-- Renaming goes both ways. -/
theorem symm : RenamedHead other head where
  line := renamed.line.symm
  entries := (renamed.entries.imp fun _ _ same => And.intro same.1.symm same.2.symm).flip

/-- Every header has one that it was renamed from. -/
theorem origin {entry : Entry} (member : entry ∈ other.entries) :
    ∃ sent ∈ head.entries, RenamedEntry entry sent :=
  forall₂_exists renamed.symm.entries member

/-- A renamed head is as well formed as it was. -/
theorem wellFormed (formed : head.WellFormed size) : other.WellFormed size where
  line := renamed.line ▸ formed.line
  words := renamed.line ▸ formed.words
  texts entry member := by
    obtain ⟨sent, inside, name, value⟩ := renamed.origin member
    obtain ⟨noColon, ⟨noCr, noLf⟩, values⟩ := formed.texts sent inside
    rw [LineFree, mem_of_toLower name (by decide) (by decide),
      mem_of_toLower name (by decide) (by decide), mem_of_toLower name (by decide) (by decide),
      value]
    exact ⟨noColon, ⟨noCr, noLf⟩, values⟩
  length entry member names := by
    obtain ⟨sent, inside, name, value⟩ := renamed.origin member
    rw [value]
    exact formed.length sent inside (name.symm.trans names)
  noLength none := by
    refine formed.noLength fun sent inside names => ?_
    obtain ⟨entry, member, name, _⟩ := renamed.symm.origin inside
    exact none entry member (name.symm.trans names)
  small := formed.small

/-- `split` gets through a renamed head where it gets through the head. -/
theorem near (formed : head.WellFormed size) (near : head.Near) : other.Near := by
  refine ⟨renamed.line ▸ near.1, fun entry member far => ?_⟩
  obtain ⟨sent, inside, name, value⟩ := renamed.origin member
  have entryFree := seqFree_of_noColon ((renamed.wellFormed formed).texts entry member).1
  have sentFree := seqFree_of_noColon (formed.texts sent inside).1
  have cut := @split_renamed _ _ entry.2 entryFree sentFree (length_of_toLower name)
  apply near.2 sent inside
  rw [headerText] at far ⊢
  rw [← value, cut, far]
  rfl

/-- A renamed head has its size. -/
theorem length_text : head.text.length = other.text.length := by
  have lines := length_headLines renamed.entries
  simp only [ResponseHead.text, List.length_append, renamed.line, lines]

/-- A renamed head is stored with the same status line. -/
theorem storedLine : head.storedLine = other.storedLine := by
  rw [ResponseHead.storedLine, ResponseHead.storedLine, renamed.line]

end RenamedHead

/-! ## Streams -/

/-- A stream of responses, and the same stream with header names that differ at most in the case
of their letters. The stream may end anywhere, and go on with anything that stays the same. -/
inductive Renamed : Bytes → Bytes → Prop
  /-- What stays the same. -/
  | same (s : Bytes) : Renamed s s
  /-- The end of the stream is in a head. -/
  | cut {head other : ResponseHead} {size count : Nat} (formed : head.WellFormed size)
      (renamed : RenamedHead head other) (inside : count < head.text.length) :
      Renamed (head.text.take count) (other.text.take count)
  /-- The end of the stream is in a body. -/
  | part {head other : ResponseHead} {size : Nat} {body : Bytes} (formed : head.WellFormed size)
      (renamed : RenamedHead head other) (short : body.length < size) :
      Renamed (head.text ++ body) (other.text ++ body)
  /-- A response, and what follows it. -/
  | next {head other : ResponseHead} {size : Nat} {body s t : Bytes}
      (formed : head.WellFormed size) (renamed : RenamedHead head other)
      (whole : body.length = size) (later : Renamed s t) :
      Renamed (head.text ++ (body ++ s)) (other.text ++ (body ++ t))

/-- A stream that holds a head of this kind behind responses, of which `split` gets through all
lines. -/
inductive Carries (Kind : ResponseHead → Nat → Prop) : Bytes → Prop
  /-- The head comes first. -/
  | here {head : ResponseHead} {size : Nat} (formed : head.WellFormed size) (near : head.Near)
      (kind : Kind head size) (rest : Bytes) : Carries Kind (head.text ++ rest)
  /-- A response comes first. -/
  | behind {head : ResponseHead} {size : Nat} {body s : Bytes} (formed : head.WellFormed size)
      (near : head.Near) (whole : body.length = size) (later : Carries Kind s) :
      Carries Kind (head.text ++ (body ++ s))

/-- The response has a body. -/
def HasBody (_ : ResponseHead) (size : Nat) : Prop := 0 < size

/-- The response has a body of which the code does not see the length. -/
def HidesBody (head : ResponseHead) (size : Nat) : Prop := 0 < size ∧ ¬ head.NamesExactly

variable {τ : Type} [UnorderedMultimap τ] {surroundings : Surroundings} {holds : Bool}
  {files : Files} {s t : Bytes}

/-- A new parser reports the same of both streams, cut in the same way: as many responses, with the
same status codes and the same bodies. -/
def SameReports (setting : Setting ResponseLine τ) (files : Files) (s t : Bytes) : Prop :=
  ∀ chunks others : List Bytes, chunks.flatten = s → others.flatten = t →
    chunks.map List.length = others.map List.length →
    ∃ o o', inputChunks setting (fresh setting files []) chunks = some o ∧
      inputChunks setting (fresh setting files []) others = some o' ∧
      reports o.out = reports o'.out

/-- A stream is reported as itself. -/
theorem sameReports_refl (s : Bytes) :
    SameReports ⟨@httpResponseParser τ _, surroundings, holds⟩ files s s := by
  intro chunks others cut cut' sizes
  have same : chunks = others := List.eq_iff_flatten_eq.mpr ⟨cut.trans cut'.symm, sizes⟩
  have passive := @freshResponse_passive τ _ surroundings holds files
  obtain ⟨o, found⟩ := @inputChunks_total _ _ ⟨@httpResponseParser τ _, surroundings, holds⟩ _ _
    httpResponseParser_lawful passive chunks
  exact ⟨o, o, found, same ▸ found, rfl⟩

/-- Streams that are read with the same reports, and not stopped with an error code, are reported
the same. -/
theorem sameReports_of_read
    {o o' : Outcome (ParserState ResponseLine τ) (Event ResponseLine τ) Stop}
    (read : InputData ⟨httpResponseParser, surroundings, holds⟩
      (fresh ⟨httpResponseParser, surroundings, holds⟩ files []) s o)
    (read' : InputData ⟨httpResponseParser, surroundings, holds⟩
      (fresh ⟨httpResponseParser, surroundings, holds⟩ files []) t o')
    (harmless : ∀ reason, o.stop = some reason → reason.fatal = true)
    (harmless' : ∀ reason, o'.stop = some reason → reason.fatal = true)
    (same : reports o.out = reports o'.out) :
    SameReports ⟨@httpResponseParser τ _, surroundings, holds⟩ files s t := by
  intro chunks others cut cut' _
  have passive := @freshResponse_passive τ _ surroundings holds files
  exact ⟨o, o', inputChunks_eq httpResponseParser_lawful passive (cut ▸ read) harmless,
    inputChunks_eq httpResponseParser_lawful passive (cut' ▸ read') harmless', same⟩

/-- Responses that are read with the same reports, and the same reports of what follows them. -/
theorem sameReports_append {front front' : Bytes} (size : front.length = front'.length)
    {out out' : List (Event ResponseLine τ)}
    (read : InputData ⟨httpResponseParser, surroundings, holds⟩
      (fresh ⟨httpResponseParser, surroundings, holds⟩ files []) front
      ⟨fresh ⟨httpResponseParser, surroundings, holds⟩ files [], out, none⟩)
    (read' : InputData ⟨httpResponseParser, surroundings, holds⟩
      (fresh ⟨httpResponseParser, surroundings, holds⟩ files []) front'
      ⟨fresh ⟨httpResponseParser, surroundings, holds⟩ files [], out', none⟩)
    (same : reports out = reports out')
    (later : SameReports ⟨@httpResponseParser τ _, surroundings, holds⟩ files s t) :
    SameReports ⟨@httpResponseParser τ _, surroundings, holds⟩ files (front ++ s)
      (front' ++ t) := by
  intro chunks others cut cut' sizes
  have passive := @freshResponse_passive τ _ surroundings holds files
  obtain ⟨o, o', found, found', equal⟩ := later
    (dropSymbols front.length chunks) (dropSymbols front'.length others)
    (by rw [flatten_dropSymbols, cut, List.drop_left])
    (by rw [flatten_dropSymbols, cut', List.drop_left])
    (by rw [size]; exact dropSymbols_sizes _ sizes)
  refine ⟨o.after out, o'.after out', ?_, ?_, ?_⟩
  · have front := inputChunks_front httpResponseParser_lawful passive read cut
    rw [front, found, Option.map_some]
  · have front := inputChunks_front httpResponseParser_lawful passive read' cut'
    rw [front, found', Option.map_some]
  · rw [Outcome.after_out, Outcome.after_out, reports_append, reports_append, same, equal]

/-! ## Streams that are reported the same -/

section Steps

variable {head other : ResponseHead} {size : Nat} {body : Bytes}
  (formed : head.WellFormed size) (renamed : RenamedHead head other)
include formed renamed

/-- Nothing is reported of a head that is not there to its end. -/
theorem sameReports_cut {count : Nat} (inside : count < head.text.length) :
    SameReports ⟨@httpResponseParser τ _, surroundings, holds⟩ files (head.text.take count)
      (other.text.take count) := by
  obtain ⟨o, read, silent, harmless⟩ :=
    @reads_cutHead τ _ surroundings holds files head size formed count inside
  obtain ⟨o', read', silent', harmless'⟩ :=
    @reads_cutHead τ _ surroundings holds files other size (renamed.wellFormed formed) count
      (renamed.length_text ▸ inside)
  exact sameReports_of_read read read' harmless harmless' (by rw [silent, silent'])

/-- Nothing is reported where `split` does not get through a head. -/
theorem sameReports_far (far : ¬ head.Near) (more more' : Bytes) :
    SameReports ⟨@httpResponseParser τ _, surroundings, holds⟩ files (head.text ++ more)
      (other.text ++ more') := by
  have far' : ¬ other.Near :=
    fun near => far (renamed.symm.near (renamed.wellFormed formed) near)
  obtain ⟨last, read⟩ :=
    @reads_far τ _ surroundings holds files head size formed far (crlf ++ more)
  obtain ⟨last', read'⟩ :=
    @reads_far τ _ surroundings holds files other size (renamed.wellFormed formed) far'
      (crlf ++ more')
  rw [← ResponseHead.text_append] at read read'
  have harmless : ∀ reason, some Stop.fault = some reason → reason.fatal = true := by
    rintro _ ⟨⟩
    rfl
  exact sameReports_of_read read read' harmless harmless rfl

/-- Nothing is reported of a body that is not there to its end, where its length is seen. -/
theorem sameReports_part (short : body.length < size)
    (seen : head.Near → head.seen size = size ∧ other.seen size = size) :
    SameReports ⟨@httpResponseParser τ _, surroundings, holds⟩ files (head.text ++ body)
      (other.text ++ body) := by
  by_cases near : head.Near
  · obtain ⟨seen, seen'⟩ := seen near
    obtain ⟨last, events, none, read⟩ :=
      @reads_partBody τ _ surroundings holds files head size formed near body (by rwa [seen])
    obtain ⟨last', events', none', read'⟩ :=
      @reads_partBody τ _ surroundings holds files other size (renamed.wellFormed formed)
        (renamed.near formed near) body (by rwa [seen'])
    exact sameReports_of_read read read' (by simp) (by simp) (by rw [none, none'])
  · exact sameReports_far formed renamed near body body

/-- A response is reported with its body, where its length is seen. -/
theorem sameReports_next (whole : body.length = size)
    (seen : head.Near → head.seen size = size ∧ other.seen size = size)
    (later : head.Near →
      SameReports ⟨@httpResponseParser τ _, surroundings, holds⟩ files s t) :
    SameReports ⟨@httpResponseParser τ _, surroundings, holds⟩ files (head.text ++ (body ++ s))
      (other.text ++ (body ++ t)) := by
  by_cases near : head.Near
  · obtain ⟨seen, seen'⟩ := seen near
    obtain ⟨events, told, read⟩ :=
      @reads_response τ _ surroundings holds files head size [] _ formed near body
        (whole.trans seen.symm) returns_nil
    obtain ⟨events', told', read'⟩ :=
      @reads_response τ _ surroundings holds files other size [] _ (renamed.wellFormed formed)
        (renamed.near formed near) body (whole.trans seen'.symm) returns_nil
    rw [List.append_nil] at read read'
    rw [← List.append_assoc, ← List.append_assoc]
    refine sameReports_append ?_ read read' ?_ (later near)
    · rw [List.length_append, List.length_append, renamed.length_text]
    · rw [List.append_nil, List.append_nil, told, told', renamed.storedLine]
  · exact sameReports_far formed renamed near _ _

end Steps

/-- The size of a response without a body is seen in any case. -/
theorem seen_of_noBody (head : ResponseHead) {size : Nat} (noBody : ¬ HasBody head size) :
    head.seen size = size := by
  rw [Nat.eq_zero_of_not_pos noBody]
  exact ite_self 0

/-- Where no response has a body, nothing depends on the case of header names. -/
theorem sameReports_of_noBody (renamed : Renamed s t) (noBody : ¬ Carries HasBody s) :
    SameReports ⟨@httpResponseParser τ _, surroundings, holds⟩ files s t := by
  induction renamed with
  | same s => exact sameReports_refl s
  | cut formed heads inside => exact sameReports_cut formed heads inside
  | part formed heads short =>
    refine sameReports_part formed heads short fun near => ?_
    exact absurd (Carries.here formed near (Nat.zero_lt_of_lt short) _) noBody
  | next formed heads whole _ ih =>
    refine sameReports_next formed heads whole
      (fun near => ⟨seen_of_noBody _ fun some_ => ?_, seen_of_noBody _ fun some_ => ?_⟩)
      fun near => ih fun carries => ?_
    · exact noBody (Carries.here formed near some_ _)
    · exact noBody (Carries.here formed near some_ _)
    · exact noBody (Carries.behind formed near whole carries)

/-- The size of a response that hides no body is seen. -/
theorem seen_of_notHidden {head : ResponseHead} {size : Nat} (shown : ¬ HidesBody head size) :
    head.seen size = size := by
  rw [ResponseHead.seen]
  split
  · rfl
  · next absent =>
    by_contra some_
    exact shown ⟨Nat.pos_of_ne_zero (Ne.symm some_), absent⟩

/-- Where all lengths are seen in both streams, nothing else depends on the case of header
names. -/
theorem sameReports_of_shown (renamed : Renamed s t) (shown : ¬ Carries HidesBody s)
    (shown' : ¬ Carries HidesBody t) :
    SameReports ⟨@httpResponseParser τ _, surroundings, holds⟩ files s t := by
  induction renamed with
  | same s => exact sameReports_refl s
  | cut formed heads inside => exact sameReports_cut formed heads inside
  | part formed heads short =>
    refine sameReports_part formed heads short fun near => ⟨seen_of_notHidden fun hides => ?_,
      seen_of_notHidden fun hides => ?_⟩
    · exact shown (Carries.here formed near hides _)
    · exact shown' (Carries.here (heads.wellFormed formed) (heads.near formed near) hides _)
  | next formed heads whole _ ih =>
    refine sameReports_next formed heads whole (fun near => ⟨seen_of_notHidden fun hides => ?_,
      seen_of_notHidden fun hides => ?_⟩) fun near => ih (fun carries => ?_) fun carries => ?_
    · exact shown (Carries.here formed near hides _)
    · exact shown' (Carries.here (heads.wellFormed formed) (heads.near formed near) hides _)
    · exact shown (Carries.behind formed near whole carries)
    · exact shown' (Carries.behind (heads.wellFormed formed) (heads.near formed near) whole carries)

/-! ## Streams that are not -/

/-- A head with another name for its lengths. -/
def ResponseHead.respell (head : ResponseHead) (name : Bytes) : ResponseHead :=
  { head with entries := head.entries.map fun entry =>
      if NamesLength entry then (name, entry.2) else entry }

/-- A head with lengths in another case is a renamed head. -/
theorem renamed_respell {name : Bytes} (length : toLower name = toLower httpLen)
    (head : ResponseHead) : RenamedHead head (head.respell name) where
  line := rfl
  entries := by
    rw [ResponseHead.respell, List.forall₂_map_right_iff, List.forall₂_same]
    intro entry _
    split
    · next names => exact ⟨Eq.trans names length.symm, rfl⟩
    · exact ⟨rfl, rfl⟩

/-- Where there is a length, the name that the code looks for can be given to it. -/
theorem respell_exact {head : ResponseHead} {size : Nat} (formed : head.WellFormed size)
    (some_ : 0 < size) : (head.respell httpLen).seen size = size := by
  have lengths : ∃ entry ∈ head.entries, NamesLength entry := by
    by_contra none
    rw [formed.noLength fun entry member names => none ⟨entry, member, names⟩] at some_
    exact Nat.lt_irrefl 0 some_
  obtain ⟨entry, member, names⟩ := lengths
  have exact_ : (head.respell httpLen).NamesExactly :=
    ⟨_, List.mem_map.mpr ⟨entry, member, if_pos names⟩, rfl⟩
  rw [ResponseHead.seen, if_pos exact_]

/-- In lower case no length is seen. -/
theorem respell_lower (head : ResponseHead) (size : Nat) :
    (head.respell (toLower httpLen)).seen size = 0 := by
  rw [ResponseHead.seen, if_neg]
  rintro ⟨entry, member, name⟩
  obtain ⟨sent, _, rfl⟩ := List.mem_map.mp member
  have lower : toLower httpLen ≠ httpLen := by decide
  split at name
  · exact lower name
  · next other => exact other (congrArg toLower name)

/-- A renamed head at the front of a stream. -/
theorem renamed_front {head other : ResponseHead} {size : Nat} (formed : head.WellFormed size)
    (renamed : RenamedHead head other) (rest : Bytes) :
    Renamed (head.text ++ rest) (other.text ++ rest) := by
  by_cases short : rest.length < size
  · exact .part formed renamed short
  · have whole : (rest.take size).length = size := by
      rw [List.length_take]
      omega
    rw [← List.take_append_drop size rest]
    exact .next formed renamed whole (.same _)

/-- Different responses are reported of two streams. -/
def Differ (setting : Setting ResponseLine τ) (files : Files) (s t : Bytes) : Prop :=
  ∃ o o', InputData setting (fresh setting files []) s o ∧
    InputData setting (fresh setting files []) t o' ∧ reports o.out ≠ reports o'.out

/-- Streams that are reported the same are so in one chunk. -/
theorem SameReports.reports_eq
    (same : SameReports ⟨@httpResponseParser τ _, surroundings, holds⟩ files s t)
    (sizes : s.length = t.length)
    {o o' : Outcome (ParserState ResponseLine τ) (Event ResponseLine τ) Stop}
    (read : InputData ⟨httpResponseParser, surroundings, holds⟩
      (fresh ⟨httpResponseParser, surroundings, holds⟩ files []) s o)
    (read' : InputData ⟨httpResponseParser, surroundings, holds⟩
      (fresh ⟨httpResponseParser, surroundings, holds⟩ files []) t o') :
    reports o.out = reports o'.out := by
  have passive := @freshResponse_passive τ _ surroundings holds files
  obtain ⟨last, last', found, found', equal⟩ := same [s] [t] (by simp) (by simp) (by simp [sizes])
  obtain ⟨first, delivered, out⟩ := inputChunks_single httpResponseParser_lawful passive read
  obtain ⟨first', delivered', out'⟩ := inputChunks_single httpResponseParser_lawful passive read'
  obtain rfl := Option.some.inj (delivered.symm.trans found)
  obtain rfl := Option.some.inj (delivered'.symm.trans found')
  rw [← out, ← out', equal]

/-- A length that is seen in one head and not in the other. -/
theorem differ_front {upper lower : ResponseHead} {size : Nat}
    (formed : upper.WellFormed size) (near : upper.Near) (formed' : lower.WellFormed size)
    (near' : lower.Near) (some_ : 0 < size) (seen : upper.seen size = size)
    (unseen : lower.seen size = 0) (rest rest' : Bytes) :
    Differ ⟨@httpResponseParser τ _, surroundings, holds⟩ files (upper.text ++ rest)
      (lower.text ++ rest') := by
  obtain ⟨last, found⟩ := @freshResponse_reads τ _ surroundings holds files rest'
  obtain ⟨events, told, read⟩ := @reads_response τ _ surroundings holds files lower size rest' _
    formed' near' [] unseen.symm found
  by_cases short : rest.length < size
  · obtain ⟨_, events', none, read'⟩ :=
      @reads_partBody τ _ surroundings holds files upper size formed near rest (by rwa [seen])
    refine ⟨_, _, read', read, fun same => ?_⟩
    rw [Outcome.after_out, reports_append, told, none] at same
    cases same
  · have whole : (rest.take size).length = size := by
      rw [List.length_take]
      omega
    obtain ⟨behind, found'⟩ := @freshResponse_reads τ _ surroundings holds files (rest.drop size)
    obtain ⟨events', told', read'⟩ := @reads_response τ _ surroundings holds files upper size _ _
      formed near (rest.take size) (whole.trans seen.symm) found'
    rw [List.take_append_drop] at read'
    refine ⟨_, _, read', read, fun same => ?_⟩
    rw [Outcome.after_out, Outcome.after_out, reports_append, reports_append, told, told'] at same
    have bodies := congrArg Prod.snd (List.cons.inj same).1
    have empty : (rest.take size).length = 0 := congrArg List.length bodies
    omega

/-- Streams that differ behind a response differ. -/
theorem Differ.behind {head other : ResponseHead} {size : Nat} {body : Bytes}
    (formed : head.WellFormed size) (near : head.Near) (renamed : RenamedHead head other)
    (whole : body.length = size) (seen : head.seen size = size ∧ other.seen size = size)
    (differ : Differ ⟨@httpResponseParser τ _, surroundings, holds⟩ files s t) :
    Differ ⟨@httpResponseParser τ _, surroundings, holds⟩ files (head.text ++ (body ++ s))
      (other.text ++ (body ++ t)) := by
  obtain ⟨o, o', read, read', different⟩ := differ
  obtain ⟨events, told, here⟩ := @reads_response τ _ surroundings holds files head size _ _
    formed near body (whole.trans seen.1.symm) read
  obtain ⟨events', told', here'⟩ := @reads_response τ _ surroundings holds files other size _ _
    (renamed.wellFormed formed) (renamed.near formed near) body (whole.trans seen.2.symm) read'
  refine ⟨_, _, here, here', fun same => different ?_⟩
  rw [Outcome.after_out, Outcome.after_out, reports_append, reports_append, told, told',
    renamed.storedLine] at same
  exact List.append_cancel_left same

/-- Where a response has a body, the header names of a stream can be spelled in two ways that are
reported differently. -/
theorem differ_of_hasBody (carries : Carries HasBody s) :
    ∃ t u, Renamed s t ∧ Renamed s u ∧
      Differ ⟨@httpResponseParser τ _, surroundings, holds⟩ files t u := by
  have front : ∀ {head : ResponseHead} {size : Nat}, head.WellFormed size → head.Near →
      0 < size → ∀ rest, ∃ t u, Renamed (head.text ++ rest) t ∧ Renamed (head.text ++ rest) u ∧
        Differ ⟨@httpResponseParser τ _, surroundings, holds⟩ files t u := by
    intro head size formed near some_ rest
    have upper := renamed_respell rfl head
    have lower := renamed_respell (toLower_toLower httpLen) head
    have differ := @differ_front τ _ surroundings holds files _ _ _ (upper.wellFormed formed)
      (upper.near formed near) (lower.wellFormed formed) (lower.near formed near) some_
      (respell_exact formed some_) (respell_lower head size) rest rest
    exact ⟨_, _, renamed_front formed upper rest, renamed_front formed lower rest, differ⟩
  induction carries with
  | here formed near some_ rest => exact front formed near some_ rest
  | @behind head size body s formed near whole _ ih =>
    rcases Nat.eq_zero_or_pos size with rfl | some_
    · obtain ⟨t, u, first, second, differ⟩ := ih
      have itself : RenamedHead head head := ⟨rfl, List.forall₂_same.mpr fun _ _ => ⟨rfl, rfl⟩⟩
      have seen := seen_of_noBody head (Nat.lt_irrefl 0)
      exact ⟨_, _, .next formed itself whole first, .next formed itself whole second,
        differ.behind formed near itself whole ⟨seen, seen⟩⟩
    · exact front formed near some_ _

/-- What a stream that begins with a head was renamed from. -/
theorem Renamed.head_inv {head : ResponseHead} {size : Nat} {rest : Bytes}
    (formed : head.WellFormed size) (renamed : Renamed s (head.text ++ rest)) :
    s = head.text ++ rest ∨ ∃ origin, origin.WellFormed size ∧ RenamedHead origin head ∧
      ((rest.length < size ∧ s = origin.text ++ rest) ∨
        ∃ body u v, body.length = size ∧ rest = body ++ v ∧ Renamed u v ∧
          s = origin.text ++ (body ++ u)) := by
  generalize stream : head.text ++ rest = t at renamed
  cases renamed with
  | same => exact .inl rfl
  | @cut origin other size' count formed' heads inside =>
    have whole : head.text ++ (rest ++ other.text.drop count) = other.text ++ [] := by
      rw [← List.append_assoc, stream, List.take_append_drop, List.append_nil]
    obtain ⟨rfl, _, nothing⟩ := formed.unique (heads.wellFormed formed') whole
    have left := congrArg List.length nothing
    have sizes := heads.length_text
    rw [List.length_append, List.length_drop, List.length_nil] at left
    omega
  | @part origin other size' body formed' heads short =>
    obtain ⟨rfl, rfl, rfl⟩ := formed.unique (heads.wellFormed formed') stream
    exact .inr ⟨origin, formed', heads, .inl ⟨short, rfl⟩⟩
  | @next origin other size' body u v formed' heads whole later =>
    obtain ⟨rfl, rfl, rfl⟩ := formed.unique (heads.wellFormed formed') stream
    exact .inr ⟨origin, formed', heads, .inr ⟨body, u, v, whole, rfl, later, rfl⟩⟩

/-- Where all lengths are seen in one stream and a body is hidden in the other, different responses
are reported. -/
theorem differ_of_hidden (renamed : Renamed s t) (shown : ¬ Carries HidesBody s)
    (hidden : Carries HidesBody t) :
    Differ ⟨@httpResponseParser τ _, surroundings, holds⟩ files s t := by
  have front : ∀ {origin head : ResponseHead} {size : Nat} {rest : Bytes},
      origin.WellFormed size → RenamedHead origin head → head.Near → HidesBody head size →
      ∀ tail, ¬ Carries HidesBody (origin.text ++ tail) →
        Differ ⟨@httpResponseParser τ _, surroundings, holds⟩ files (origin.text ++ tail)
          (head.text ++ rest) := by
    intro origin head size rest formed heads near hides tail shown
    have formed' := heads.wellFormed formed
    have near' := heads.symm.near formed' near
    have seen := seen_of_notHidden fun hides => shown (.here formed near' hides tail)
    have unseen : head.seen size = 0 := if_neg hides.2
    exact differ_front formed near' formed' near hides.1 seen unseen tail rest
  induction hidden generalizing s with
  | @here head size formed near hides rest =>
    rcases renamed.head_inv formed with rfl | ⟨origin, formed', heads, ends⟩
    · exact absurd (.here formed near hides rest) shown
    · rcases ends with ⟨_, rfl⟩ | ⟨body, u, v, _, _, _, rfl⟩
      · exact front formed' heads near hides _ shown
      · exact front formed' heads near hides _ shown
  | @behind head size body v formed near whole later ih =>
    rcases renamed.head_inv formed with rfl | ⟨origin, formed', heads, ends⟩
    · exact absurd (.behind formed near whole later) shown
    · rcases ends with ⟨short, _⟩ | ⟨body', u, v', whole', rests, behind, rfl⟩
      · rw [List.length_append] at short
        omega
      · obtain ⟨rfl, rfl⟩ := List.append_inj rests (whole.trans whole'.symm)
        by_cases hides : HidesBody head size
        · exact front formed' heads near hides _ shown
        · have near' := heads.symm.near formed near
          have seen := seen_of_notHidden fun hides => shown (.here formed' near' hides _)
          have differ := ih behind fun carries => shown (.behind formed' near' whole carries)
          exact differ.behind formed' near' heads whole ⟨seen, seen_of_notHidden hides⟩

/-- Renaming keeps the size of a stream. -/
theorem Renamed.length_eq (renamed : Renamed s t) : s.length = t.length := by
  induction renamed with
  | same s => rfl
  | cut _ heads _ => rw [List.length_take, List.length_take, heads.length_text]
  | part _ heads _ => rw [List.length_append, List.length_append, heads.length_text]
  | next _ heads _ _ ih => simp only [List.length_append, heads.length_text, ih]

/-- Different responses are not the same. -/
theorem Differ.not_sameReports
    (differ : Differ ⟨@httpResponseParser τ _, surroundings, holds⟩ files s t)
    (sizes : s.length = t.length) :
    ¬ SameReports ⟨@httpResponseParser τ _, surroundings, holds⟩ files s t := by
  intro same
  obtain ⟨o, o', read, read', different⟩ := differ
  exact different (same.reports_eq sizes read read')

/-- The responses that are reported of a stream depend on the case of header names exactly where
one of them has a body. Where the code sees all lengths of a stream, they are the same for another
spelling exactly where it sees all lengths there, too. -/
theorem renamed_sameReports_iff (τ : Type) [UnorderedMultimap τ] (surroundings : Surroundings)
    (holds : Bool) (files : Files) (s : Bytes) :
    ((∀ t, Renamed s t →
        SameReports ⟨@httpResponseParser τ _, surroundings, holds⟩ files s t) ↔
      ¬ Carries HasBody s) ∧
    (¬ Carries HidesBody s → ∀ t, Renamed s t →
      (SameReports ⟨@httpResponseParser τ _, surroundings, holds⟩ files s t ↔
        ¬ Carries HidesBody t)) := by
  refine ⟨⟨fun same carries => ?_, fun noBody t renamed => sameReports_of_noBody renamed noBody⟩,
    fun shown t renamed => ⟨fun same hidden => ?_, sameReports_of_shown renamed shown⟩⟩
  · obtain ⟨t, u, first, second, o, o', read, read', different⟩ :=
      @differ_of_hasBody τ _ surroundings holds files s carries
    obtain ⟨itself, found⟩ := @freshResponse_reads τ _ surroundings holds files s
    have left := (same t first).reports_eq first.length_eq found read
    have right := (same u second).reports_eq second.length_eq found read'
    exact different (left.symm.trans right)
  · exact (differ_of_hidden renamed shown hidden).not_sameReports renamed.length_eq same

/-- A head with one length, under some name. -/
def twoBytesHead (name : Bytes) : ResponseHead :=
  ⟨ascii "HTTP/1.1 200 OK", [(name, ascii "2")]⟩

/-- A body of two bytes is reported with `Content-Length`, and not with `content-length`. -/
theorem sameReports_not_always :
    ¬ ∀ s t, Renamed s t →
      SameReports ⟨@httpResponseParser ListMultimap _, ⟨linux, fun _ => []⟩, false⟩
        ⟨fun _ => none, 0⟩ s t := by
  intro always
  have formed : (twoBytesHead (ascii "Content-Length")).WellFormed 2 :=
    ⟨by decide, by decide, by decide, by decide, by decide, by decide⟩
  have formed' : (twoBytesHead (ascii "content-length")).WellFormed 2 :=
    ⟨by decide, by decide, by decide, by decide, by decide, by decide⟩
  have heads : RenamedHead (twoBytesHead (ascii "Content-Length"))
      (twoBytesHead (ascii "content-length")) := by
    have entry : RenamedEntry (ascii "Content-Length", ascii "2")
        (ascii "content-length", ascii "2") := ⟨by decide, rfl⟩
    constructor
    · simp only [twoBytesHead]
    · exact .cons entry .nil
  have same := always _ _ (renamed_front formed heads (ascii "hi"))
  exact (differ_front formed (by decide) formed' (by decide) (by decide) (by decide) (by decide)
    (ascii "hi") (ascii "hi")).not_sameReports
      (renamed_front formed heads (ascii "hi")).length_eq same

end Hnw.Parser
