import Hnw.Verif.Head

/-!
# What a rejected range leaves

`get_range` and `get_content_range` assign the fields of the caller's range one by one, and return
false at the first text that is no number. So the fields read before it have been assigned: the
range is unchanged just where it held these values before.
-/

namespace Hnw.Http

open Hnw.Util Hnw.Util.UnorderedMultimap

/-! ## The endpoint texts -/

/-- The text in front of the hyphen. -/
def firstText (texts : List Bytes) : Bytes := texts.headD []

/-- A text that is there and is no number. -/
def NoNumber (text : Bytes) : Prop := text ≠ [] ∧ stoull text = none

instance (text : Bytes) : Decidable (NoNumber text) := inferInstanceAs (Decidable (_ ∧ _))

/-- The text behind the hyphen is there and is no number. -/
def SecondNoNumber (texts : List Bytes) : Prop := ∃ second ∈ texts[1]?, NoNumber second

/-- One of the endpoint texts is no number. -/
def Refused (texts : List Bytes) : Prop := NoNumber (firstText texts) ∨ SecondNoNumber texts

/-- The range begins as the first text says. -/
def BeginsAs (range : HttpRange) (texts : List Bytes) : Prop :=
  if firstText texts = [] then range.useStartEndpoint = true
  else range.useStartEndpoint = false ∧ stoull (firstText texts) = some range.start

/-- The range ends as the second text says, where there is one. -/
def EndsAs (range : HttpRange) (texts : List Bytes) : Prop :=
  ∀ second ∈ texts[1]?,
    if second = [] then range.useEndEndpoint = true
    else range.useEndEndpoint = false ∧ stoull second = some range.stop

/-- What is assigned before the text that is no number is what the range held. -/
def RefusalKeeps (range : HttpRange) (texts : List Bytes) : Prop :=
  if NoNumber (firstText texts) then range.useStartEndpoint = false
  else BeginsAs range texts ∧ range.useEndEndpoint = false

/-- The range after its first text was read. -/
def begun (range : HttpRange) (texts : List Bytes) : HttpRange :=
  if firstText texts = [] then { range with useStartEndpoint := true }
  else { range with
    useStartEndpoint := false
    start := (stoull (firstText texts)).getD range.start }

/-- The endpoints that are read are the ones that are left where every number is one. -/
theorem readEndpoints_eq (range : HttpRange) (texts : List Bytes) :
    readEndpoints range texts =
      if (endpointsLeft range texts).2 then some (endpointsLeft range texts).1 else none := by
  unfold readEndpoints endpointsLeft
  match texts with
  | [] => rfl
  | [first] =>
    by_cases open_ : first.length = 0
    · simp only [List.headD_cons, open_, if_true]
      rfl
    · cases number : stoull first <;>
        simp only [List.headD_cons, open_, if_false, number] <;> rfl
  | first :: second :: rest =>
    by_cases open_ : first.length = 0 <;> by_cases openEnd : second.length = 0 <;>
      cases number : stoull first <;> cases last : stoull second <;>
        simp only [List.headD_cons, open_, openEnd, if_true, if_false, number, last] <;> rfl

/-- What the second text leaves of a range, and whether it was read. -/
def stopLeft (range : HttpRange) (texts : List Bytes) : HttpRange × Bool :=
  match texts with
  | _ :: second :: _ =>
    if second.length = 0 then ({ range with useEndEndpoint := true }, true)
    else
      match stoull second with
      | none => ({ range with useEndEndpoint := false }, false)
      | some stop => ({ range with useEndEndpoint := false, stop }, true)
  | _ => (range, true)

/-- A first text that is no number ends the reading. -/
theorem endpointsLeft_first (range : HttpRange) {texts : List Bytes}
    (refused : NoNumber (firstText texts)) :
    endpointsLeft range texts = ({ range with useStartEndpoint := false }, false) := by
  have some_ : ¬ (texts.headD []).length = 0 := mt List.length_eq_zero_iff.mp refused.1
  have none_ : stoull (texts.headD []) = none := refused.2
  rw [endpointsLeft]
  simp only [if_neg some_, none_]

/-- Behind a first text that is read the second one is. -/
theorem endpointsLeft_second (range : HttpRange) {texts : List Bytes}
    (read : ¬ NoNumber (firstText texts)) :
    endpointsLeft range texts = stopLeft (begun range texts) texts := by
  by_cases empty_ : firstText texts = []
  · have zero : (texts.headD []).length = 0 := congrArg List.length empty_
    rw [endpointsLeft, begun, if_pos empty_]
    simp only [zero, if_true]
    rfl
  · have some_ : ¬ (texts.headD []).length = 0 := mt List.length_eq_zero_iff.mp empty_
    obtain ⟨start, number⟩ := Option.ne_none_iff_exists'.mp fun none_ => read ⟨empty_, none_⟩
    rw [begun, if_neg empty_, number]
    rw [firstText] at number
    rw [endpointsLeft]
    simp only [if_neg some_, number, Option.getD_some]
    rfl

/-- The first text changes nothing just where the range begins as it says. -/
theorem begun_eq_iff (range : HttpRange) {texts : List Bytes}
    (read : ¬ NoNumber (firstText texts)) : begun range texts = range ↔ BeginsAs range texts := by
  obtain ⟨useStart, useEnd, start, stop, total⟩ := range
  rw [begun, BeginsAs]
  by_cases empty_ : firstText texts = []
  · simp only [if_pos empty_, HttpRange.mk.injEq, and_true]
    exact eq_comm
  · obtain ⟨number, same⟩ := Option.ne_none_iff_exists'.mp fun none_ => read ⟨empty_, none_⟩
    simp only [if_neg empty_, same, Option.getD_some, HttpRange.mk.injEq, and_true, true_and,
      Option.some.injEq]
    exact and_congr eq_comm Iff.rfl

/-- The second text is assigned to the end of a range. -/
theorem stopLeft_eq (range : HttpRange) (texts : List Bytes) :
    ∃ useEnd stop, (stopLeft range texts).1 = { range with useEndEndpoint := useEnd, stop } := by
  unfold stopLeft
  split
  · split
    · exact ⟨true, range.stop, rfl⟩
    · split
      · exact ⟨false, range.stop, rfl⟩
      · next stop _ => exact ⟨false, stop, rfl⟩
  · exact ⟨range.useEndEndpoint, range.stop, rfl⟩

/-- Reading the begin and the end changes nothing just where neither changes anything. -/
theorem stopLeft_begun_iff (range : HttpRange) (texts : List Bytes) :
    (stopLeft (begun range texts) texts).1 = range ↔
      begun range texts = range ∧ (stopLeft range texts).1 = range := by
  constructor
  · intro same
    have unchanged : begun range texts = range := by
      obtain ⟨useEnd, stop, left⟩ := stopLeft_eq (begun range texts) texts
      have untouched : ∃ useStart start,
          begun range texts = { range with useStartEndpoint := useStart, start } := by
        rw [begun]
        split
        · exact ⟨true, range.start, rfl⟩
        · exact ⟨false, _, rfl⟩
      obtain ⟨useStart, start, first⟩ := untouched
      rw [same, first] at left
      rw [first]
      obtain ⟨_, _, _, _, _⟩ := range
      rw [HttpRange.mk.injEq] at left ⊢
      exact ⟨left.1.symm, rfl, left.2.2.1.symm, rfl, rfl⟩
    refine ⟨unchanged, ?_⟩
    rwa [unchanged] at same
  · rintro ⟨unchanged, left⟩
    rwa [unchanged]

/-- A second text that is no number leaves a range without an endpoint. -/
theorem stopLeft_refused (range : HttpRange) {texts : List Bytes} (refused : SecondNoNumber texts) :
    stopLeft range texts = ({ range with useEndEndpoint := false }, false) := by
  obtain ⟨second, member, some_, none_⟩ := refused
  cases texts with
  | nil => cases member
  | cons first texts =>
    cases texts with
    | nil => cases member
    | cons other rest =>
      have same : other = second := Option.some.inj member
      have long : ¬ second.length = 0 := mt List.length_eq_zero_iff.mp some_
      rw [stopLeft, same, if_neg long, none_]

/-- A second text that is read changes nothing just where the range ends as it says. -/
theorem stopLeft_read (range : HttpRange) {texts : List Bytes} (read : ¬ SecondNoNumber texts) :
    (stopLeft range texts).2 = true ∧
      ((stopLeft range texts).1 = range ↔ EndsAs range texts) := by
  obtain ⟨useStart, useEnd, start, stop, total⟩ := range
  cases texts with
  | nil => exact ⟨rfl, fun _ second member => (by cases member), fun _ => rfl⟩
  | cons first texts =>
    cases texts with
    | nil => exact ⟨rfl, fun _ second member => (by cases member), fun _ => rfl⟩
    | cons second rest =>
      have only : EndsAs ⟨useStart, useEnd, start, stop, total⟩ (first :: second :: rest) ↔
          if second = [] then useEnd = true else useEnd = false ∧ stoull second = some stop := by
        constructor
        · exact fun all => all second rfl
        · intro here other member
          rwa [← Option.some.inj member]
      by_cases empty_ : second = []
      · have zero : second.length = 0 := congrArg List.length empty_
        rw [only, if_pos empty_, stopLeft, if_pos zero]
        simp only [HttpRange.mk.injEq, and_true, true_and]
        exact eq_comm
      · have long : ¬ second.length = 0 := mt List.length_eq_zero_iff.mp empty_
        obtain ⟨number, same⟩ := Option.ne_none_iff_exists'.mp fun none_ =>
          read ⟨second, rfl, empty_, none_⟩
        rw [only, if_neg empty_, stopLeft, if_neg long, same]
        simp only [HttpRange.mk.injEq, and_true, true_and, Option.some.injEq]
        exact and_congr eq_comm Iff.rfl

/-- The endpoint texts are read just where none is refused. -/
theorem endpointsLeft_refused_iff (range : HttpRange) (texts : List Bytes) :
    (endpointsLeft range texts).2 = false ↔ Refused texts := by
  by_cases first : NoNumber (firstText texts)
  · rw [endpointsLeft_first range first]
    exact ⟨fun _ => Or.inl first, fun _ => rfl⟩
  · rw [endpointsLeft_second range first]
    by_cases second : SecondNoNumber texts
    · rw [stopLeft_refused _ second]
      exact ⟨fun _ => Or.inr second, fun _ => rfl⟩
    · rw [(stopLeft_read _ second).1]
      exact ⟨fun false_ => (by cases false_), fun refused =>
        absurd refused (not_or.mpr ⟨first, second⟩)⟩

/-- Refused endpoints leave the range as it was just where it held what was assigned before. -/
theorem endpointsLeft_keeps_iff (range : HttpRange) {texts : List Bytes} (refused : Refused texts) :
    (endpointsLeft range texts).1 = range ↔ RefusalKeeps range texts := by
  obtain ⟨useStart, useEnd, start, stop, total⟩ := range
  by_cases first : NoNumber (firstText texts)
  · rw [endpointsLeft_first _ first, RefusalKeeps, if_pos first]
    simp only [HttpRange.mk.injEq, and_true]
    exact eq_comm
  · have second := refused.resolve_left first
    rw [endpointsLeft_second _ first, RefusalKeeps, if_neg first, stopLeft_begun_iff,
      begun_eq_iff _ first, stopLeft_refused _ second]
    simp only [HttpRange.mk.injEq, and_true, true_and]
    exact and_congr Iff.rfl eq_comm

/-- Endpoints that are read leave the range as it was just where it begins and ends as they say. -/
theorem endpointsLeft_reads_iff (range : HttpRange) {texts : List Bytes} (read : ¬ Refused texts) :
    (endpointsLeft range texts).1 = range ↔ BeginsAs range texts ∧ EndsAs range texts := by
  obtain ⟨first, second⟩ := not_or.mp read
  rw [endpointsLeft_second range first, stopLeft_begun_iff, begun_eq_iff range first,
    (stopLeft_read range second).2]

variable {σ : Type} [UnorderedMultimap σ]

/-! ## The headers -/

/-- The endpoint texts that `get_range` reads, `some none` where it returns false before, and
`none` where `split` throws. -/
def rangeTexts (head : σ) : Option (Option (List Bytes)) := do
  let src := getHead head httpRange []
  if src = [] then return none
  let bv ← split src (ascii "=")
  match bv with
  | [unit, sections] =>
    if Util.find unit httpRangeByte 0 = none then return none
    let vec ← split sections (ascii ";")
    let r ← split (vec.headD []) (ascii "-")
    return some r
  | _ => return none

/-- The range that is left where the endpoint texts are read, or are not reached. -/
def leftOf (range : HttpRange) : Option (List Bytes) → HttpRange
  | none => range
  | some texts => (endpointsLeft range texts).1

/-- `get_range` returns and leaves what its endpoint texts say. -/
theorem getRange_eq (head : σ) (range : HttpRange) :
    getRange head range = (rangeTexts head).map (fun found => found.bind (readEndpoints range)) ∧
      rangeLeft head range = (rangeTexts head).map (leftOf range) := by
  unfold getRange rangeLeft rangeTexts
  by_cases empty_ : getHead head httpRange [] = []
  · simp only [if_pos empty_]
    exact ⟨rfl, rfl⟩
  · simp only [if_neg empty_]
    cases split (getHead head httpRange []) (ascii "=") with
    | none => exact ⟨rfl, rfl⟩
    | some bv =>
      rcases bv with _ | ⟨unit, _ | ⟨sections, _ | ⟨other, rest⟩⟩⟩
      · exact ⟨rfl, rfl⟩
      · exact ⟨rfl, rfl⟩
      · by_cases bytes : Util.find unit httpRangeByte 0 = none
        · simp only [Option.bind_eq_bind, Option.bind_some, if_pos bytes]
          exact ⟨rfl, rfl⟩
        · simp only [Option.bind_eq_bind, Option.bind_some, if_neg bytes]
          cases split sections (ascii ";") with
          | none => exact ⟨rfl, rfl⟩
          | some vec =>
            simp only [Option.bind_some]
            cases split (vec.headD []) (ascii "-") with
            | none => exact ⟨rfl, rfl⟩
            | some texts => exact ⟨rfl, rfl⟩
      · exact ⟨rfl, rfl⟩

/-- The endpoint texts and the text of the size that `get_content_range` reads, `some none` where
it returns false before, and `none` where `split` throws outside of its `try`. -/
def contentRangeTexts (head : σ) : Option (Option (List Bytes × Bytes)) := do
  let src := getHead head httpContentRange []
  if src = [] then return none
  let bv ← split src space
  match bv with
  | [unit, span] =>
    if Util.find unit httpRangeByte 0 = none then return none
    let vec ← split span (ascii "/")
    match vec with
    | [ends, total] => return (split ends (ascii "-")).map fun r => (r, total)
    | _ => return none
  | _ => return none

/-- The range that is left where the endpoint texts and the size are read, or are not reached. -/
def contentLeftOf (range : HttpRange) : Option (List Bytes × Bytes) → HttpRange
  | none => range
  | some (texts, total) =>
    let (range, goes) := endpointsLeft range texts
    if goes then { range with total := (stoull total).getD range.total } else range

/-- What the endpoint texts and the size say. -/
def readSpan (range : HttpRange) (texts : List Bytes × Bytes) : Option HttpRange := do
  let range ← readEndpoints range texts.1
  let total ← stoull texts.2
  pure { range with total }

/-- `get_content_range` returns and leaves what its endpoint texts and the size say. -/
theorem getContentRange_eq (head : σ) (range : HttpRange) :
    getContentRange head range =
        (contentRangeTexts head).map (fun found => found.bind (readSpan range)) ∧
      contentRangeLeft head range = (contentRangeTexts head).map (contentLeftOf range) := by
  unfold getContentRange contentRangeLeft contentRangeTexts
  by_cases empty_ : getHead head httpContentRange [] = []
  · simp only [if_pos empty_]
    exact ⟨rfl, rfl⟩
  · simp only [if_neg empty_]
    cases split (getHead head httpContentRange []) space with
    | none => exact ⟨rfl, rfl⟩
    | some bv =>
      rcases bv with _ | ⟨unit, _ | ⟨span, _ | ⟨other, rest⟩⟩⟩
      · exact ⟨rfl, rfl⟩
      · exact ⟨rfl, rfl⟩
      · by_cases bytes : Util.find unit httpRangeByte 0 = none
        · simp only [Option.bind_eq_bind, Option.bind_some, if_pos bytes]
          exact ⟨rfl, rfl⟩
        · simp only [Option.bind_eq_bind, Option.bind_some, if_neg bytes]
          cases split span (ascii "/") with
          | none => exact ⟨rfl, rfl⟩
          | some vec =>
            rcases vec with _ | ⟨ends, _ | ⟨total, _ | ⟨other, rest⟩⟩⟩
            · exact ⟨rfl, rfl⟩
            · exact ⟨rfl, rfl⟩
            · simp only [Option.bind_some]
              cases split ends (ascii "-") with
              | none => exact ⟨rfl, rfl⟩
              | some texts =>
                refine ⟨rfl, ?_⟩
                show _ = some (contentLeftOf range (some (texts, total)))
                simp only [contentLeftOf]
                split
                · rfl
                · rfl
            · exact ⟨rfl, rfl⟩
      · exact ⟨rfl, rfl⟩

/-! ## What is left -/

/-- Where `get_range` or `get_content_range` returns true, the range it reads is the range it
leaves. -/
theorem left_of_true (head : σ) (range found : HttpRange) :
    (getRange head range = some (some found) → rangeLeft head range = some found) ∧
      (getContentRange head range = some (some found) →
        contentRangeLeft head range = some found) := by
  rw [(getRange_eq head range).1, (getRange_eq head range).2, (getContentRange_eq head range).1,
    (getContentRange_eq head range).2]
  constructor
  · rcases rangeTexts head with _ | _ | texts
    · nofun
    · nofun
    · simp only [Option.map_some, Option.bind_some, Option.some.injEq, leftOf, readEndpoints_eq]
      split
      · exact Option.some.inj
      · nofun
  · rcases contentRangeTexts head with _ | _ | ⟨texts, total⟩
    · nofun
    · nofun
    · simp only [Option.map_some, Option.bind_some, Option.some.injEq, contentLeftOf, readSpan,
        readEndpoints_eq, Option.bind_eq_bind]
      split
      · cases stoull total with
        | none => nofun
        | some size => exact Option.some.inj
      · nofun

/-- Where `get_range` or `get_content_range` returns false, the range is as it was. -/
def RejectedUnchanged (head : σ) (range : HttpRange) : Prop :=
  (getRange head range = some none → rangeLeft head range = some range) ∧
    (getContentRange head range = some none → contentRangeLeft head range = some range)

/-- Where `get_range` refuses a text, the range held what was assigned before. -/
def RangeRefusalKeeps (head : σ) (range : HttpRange) : Prop :=
  ∀ texts, rangeTexts head = some (some texts) → Refused texts → RefusalKeeps range texts

/-- Where `get_content_range` refuses a text, the range held what was assigned before: where that is
the size, both endpoints. -/
def ContentRefusalKeeps (head : σ) (range : HttpRange) : Prop :=
  ∀ texts total, contentRangeTexts head = some (some (texts, total)) →
    (Refused texts → RefusalKeeps range texts) ∧
      (¬ Refused texts → stoull total = none → BeginsAs range texts ∧ EndsAs range texts)

/-- No endpoints are read where one of them is refused. -/
theorem readEndpoints_eq_none_iff (range : HttpRange) (texts : List Bytes) :
    readEndpoints range texts = none ↔ Refused texts := by
  rw [readEndpoints_eq, ← endpointsLeft_refused_iff range texts]
  cases (endpointsLeft range texts).2 with
  | true => simp
  | false => simp

/-- `get_range` leaves a rejected range as it was just where the refusal keeps it. -/
theorem rangeRejected_iff (head : σ) (range : HttpRange) :
    (getRange head range = some none → rangeLeft head range = some range) ↔
      RangeRefusalKeeps head range := by
  rw [(getRange_eq head range).1, (getRange_eq head range).2, RangeRefusalKeeps]
  cases reached : rangeTexts head with
  | none => simp
  | some found =>
    cases found with
    | none => simp [leftOf]
    | some texts =>
      simp only [Option.map_some, Option.bind_some, Option.some.injEq, leftOf,
        readEndpoints_eq_none_iff, forall_eq']
      exact ⟨fun keeps refused => (endpointsLeft_keeps_iff range refused).mp (keeps refused),
        fun keeps refused => (endpointsLeft_keeps_iff range refused).mpr (keeps refused)⟩

/-- What `get_content_range` leaves behind a refused endpoint is what the endpoint texts left. -/
theorem contentLeftOf_refused (range : HttpRange) {texts : List Bytes} (refused : Refused texts)
    (total : Bytes) : readSpan range (texts, total) = none ∧
      contentLeftOf range (some (texts, total)) = (endpointsLeft range texts).1 := by
  have none_ := (readEndpoints_eq_none_iff range texts).mpr refused
  have stops := (endpointsLeft_refused_iff range texts).mpr refused
  constructor
  · rw [readSpan, none_]
    rfl
  · simp only [contentLeftOf, stops, Bool.false_eq_true, if_false]

/-- Behind endpoints that are read `get_content_range` reads the size, and leaves the endpoints as
they were read where that is no number. -/
theorem contentLeftOf_read (range : HttpRange) {texts : List Bytes} (read : ¬ Refused texts)
    (total : Bytes) : (readSpan range (texts, total) = none ↔ stoull total = none) ∧
      (stoull total = none →
        contentLeftOf range (some (texts, total)) = (endpointsLeft range texts).1) := by
  have goes : (endpointsLeft range texts).2 = true := by
    rw [← Bool.not_eq_false, endpointsLeft_refused_iff]
    exact read
  have endpoints : readEndpoints range texts = some (endpointsLeft range texts).1 := by
    rw [readEndpoints_eq, if_pos goes]
  simp only [readSpan, endpoints, contentLeftOf, goes, if_true]
  cases stoull total with
  | none => exact ⟨iff_of_true rfl rfl, fun _ => rfl⟩
  | some size => exact ⟨iff_of_false nofun nofun, nofun⟩

/-- `get_content_range` leaves a rejected range as it was just where the refusal keeps it. -/
theorem contentRejected_iff (head : σ) (range : HttpRange) :
    (getContentRange head range = some none → contentRangeLeft head range = some range) ↔
      ContentRefusalKeeps head range := by
  rw [(getContentRange_eq head range).1, (getContentRange_eq head range).2, ContentRefusalKeeps]
  cases reached : contentRangeTexts head with
  | none => simp
  | some found =>
    cases found with
    | none => simp [contentLeftOf]
    | some found =>
      obtain ⟨texts, total⟩ := found
      simp only [Option.map_some, Option.bind_some, Option.some.injEq, Prod.mk.injEq, and_imp,
        forall_eq', forall_apply_eq_imp_iff]
      by_cases refused : Refused texts
      · obtain ⟨none_, left⟩ := contentLeftOf_refused range refused total
        rw [left, endpointsLeft_keeps_iff range refused]
        simp only [none_, forall_const, refused, not_true_eq_false, false_imp_iff, and_true]
      · obtain ⟨rejects, left⟩ := contentLeftOf_read range refused total
        simp only [rejects, refused, not_false_eq_true, false_imp_iff, forall_const, true_and]
        apply forall_congr'
        intro noSize
        rw [left noSize, endpointsLeft_reads_iff range refused]

/-- A rejected range is left as it was just where, of either header, the fields that were assigned
before the text that is no number held these values already. -/
theorem rejectedUnchanged_iff (head : σ) (range : HttpRange) :
    RejectedUnchanged head range ↔
      RangeRefusalKeeps head range ∧ ContentRefusalKeeps head range :=
  and_congr (rangeRejected_iff head range) (contentRejected_iff head range)

/-- A head with the range `bytes=5-x`. -/
def rejectedHead : ListMultimap := addHead UnorderedMultimap.empty httpRange (ascii "bytes=5-x")

/-- The range `bytes=5-x` is rejected, and changes the range that is passed in. -/
theorem rejectedHead_changes : ¬ RejectedUnchanged rejectedHead {} := by
  intro unchanged
  have rejected : getRange rejectedHead {} = some none := by decide
  have changed : rangeLeft rejectedHead {} ≠ some {} := by decide
  exact changed (unchanged.1 rejected)

end Hnw.Http
