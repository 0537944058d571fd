import Hnw.Verif.Reading
import Hnw.Verif.SendServer

/-!
# The head that a server session sends

`pre_send` adds the length of the body, a content type and the headers of the session, and keeps
what the application set.
-/

namespace Hnw.Http

open Hnw.Util Hnw.Util.UnorderedMultimap Hnw.Theory

/-! ## Merging -/

section Head

variable {σ : Type} [UnorderedMultimap σ]

/-- Adding a header adds its entry. -/
theorem mem_addHead {head : σ} {key value : Bytes} {entry : Entry} :
    entry ∈ toList (addHead head key value) ↔ entry = (key, value) ∨ entry ∈ toList head :=
  mem_insert

/-- A header of a session's head was added to it. -/
theorem mem_addSessionHead {head : σ} {key value : Bytes} {entry : Entry}
    (member : entry ∈ toList (Session.addSessionHead head key value)) :
    entry = (key, value) ∨ entry ∈ toList head := by
  rw [Session.addSessionHead, mem_addHead, delHead, toList_erase] at member
  rcases member with same | kept
  · exact .inl same
  · exact .inr (List.mem_of_mem_filter kept)

/-- One step of a merge that overwrites nothing keeps the head or adds the entry. -/
theorem mergeOne_cases (head : σ) (entry : Entry) :
    mergeOne false head entry = head ∨
      mergeOne false head entry = addHead head entry.1 entry.2 := by
  unfold mergeOne
  split
  · exact .inl rfl
  · exact .inr rfl

/-- A merge that overwrites nothing keeps what is there, and adds entries of the other head. -/
theorem mem_merge {head other : σ} {entry : Entry} :
    (entry ∈ toList head → entry ∈ toList (merge head other false)) ∧
      (entry ∈ toList (merge head other false) → entry ∈ toList head ∨ entry ∈ toList other) := by
  unfold merge
  generalize toList other = entries
  induction entries generalizing head with
  | nil => exact ⟨id, .inl⟩
  | cons first entries ih =>
    rw [List.foldl_cons]
    obtain ⟨keeps, adds⟩ := @ih (mergeOne false head first)
    rcases mergeOne_cases head first with same | added
    · rw [same] at keeps adds ⊢
      exact ⟨keeps, fun member => (adds member).imp id (List.mem_cons_of_mem first)⟩
    · rw [added] at keeps adds ⊢
      refine ⟨fun member => keeps (mem_addHead.mpr (.inr member)), fun member => ?_⟩
      rcases adds member with here | later
      · rcases mem_addHead.mp here with rfl | before
        · exact .inr (by simp)
        · exact .inl before
      · exact .inr (List.mem_cons_of_mem first later)

/-- Adding a header of another key keeps the entries of a key. -/
theorem addHead_filter (head : σ) {key name : Bytes} (other : name ≠ key) (value : Bytes) :
    ((toList (addHead head name value)).filter (·.1 = key)).Perm
      ((toList head).filter (·.1 = key)) := by
  have added := (toList_insert head (name, value)).filter (·.1 = key)
  rwa [List.filter_cons_of_neg (by simpa using other)] at added

/-- A step of a merge that overwrites nothing keeps the entries of a key that occurs. -/
theorem mergeOne_filter {head : σ} {key : Bytes} (present : getHeadCount head key ≠ 0)
    (entry : Entry) :
    ((toList (mergeOne false head entry)).filter (·.1 = key)).Perm
      ((toList head).filter (·.1 = key)) := by
  unfold mergeOne
  split
  · exact .refl _
  · next absent =>
    apply addHead_filter head
    rintro rfl
    exact absent present

/-- A merge that overwrites nothing keeps the entries of a key that occurs. -/
theorem merge_filter {head other : σ} {key : Bytes} (present : getHeadCount head key ≠ 0) :
    ((toList (merge head other false)).filter (·.1 = key)).Perm
      ((toList head).filter (·.1 = key)) := by
  unfold merge
  generalize toList other = entries
  induction entries generalizing head with
  | nil => exact .refl _
  | cons first entries ih =>
    rw [List.foldl_cons]
    have same := mergeOne_filter present first
    have still : getHeadCount (mergeOne false head first) key ≠ 0 := by
      intro none
      apply present
      rw [getHeadCount, count, List.countP_eq_length_filter] at none ⊢
      rw [← same.length_eq]
      exact none
    exact (ih still).trans same

end Head

open Hnw.Parser

/-! ## `pre_send` -/

/-- A number has no byte but digits. -/
theorem not_mem_decimal {n : Nat} {byte : UInt8} (other : isDigit byte = false) :
    byte ∉ decimal n := by
  intro member
  rw [decimal_digits n byte member] at other
  cases other

/-- A number is a clean value of a header. -/
theorem decimal_clean (n : Nat) : LineFree (decimal n) ∧ SeqFree (decimal n) := by
  refine ⟨⟨not_mem_decimal (by decide), not_mem_decimal (by decide)⟩, fun pos occurs => ?_⟩
  have colon : colonByte ∈ (decimal n).drop pos := occurs.subset (by decide)
  exact absurd (List.mem_of_mem_drop colon) (not_mem_decimal (by decide))

/-- A header that the session adds to a response with a body of this size. -/
def AddedEntry (size : Nat) (entry : Entry) : Prop :=
  entry = (httpLen, decimal size) ∨ entry = (httpCt, htmlMime) ∨
    entry = (httpAccept, acceptAll) ∨ entry = (httpConn, httpConnClose)

/-- The headers that the session adds are clean, and their names are short. -/
theorem AddedEntry.clean {size : Nat} {entry : Entry} (added : AddedEntry size entry) :
    CleanEntry entry ∧ ShortName entry := by
  obtain ⟨lineFree, seqFree⟩ := decimal_clean size
  rcases added with rfl | rfl | rfl | rfl
  · have name : LineFree httpLen ∧ SeqFree httpLen ∧ httpLen.length + 2 < 2 ^ 31 := by decide
    exact ⟨⟨⟨name.1, lineFree⟩, name.2.1, seqFree⟩, name.2.2⟩
  · decide
  · decide
  · decide

section Prepared

variable {σ : Type} [UnorderedMultimap σ]

/-- The headers of a server session. -/
theorem mem_serverHead {entry : Entry} (member : entry ∈ toList (Session.serverHead : σ)) :
    entry = (httpAccept, acceptAll) ∨ entry = (httpConn, httpConnClose) := by
  rcases mem_addSessionHead member with connection | member
  · exact .inr connection
  · rcases mem_addSessionHead member with accept | none
    · exact .inl accept
    · rw [toList_empty] at none
      cases none

/-- A response that an application may send: the words of the status line, clean headers without
a `Content-Length`, and an unread body that is kept in memory. -/
structure Transmittable (response : Response σ) : Prop where
  /-- The version is a word. -/
  version : Word response.line.version
  /-- The status code is a word. -/
  statusCode : Word response.line.statusCode
  /-- The reason is a text of one line. -/
  reason : LineFree response.line.reason
  /-- The headers are clean. -/
  headers : ∀ entry ∈ toList response.head, CleanEntry entry
  /-- The length is left to the session. -/
  length : getHeadCount response.head httpLen = 0
  /-- The body is raw, not yet read and not too large. -/
  body : ∃ raw : RawBody, response.body = some (.raw raw) ∧ raw.readPos = 0 ∧
    (raw.body.length : Int) ≤ rawBodyLimit

/-- What `pre_send` makes of a response. -/
structure Prepared (response ready : Response σ) (raw : RawBody) : Prop where
  /-- The line stays. -/
  line : ready.line = response.line
  /-- The body stays. -/
  body : ready.body = some (.raw raw)
  /-- The headers stay. -/
  keeps : ∀ entry ∈ toList response.head, entry ∈ toList ready.head
  /-- Other headers are added by the session. -/
  adds : ∀ entry ∈ toList ready.head, entry ∈ toList response.head ∨
    AddedEntry raw.body.length entry
  /-- There is one `Content-Length`, the size of the body. -/
  length : (toList ready.head).filter (·.1 = httpLen) = [(httpLen, decimal raw.body.length)]

/-- The length is added where there was none, and is the only one. -/
theorem addLength_filter {head : σ} (absent : getHeadCount head httpLen = 0) (value : Bytes) :
    (toList (addHead head httpLen value)).filter (·.1 = httpLen) = [(httpLen, value)] := by
  have none : ∀ entry ∈ toList head, entry.1 ≠ httpLen := count_eq_zero.mp absent
  have old : (toList head).filter (·.1 = httpLen) = [] :=
    List.filter_eq_nil_iff.mpr fun entry member => by simpa using none entry member
  have added := (toList_insert head (httpLen, value)).filter (·.1 = httpLen)
  rw [List.filter_cons_of_pos (by simp), old] at added
  exact List.perm_singleton.mp added

/-- The default content type keeps the headers, adds itself alone and touches no length. -/
theorem defaultType_spec (head : σ) :
    ∃ typed : σ,
      (if getHeadCount head httpCt = 0 then addHead head httpCt htmlMime else head) = typed ∧
        (∀ entry ∈ toList head, entry ∈ toList typed) ∧
        (∀ entry ∈ toList typed, entry = (httpCt, htmlMime) ∨ entry ∈ toList head) ∧
        ((toList typed).filter (·.1 = httpLen)).Perm ((toList head).filter (·.1 = httpLen)) := by
  split
  · exact ⟨_, rfl, fun _ member => mem_addHead.mpr (.inr member), fun _ => mem_addHead.mp,
      addHead_filter head (by decide) htmlMime⟩
  · exact ⟨_, rfl, fun _ => id, fun _ => .inr, .refl _⟩

/-- `pre_send` keeps a response but for its head, adds a length and perhaps a content type, and
merges the head of the session, whatever it is: the length stays the only one. -/
theorem preSendResponse_spec {response : Response σ} {body : Body}
    (absent : getHeadCount response.head httpLen = 0) (present : response.body = some body)
    (sessionHead : σ) :
    ∃ typed close, Session.preSendResponse sessionHead response =
        some ({ response with head := merge typed sessionHead false }, close) ∧
      (∀ entry ∈ toList response.head, entry ∈ toList typed) ∧
      (∀ entry ∈ toList typed, entry = (httpLen, decimal body.bodySize) ∨
        entry = (httpCt, htmlMime) ∨ entry ∈ toList response.head) ∧
      (toList (merge typed sessionHead false)).filter (·.1 = httpLen) =
        [(httpLen, decimal body.bodySize)] := by
  have sized : Session.addLength response =
      some { response with head := addHead response.head httpLen (decimal body.bodySize) } := by
    rw [Session.addLength, if_pos absent, present]
    rfl
  have one := addLength_filter absent (decimal body.bodySize)
  obtain ⟨typed, chosen, keeps, adds, same⟩ :=
    defaultType_spec (addHead response.head httpLen (decimal body.bodySize))
  rw [one] at same
  have single : (toList typed).filter (·.1 = httpLen) = [(httpLen, decimal body.bodySize)] :=
    List.perm_singleton.mp same
  have merged := @merge_filter σ _ typed sessionHead httpLen (by
    rw [getHeadCount, count, List.countP_eq_length_filter, single]
    exact Nat.one_ne_zero)
  rw [single] at merged
  have made : ∃ close, Session.preSendResponse sessionHead response =
      some ({ response with head := merge typed sessionHead false }, close) := by
    rw [Session.preSendResponse, sized, Option.map_some]
    simp only [chosen]
    exact ⟨_, rfl⟩
  obtain ⟨close, made⟩ := made
  refine ⟨typed, close, made, ?_, ?_, List.perm_singleton.mp merged⟩
  · intro entry member
    exact keeps entry (mem_addHead.mpr (.inr member))
  · intro entry member
    rcases adds entry member with type | before
    · exact .inr (.inl type)
    · exact (mem_addHead.mp before).imp id .inr

/-- A response that may be sent is made ready. -/
theorem preSendResponse_prepared {response : Response σ} (sends : Transmittable response) :
    ∃ ready close raw, Session.preSendResponse Session.serverHead response = some (ready, close) ∧
      Prepared response ready raw ∧ response.body = some (.raw raw) ∧ raw.readPos = 0 ∧
      (raw.body.length : Int) ≤ rawBodyLimit := by
  obtain ⟨raw, present, unread, small⟩ := sends.body
  obtain ⟨typed, close, made, keeps, adds, length⟩ :=
    preSendResponse_spec sends.length present Session.serverHead
  refine ⟨_, close, raw, made, ⟨rfl, present, ?_, ?_, length⟩, present, unread, small⟩
  · intro entry member
    exact mem_merge.1 (keeps entry member)
  · intro entry member
    rcases mem_merge.2 member with here | session
    · rcases adds entry here with length | type | old
      · exact .inr (.inl length)
      · exact .inr (.inr (.inl type))
      · exact .inl old
    · rcases mem_serverHead session with accept | connection
      · exact .inr (.inr (.inr (.inl accept)))
      · exact .inr (.inr (.inr (.inr connection)))

end Prepared

end Hnw.Http
