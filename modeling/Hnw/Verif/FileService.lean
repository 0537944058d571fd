import Hnw.Example.FileService
import Hnw.Verif.Conversation
import Hnw.Verif.RangeHeader

/-!
# What the file service sends

A generated response has no body, so no page of the service can be written: what it sends with a
body is a section of a file. Over a connection the client gets just these sections, in the order of
its requests, and none for a request that does not pass the authentication.
-/

namespace Hnw.Example

open Hnw.Http Hnw.Util Hnw.Util.UnorderedMultimap Hnw.Parser Hnw.Theory

variable {σ τ : Type} [UnorderedMultimap σ] [UnorderedMultimap τ] {service : FileService}
  {machine : Machine} {platform : Platform} {fs : FileSystem}

/-! ## Clean headers -/

/-- What `set_content_range` prints is of one line and holds no colon. -/
theorem contentRangeValue_free (range : HttpRange) {byte : UInt8} (other : isDigit byte = false)
    (unit : byte ∉ httpRangeByte ++ space) (dash : byte ≠ hyphen) (whole : byte ≠ slash) :
    byte ∉ contentRangeValue range := by
  have start : byte ∉ decimal range.sectionStart.toNat := decimal_free _ other
  have stop : byte ∉ decimal range.sectionEnd.toNat := decimal_free _ other
  have total : byte ∉ decimal range.total.toNat := decimal_free _ other
  have line : ascii "-" = [hyphen] := by decide
  have separator : ascii "/" = [slash] := by decide
  rw [List.mem_append, not_or] at unit
  simp only [contentRangeValue, line, separator, List.mem_append, List.mem_singleton, not_or]
  exact ⟨⟨⟨⟨⟨unit, start⟩, dash⟩, stop⟩, whole⟩, total⟩

/-- A `Content-Range` is a clean header. -/
theorem contentRange_clean (range : HttpRange) :
    CleanEntry (httpContentRange, contentRangeValue range) := by
  have name : LineFree httpContentRange ∧ SeqFree httpContentRange := by decide
  have value : LineFree (contentRangeValue range) :=
    ⟨contentRangeValue_free range (by decide) (by decide) (by decide) (by decide),
      contentRangeValue_free range (by decide) (by decide) (by decide) (by decide)⟩
  have colons : colonByte ∉ contentRangeValue range :=
    contentRangeValue_free range (by decide) (by decide) (by decide) (by decide)
  exact ⟨⟨name.1, value⟩, name.2, seqFree_of_noColon colons⟩

/-- Every type of a file is a clean header. -/
theorem mime_clean (uri : Bytes) : CleanEntry (httpCt, getHttpMimeByUri uri octMime) := by
  have known : ∀ ext, CleanEntry (httpCt, httpMime ext octMime) := by
    intro ext
    rw [httpMime]
    split
    · rename_i entry found
      have member := List.mem_of_find?_eq_some found
      clear found
      revert member entry
      decide +kernel
    · decide
  rw [getHttpMimeByUri]
  split
  · exact known _
  · decide

/-! ## One response -/

/-- The section that a range selects lies in the file. -/
def Inside (file : File) (range : HttpRange) : Prop :=
  FileBody.firstPos range ≤ servedLast file.bytes.length range ∧
    servedLast file.bytes.length range < file.bytes.length

/-- What `set_file_body` leaves where it returns true: the section lies in the file, the line stays,
the headers are those of before, the `Content-Range` and perhaps a type. -/
structure SetsFile (fs : FileSystem) (file : File) (range : HttpRange)
    (response sent : Response τ) : Prop where
  /-- The section lies in the file. -/
  inside : Inside file range
  /-- The line stays. -/
  line : sent.line = response.line
  /-- Where a header comes from. -/
  headers : ∀ entry ∈ toList sent.head, entry ∈ toList response.head ∨
    entry = (httpContentRange,
      contentRangeValue { range with total := UInt64.ofNat file.bytes.length }) ∨
    ∃ path, entry = (httpCt, getHttpMimeByUri path octMime)
  /-- There is one `Content-Range`. -/
  contentRange : (toList sent.head).filter (·.1 = httpContentRange) = [(httpContentRange,
    contentRangeValue { range with total := UInt64.ofNat file.bytes.length })]
  /-- No length is added. -/
  length : getHeadCount response.head httpLen = 0 → getHeadCount sent.head httpLen = 0
  /-- The body is the section. -/
  body : ∃ body, sent.body = some body ∧ body.Fresh fs ∧ body.content fs =
    file.bytes.extract (FileBody.firstPos range) (servedLast file.bytes.length range + 1)

/-- A head behind `del_head` and `add_head` of one key. -/
theorem mem_replaceHead {head : τ} {key value : Bytes} {entry : Entry}
    (member : entry ∈ toList (addHead (delHead head key) key value)) :
    entry ∈ toList head ∨ entry = (key, value) := by
  rcases mem_addHead.mp member with rfl | old
  · exact .inr rfl
  · exact .inl (List.mem_of_mem_filter ((toList_erase head key) ▸ old))

/-- `set_file_body` of an existing file. -/
theorem setFileBody_true {file : File} {path : Bytes} {range : HttpRange}
    {response sent : Response τ} {left : FileSystem} (present : fs path = some file)
    (returns : Response.setFileBody platform fs response path range flagOpen =
      (true, sent, left)) : SetsFile fs file range response sent := by
  have inside := @FileBody.initSection_isSome_iff path _ flagOpen file.small range
  rw [Response.setFileBody, FileBody.generate_open platform present] at returns
  cases opened : FileBody.initSection path file.bytes.length range flagOpen with
  | none =>
    rw [opened] at returns
    cases returns
  | some body =>
    rw [opened] at returns inside
    obtain ⟨_, size, _⟩ := FileBody.initSection_spec opened
    have within := inside.mp rfl
    obtain ⟨head, chosen, one, same⟩ := fileHead_spec response.head
      { range with total := UInt64.ofNat body.size } (getHttpMimeByUri path octMime)
    simp only [chosen, Prod.mk.injEq, true_and] at returns
    obtain ⟨rfl, rfl⟩ := returns
    rw [size] at one
    refine ⟨within, rfl, ?_, one, ?_, .file body, rfl,
      FileBody.initSection_content present opened⟩
    · intro entry member
      show _ ∨ _ ∨ _
      rw [← chosen, setContentRange_eq] at member
      split at member
      · rcases mem_addHead.mp member with rfl | old
        · exact .inr (.inr ⟨path, rfl⟩)
        · exact (mem_replaceHead old).imp id fun here => .inl (by rw [here, size])
      · exact (mem_replaceHead member).imp id fun here => .inl (by rw [here, size])
    · intro absent
      rw [getHeadCount_eq] at absent ⊢
      rw [same.length_eq, absent]

/-! ## One request -/

/-- The status code of an answer to a request with this range. -/
def statusOf (range : Option HttpRange) : Bytes :=
  if range.isSome then ascii "206" else ascii "200"

/-- The response before its file is set. -/
def opened (head : σ) (range : Option HttpRange) : Response τ where
  line := (({} : ResponseLine)).setStatusCode (statusOf range)
  head := setKeepAlive empty (keepAlive head)
  body := none

/-- A request passes the authentication of the service. -/
def Admitted (service : FileService) (machine : Machine) (line : RequestLine) (head : σ) : Prop :=
  service.authMode = .noneAuth ∨ ∃ auth, getAuthorization head = some auth ∧
    checkAuthOf machine.md5 auth service.password line.method = true

/-- A request that the service answers with this range of this file. -/
structure AsksFile (service : FileService) (machine : Machine) (fs : FileSystem)
    (line : RequestLine) (head : σ) (file : File) (range : Option HttpRange) : Prop where
  /-- It passes the authentication. -/
  admitted : Admitted service machine line head
  /-- It asks for no page. -/
  action : getQuery line (ascii "action") = [] ∨ getQuery line (ascii "action") = ascii "donwload"
  /-- The decoded path names the file. -/
  names : ∃ decoded, urlDecode line.path = some decoded ∧
    machine.isDirectory (service.fileDir ++ machine.utf8ToAnsi decoded) = false ∧
    fs (service.fileDir ++ machine.utf8ToAnsi decoded) = some file
  /-- The range is the one that `get_range` reads. -/
  range : getRange head {} = some range

/-- No page is written to a response without a body. -/
theorem responseHtmlPage_null {response sent : Response τ} (null : response.body = none)
    (html : Bytes) : responseHtmlPage fs response html ≠ .response sent := by
  rw [responseHtmlPage, null]
  split
  · intro same
    cases same
  · intro same
    cases same

/-- `set_file_body` that returns false leaves the response as it is. -/
theorem setFileBody_false {path : Bytes} {range : HttpRange} {flag : FileFlag}
    {response sent : Response τ} {left : FileSystem}
    (returns : Response.setFileBody platform fs response path range flag = (false, sent, left)) :
    sent = response := by
  rw [Response.setFileBody] at returns
  cases made : FileBody.generate platform fs path range flag with
  | mk body files =>
    rw [made] at returns
    cases body with
    | none =>
      cases returns
      rfl
    | some body => cases returns

/-- What `on_request` sends of a response without a body is a section of the file. -/
theorem onRequest_sends {line : RequestLine} {head : σ} {response sent : Response τ}
    (null : response.body = none) (admitted : Admitted service machine line head)
    (sends : onRequest service machine platform fs line head response = .response sent) :
    ∃ file range, AsksFile service machine fs line head file range ∧
      SetsFile fs file (range.getD {})
        { response with line := response.line.setStatusCode (statusOf range) } sent := by
  have noPage := fun html => @responseHtmlPage_null τ _ fs response sent null html
  rw [onRequest] at sends
  cases read : urlDecode line.path with
  | none =>
    rw [read] at sends
    cases sends
  | some decoded =>
    simp only [read] at sends
    split at sends
    · exact absurd sends (noPage _)
    · rename_i there
      split at sends
      · rename_i action
        split at sends
        · exact absurd sends (noPage _)
        · rename_i regular
          cases found : fs (service.fileDir ++ machine.utf8ToAnsi decoded) with
          | none =>
            rw [found] at there
            exact absurd ⟨Bool.eq_false_of_not_eq_true regular, rfl⟩ there
          | some file =>
            rw [responseFile] at sends
            cases ranged : getRange head {} with
            | none =>
              rw [ranged] at sends
              cases sends
            | some range =>
              simp only [ranged] at sends
              split at sends
              · rename_i sent' left returns
                cases sends
                exact ⟨file, range,
                  ⟨admitted, action, ⟨decoded, read, Bool.eq_false_of_not_eq_true regular, found⟩,
                    ranged⟩, setFileBody_true found returns⟩
              · rename_i sent' left returns
                have same := setFileBody_false returns
                rw [same] at sends
                exact absurd sends (responseHtmlPage_null null _)
      · split at sends
        · exact absurd sends (noPage _)
        · exact absurd sends (noPage _)

/-- What the service sends with a body is a section of the file that the request asks for. -/
theorem httpEventCb_sends {line : RequestLine} {head : σ} {sent : Response τ} {body : Body}
    (sends : httpEventCb service machine platform fs line head = .response sent)
    (present : sent.body = some body) :
    ∃ file range, AsksFile service machine fs line head file range ∧
      SetsFile fs file (range.getD {}) (opened head range) sent := by
  have asks : ∀ response : Response τ, response.body = none →
      .response (askAuth service machine response) ≠ Handled.response sent := by
    intro response null same
    cases same
    have nothing : (askAuth service machine response).body = none := null
    rw [nothing] at present
    cases present
  rw [httpEventCb] at sends
  simp only at sends
  split at sends
  · rename_i free
    exact onRequest_sends rfl (.inl free) sends
  · cases given : getAuthorization head with
    | none =>
      rw [given] at sends
      cases sends
    | some auth =>
      simp only [given] at sends
      split at sends
      · exact absurd sends (asks _ rfl)
      · split at sends
        · exact absurd sends (asks _ rfl)
        · rename_i passes
          exact onRequest_sends rfl
            (.inr ⟨auth, given, Bool.eq_true_of_not_eq_false passes⟩) sends

/-- The status lines of the service are made of words. -/
theorem statusOf_line (range : Option HttpRange) :
    Word (({} : ResponseLine).setStatusCode (statusOf range)).statusCode ∧
      LineFree (({} : ResponseLine).setStatusCode (statusOf range)).reason := by
  rw [statusOf]
  split
  · decide
  · decide

/-- The one header of a response before its file is set. -/
theorem mem_opened {head : σ} {range : Option HttpRange} {entry : Entry}
    (member : entry ∈ toList (opened head range : Response τ).head) :
    CleanEntry entry ∧ entry.1 = httpConn := by
  rcases mem_replaceHead member with none | rfl
  · rw [toList_empty] at none
    cases none
  · split
    · exact ⟨by decide, rfl⟩
    · exact ⟨by decide, rfl⟩

/-- A response with a section of a file may be sent, where the section may be kept in memory. -/
theorem SetsFile.sendable {file : File} {head : σ} {range : Option HttpRange} {sent : Response τ}
    (sets : SetsFile fs file (range.getD {}) (opened head range) sent)
    (small : (file.bytes.length : Int) ≤ rawBodyLimit) : Sendable fs sent := by
  obtain ⟨body, present, fresh, content⟩ := sets.body
  obtain ⟨code, reason⟩ := statusOf_line range
  have absent : getHeadCount (opened head range : Response τ).head httpLen = 0 := by
    rw [getHeadCount, count_eq_zero]
    intro entry member same
    have other := (mem_opened member).2
    rw [same] at other
    exact absurd other (by decide)
  refine ⟨⟨?_, ?_, ?_, ?_, sets.length absent, ?_⟩, body, present, fresh⟩
  · show Word sent.line.version
    rw [sets.line]
    exact (by decide : Word (ascii "HTTP/1.1"))
  · show Word sent.line.statusCode
    rw [sets.line]
    exact code
  · show LineFree sent.line.reason
    rw [sets.line]
    exact reason
  · intro entry member
    rcases sets.headers entry member with old | rfl | ⟨path, rfl⟩
    · exact (mem_opened old).1
    · exact contentRange_clean _
    · exact mime_clean path
  · refine ⟨{ RawBody.generate with body := body.content fs }, ?_, rfl, ?_⟩
    · show Option.map _ sent.body = _
      rw [present]
      rfl
    · obtain ⟨ordered, fits⟩ := sets.inside
      show ((body.content fs).length : Int) ≤ rawBodyLimit
      rw [content, List.extract_eq_take_drop, List.length_take, List.length_drop]
      omega

/-! ## A connection -/

/-- What the service may answer to a request. -/
def FileService.Answers (service : FileService) (machine : Machine) (place : Place)
    (request : Event RequestLine τ) (response : Response τ) : Prop :=
  ∃ line head body, request = .recv line head body ∧
    httpEventCb service machine place.serverSide.platform place.serverFs line head =
      .response response

/-- A response event with a section of a file: the code, the one `Content-Range` value and the
bytes. -/
def HoldsSection (file : File) (range : Option HttpRange) (event : Event ResponseLine σ) : Prop :=
  let first := FileBody.firstPos (range.getD {})
  let last := servedLast file.bytes.length (range.getD {})
  first ≤ last ∧ last < file.bytes.length ∧
    ∃ line head, event = .recv line head (file.bytes.extract first (last + 1)) ∧
      line.statusCode = statusOf range ∧
      ∀ other, (httpContentRange, other) ∈ toList head ↔
        other = contentRangeText first last file.bytes.length

/-- A request came to the service, passed its authentication and asked for a file, and the event
holds the section of the file. -/
def SectionComes (τ : Type) [UnorderedMultimap τ] (service : FileService) (machine : Machine)
    (fs : FileSystem) (host : Bytes) (request : Request σ) (event : Event ResponseLine σ) : Prop :=
  ∃ (line : RequestLine) (head : τ) (body : Bytes) (file : File) (range : Option HttpRange),
    RequestComes host request (.recv line head body) ∧
      AsksFile service machine fs line head file range ∧ HoldsSection file range event

/-- The `Content-Range` of a response is the one that arrives. -/
theorem contentRange_arrives {response ready : Response τ} {close : Bool} {head : σ}
    (sends : Transmittable response)
    (made : Session.preSendResponse Session.serverHead response = some (ready, close))
    (same : (toList head).Perm (toList ready.head)) {value : Bytes}
    (one : (toList response.head).filter (·.1 = httpContentRange) = [(httpContentRange, value)])
    (other : Bytes) : (httpContentRange, other) ∈ toList head ↔ other = value := by
  obtain ⟨_, _, raw, made', prepared, _⟩ := preSendResponse_prepared sends
  rw [made] at made'
  cases made'
  have old : ∀ text, (httpContentRange, text) ∈ toList response.head ↔ text = value := by
    intro text
    have member : (httpContentRange, text) ∈
        (toList response.head).filter (·.1 = httpContentRange) ↔
          (httpContentRange, text) ∈ toList response.head := by
      rw [List.mem_filter]
      simp
    rw [← member, one, List.mem_singleton, Prod.mk.injEq]
    simp
  rw [same.mem_iff, ← old other]
  constructor
  · intro member
    rcases prepared.adds _ member with old | length | type | accept | connection
    · exact old
    · exact absurd (congrArg Prod.fst length) (by decide : httpContentRange ≠ httpLen)
    · exact absurd (congrArg Prod.fst type) (by decide : httpContentRange ≠ httpCt)
    · exact absurd (congrArg Prod.fst accept) (by decide : httpContentRange ≠ httpAccept)
    · exact absurd (congrArg Prod.fst connection) (by decide : httpContentRange ≠ httpConn)
  · exact prepared.keeps _

/-- A section of a file arrives as it was sent. -/
theorem SetsFile.arrives {file : File} {head : τ} {range : Option HttpRange} {sent : Response τ}
    {event : Event ResponseLine σ}
    (sets : SetsFile fs file (range.getD {}) (opened head range) sent)
    (small : (file.bytes.length : Int) ≤ rawBodyLimit) (comes : ResponseComes fs sent event) :
    HoldsSection file range event := by
  obtain ⟨line, arrived, bytes, ready, close, made, _, code, same, content, rfl⟩ := comes
  obtain ⟨body, present, _, section_⟩ := sets.body
  obtain ⟨ordered, fits⟩ := sets.inside
  have bytes_ : bytes = file.bytes.extract (FileBody.firstPos (range.getD {}))
      (servedLast file.bytes.length (range.getD {}) + 1) := by
    rw [← section_]
    have whole : (inMemory fs sent).body =
        some (.raw { RawBody.generate with body := body.content fs }) := by
      show Option.map _ sent.body = _
      rw [present]
      rfl
    rw [whole, Option.map_some, Option.some.injEq] at content
    exact content.symm
  have one := sets.contentRange
  rw [contentRangeValue_eq file.small (by omega)] at one
  refine ⟨ordered, fits, line, arrived, by rw [bytes_], ?_,
    contentRange_arrives (sets.sendable small).transmits made same one⟩
  rw [code]
  show sent.line.statusCode = _
  rw [sets.line]
  rfl

/-- Every file is small enough to be received into memory. -/
def SmallFiles (fs : FileSystem) : Prop :=
  ∀ path file, fs path = some file → (file.bytes.length : Int) ≤ rawBodyLimit

/-- A request is answered with the section of a file it asks for. -/
def Serves (service : FileService) (machine : Machine) (fs : FileSystem)
    (request : Event RequestLine τ) (sent : Response τ) : Prop :=
  ∃ line head body file range, request = .recv line head body ∧
    AsksFile service machine fs line head file range ∧
    SetsFile fs file (range.getD {}) (opened head range) sent

section Connection

variable {place : Place} {c : Conversation σ τ}

/-- All that the service sent over a connection are sections of files. -/
theorem fileService_serves
    (reached : (conversation place (service.Answers machine place)).Reachable c) :
    List.Forall₂ (Serves service machine place.serverFs) (c.requests.take c.answered)
      c.server.sent := by
  have answers : List.Forall₂ (flip (service.Answers machine place)) c.server.sent
      (c.requests.take c.answered) := (conversation_inv reached).answers.flip
  have bodies := (List.forall₂_and_left _ _).mpr ⟨conversation_bodies reached, answers⟩
  apply List.Forall₂.flip
  apply bodies.imp
  intro sent request both
  obtain ⟨⟨body, present, _⟩, line, head, content, rfl, handled⟩ := both
  obtain ⟨file, range, asks, sets⟩ := httpEventCb_sends handled present
  exact ⟨line, head, content, file, range, rfl, asks, sets⟩

/-- The responses that reach the client of a file service are sections of files, each the one that
its request asks for as it came; the requests are the first ones that were sent. -/
theorem sections_come (small : SmallFiles place.serverFs)
    (reached : (conversation place (service.Answers machine place)).Reachable c)
    (sends : ∀ request ∈ c.client.sent, Deliverable place.host request) :
    List.Forall₂ (SectionComes τ service machine place.serverFs place.host)
      (c.client.sent.take c.responses.length) c.responses := by
  have serves := fileService_serves reached
  have turned : List.Forall₂ (flip (Serves service machine place.serverFs)) c.server.sent
      (c.requests.take c.answered) := serves.flip
  have both : List.Forall₂ (fun sent _ => Sendable place.serverFs sent ∧ True) c.server.sent
      (c.requests.take c.answered) := by
    apply turned.imp
    intro sent request ⟨line, head, body, file, range, _, asks, sets⟩
    obtain ⟨decoded, _, _, found⟩ := asks.names
    exact ⟨sets.sendable (small _ _ found), trivial⟩
  have transmits : ∀ response ∈ c.server.sent, Sendable place.serverFs response :=
    ((List.forall₂_and_left _ _).mp both).1
  have inv : ConversationInv place (Serves service machine place.serverFs) c :=
    { conversation_inv reached with answers := serves }
  apply (inv.answersTo sends transmits).imp
  intro request event
    ⟨asked, answer, came, ⟨line, head, body, file, range, same, asks, sets⟩, comes⟩
  obtain ⟨decoded, _, _, found⟩ := asks.names
  rw [same] at came
  exact ⟨line, head, body, file, range, came, asks, sets.arrives (small _ _ found) comes⟩

end Connection

end Hnw.Example
