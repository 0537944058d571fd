import Hnw.Session.Conversation
import Hnw.Verif.Balance
import Hnw.Verif.Prepared
import Hnw.Verif.Requests

/-!
# What a client session sends

`pre_send` makes a request without a body into one that the parser of a server understands: the
headers stay, the session adds its own, and the one `Content-Length` is 0. So the requests of a
client session are frames.
-/

namespace Hnw.Http

open Hnw.Util Hnw.Util.UnorderedMultimap Hnw.Parser Hnw.Theory

variable {σ : Type} [UnorderedMultimap σ] {host : Bytes}

/-- A request that the session for a host may send: the words of the request line, clean headers
without a `Content-Length`, and an empty body; the `Host` that the session adds is clean too. -/
structure Deliverable (host : Bytes) (request : Request σ) : Prop where
  /-- The method is a word. -/
  method : Word request.line.method
  /-- The target is a word. -/
  target : Word request.line.url
  /-- The version is a word. -/
  version : Word request.line.version
  /-- The headers are clean. -/
  headers : ∀ entry ∈ toList request.head, CleanEntry entry
  /-- The host is clean. -/
  host : CleanEntry (httpHost, host)
  /-- The length is left to the session. -/
  length : getHeadCount request.head httpLen = 0
  /-- The body is empty. -/
  body : ∃ raw : RawBody, request.body = some (.raw raw) ∧ raw.readPos = 0 ∧ raw.body = []

/-- The head of a request after `pre_send`. -/
def preparedHead (host : Bytes) (request : Request σ) : σ :=
  merge (addHead request.head httpLen (decimal 0)) (Session.startedHead host) false

/-- What goes out for a request without a body. -/
def wireOf (host : Bytes) (request : Request σ) : WireRequest where
  method := request.line.method
  target := request.line.url
  version := request.line.version
  headers := toList (preparedHead host request)
  body := []

/-- The headers of a client session. -/
theorem mem_startedHead {entry : Entry} (member : entry ∈ toList (Session.startedHead host : σ)) :
    entry = (httpHost, host) ∨ entry = (httpUa, hnwHttpUa) ∨ entry = (httpAccept, acceptAll) ∨
      entry = (httpConn, httpConnClose) := by
  rcases mem_addSessionHead member with host | member
  · exact .inl host
  · rcases mem_addSessionHead member with connection | member
    · exact .inr (.inr (.inr connection))
    · rcases mem_addSessionHead member with accept | member
      · exact .inr (.inr (.inl accept))
      · rcases mem_addSessionHead member with agent | none
        · exact .inr (.inl agent)
        · rw [toList_empty] at none
          cases none

/-- A header of a client session is clean where the host is, and its name is short. -/
theorem startedHead_clean (clean : CleanEntry (httpHost, host)) {entry : Entry}
    (member : entry ∈ toList (Session.startedHead host : σ)) :
    CleanEntry entry ∧ ShortName entry := by
  rcases mem_startedHead member with rfl | rfl | rfl | rfl
  · exact ⟨clean, (by decide : httpHost.length + 2 < 2 ^ 31)⟩
  · decide
  · decide
  · decide

/-- A header of a request that goes out is one of the application's, or clean and short. -/
theorem mem_preparedHead (clean : CleanEntry (httpHost, host)) {request : Request σ}
    {entry : Entry}
    (member : entry ∈ toList (preparedHead host request)) :
    entry ∈ toList request.head ∨ CleanEntry entry ∧ ShortName entry := by
  rcases mem_merge.2 member with here | session
  · rcases mem_addHead.mp here with rfl | old
    · exact .inr (AddedEntry.clean (.inl rfl : AddedEntry 0 _))
    · exact .inl old
  · exact .inr (startedHead_clean clean session)

/-- The headers of the application stay. -/
theorem preparedHead_keeps {request : Request σ} {entry : Entry}
    (member : entry ∈ toList request.head) : entry ∈ toList (preparedHead host request) :=
  mem_merge.1 (mem_addHead.mpr (.inr member))

/-- A request that may be sent goes out as a request that is well formed. -/
theorem Deliverable.wellFormed {request : Request σ} (sends : Deliverable host request) :
    (wireOf host request).WellFormed where
  method := sends.method
  target := sends.target
  version := sends.version
  headers entry member := (mem_preparedHead sends.host member).elim (sends.headers entry) And.left
  length := by
    have one := addLength_filter sends.length (decimal 0)
    have merged := @merge_filter σ _ (addHead request.head httpLen (decimal 0))
      (Session.startedHead host)
      httpLen (by
        rw [getHeadCount, count, List.countP_eq_length_filter, one]
        exact Nat.one_ne_zero)
    rw [one] at merged
    exact List.perm_singleton.mp merged
  small := by
    show ((0 : Nat) : Int) ≤ rawBodyLimit
    decide

/-- `pre_send` of a request that may be sent. -/
theorem Deliverable.preSend {request : Request σ} (sends : Deliverable host request) :
    Session.preSendRequestOpen (Session.startedHead host) request =
      some ({ request with head := preparedHead host request }, false) := by
  obtain ⟨raw, present, _, empty⟩ := sends.body
  have size : (Body.raw raw).bodySize = 0 := by
    show raw.body.length = 0
    rw [empty]
    rfl
  rw [Session.preSendRequestOpen, Session.preSendRequest, Session.addLength, if_pos sends.length,
    present, Option.map_some, Option.map_some, Option.map_some, addHeadUint64, size]
  rw [← present]
  rfl

/-- What goes out for a request that may be sent. -/
theorem Deliverable.wire {request : Request σ} (sends : Deliverable host request)
    (fs : FileSystem) :
    requestWire fs (Session.startedHead host) request = (wireOf host request).wire := by
  obtain ⟨raw, present, _, empty⟩ := sends.body
  simp only [requestWire, Session.queuedWire, sends.preSend, Session.messageWire, present,
    Option.map_some, Option.getD_some, Body.content, empty, WireRequest.wire,
    WireRequest.startLine, wireOf, RequestLine.string, headString, space, List.append_assoc,
    List.cons_append, List.nil_append]

/-- No `split` of a server goes too far in a request. -/
def NearRequest (host : Bytes) (request : Request σ) : Prop := (wireOf host request).Near

/-- A request event with what the client sent: the method, the target and the version are read
from the request line as the parser does it, and the headers are those after `pre_send`. -/
def RequestComes {τ : Type} [UnorderedMultimap τ] (host : Bytes) (request : Request σ)
    (event : Event RequestLine τ) : Prop :=
  RequestArrives (wireOf host request) event

/-- The requests of a client session are frames. -/
theorem sentRequests_framing {τ : Type} [UnorderedMultimap τ] (surroundings : Surroundings)
    (holds : Bool) (files : Files) (fs : FileSystem) (host : Bytes) :
    Framing (callParserCb ⟨@httpRequestParser τ _, surroundings, holds⟩)
      (fresh ⟨httpRequestParser, surroundings, holds⟩ files [])
      (@requestWire σ _ fs (Session.startedHead host)) (Deliverable host)
      (NearRequest host)
      (fun request => RequestPuts (wireOf host request)) Stop.fault :=
  (requests_framing surroundings holds files).comap (wireOf host)
    (fun _ sends => sends.wire fs) fun _ sends => ⟨sends.wellFormed, rfl⟩

end Hnw.Http
