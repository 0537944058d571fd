import Hnw.Theory.Link
import Hnw.Verif.Responses

/-!
# Responses with any body

The bytes of a body that was not read yet may lie in memory or in a section of a file. On the wire
there is no difference, so a response with a file body is a frame as its copy in memory is.
-/

namespace Hnw.Http

open Hnw.Util Hnw.Util.UnorderedMultimap Hnw.Parser Hnw.Theory

variable {σ τ : Type} [UnorderedMultimap σ] [UnorderedMultimap τ] {fs : FileSystem}

/-- The same response with the bytes of its body in memory. -/
def inMemory (fs : FileSystem) (response : Response σ) : Response σ :=
  { response with
    body := response.body.map fun body => .raw { RawBody.generate with body := body.content fs } }

/-- A response that an application may send, whatever its body reads from. -/
structure Sendable (fs : FileSystem) (response : Response σ) : Prop where
  /-- Its copy in memory may be sent. -/
  transmits : Transmittable (inMemory fs response)
  /-- The body is not read yet, and all of it can be read. -/
  body : ∃ body, response.body = some body ∧ body.Fresh fs

/-- A body that was not read yet has as many bytes as it says. -/
theorem Body.Fresh.size {body : Body} (fresh : body.Fresh fs) :
    (body.content fs).length = body.bodySize := by
  cases body with
  | raw body => rfl
  | file body =>
    obtain ⟨_, file, present, size⟩ := fresh
    have inside := body.inside
    have ordered := body.ordered
    simp only [content, present, Option.map_some, Option.getD_some, List.extract_eq_take_drop,
      List.length_take, List.length_drop, bodySize, FileBody.bodySize]
    omega
  | empty => exact fresh.elim

/-- `pre_send` does the same to the copy. -/
theorem preSendResponse_inMemory {response : Response σ} {body : Body}
    (present : response.body = some body) (fresh : body.Fresh fs) (sessionHead : σ) :
    Session.preSendResponse sessionHead (inMemory fs response) =
      (Session.preSendResponse sessionHead response).map fun ready =>
        (inMemory fs ready.1, ready.2) := by
  have size : (Body.raw { RawBody.generate with body := body.content fs }).bodySize =
      body.bodySize := fresh.size
  have same : Session.addLength (inMemory fs response) =
      (Session.addLength response).map (inMemory fs) := by
    simp only [Session.addLength, inMemory, present, Option.map_some, size]
    split
    · rfl
    · simp only [inMemory, Option.map_some, present]
  rw [Session.preSendResponse, Session.preSendResponse, same, Option.map_map, Option.map_map]
  rfl

/-- A response that may be sent goes out as its copy in memory does. -/
theorem Sendable.wire {response : Response σ} (sends : Sendable fs response) (sessionHead : σ) :
    responseWire fs sessionHead response =
      responseWire fs sessionHead (inMemory fs response) := by
  obtain ⟨body, present, fresh⟩ := sends.body
  have copied := preSendResponse_inMemory present fresh sessionHead
  rw [responseWire, responseWire, Session.queuedWire, Session.queuedWire, copied]
  cases Session.preSendResponse sessionHead response with
  | none => rfl
  | some ready =>
    simp only [Option.map_some, Session.messageWire, inMemory, Option.map_map]
    rfl

/-- A response that is kept in memory may be sent if it is transmittable. -/
theorem Transmittable.sendable {response : Response σ} (sends : Transmittable response) :
    Sendable fs response := by
  obtain ⟨raw, present, unread, small⟩ := sends.body
  refine ⟨⟨sends.version, sends.statusCode, sends.reason, sends.headers, sends.length, ?_⟩,
    .raw raw, present, unread⟩
  refine ⟨{ RawBody.generate with body := raw.body }, ?_, rfl, small⟩
  show Option.map _ response.body = _
  rw [present]
  rfl

/-- A response event with what was sent. -/
def ResponseComes (fs : FileSystem) (response : Response σ) (event : Event ResponseLine τ) : Prop :=
  ResponseArrives (inMemory fs response) event

/-- The responses of a server session are frames, whatever their bodies read from. -/
theorem sentResponses_framing (surroundings : Surroundings) (holds : Bool) (files : Files)
    (fs : FileSystem) :
    Framing (callParserCb ⟨@httpResponseParser τ _, surroundings, holds⟩)
      (fresh ⟨httpResponseParser, surroundings, holds⟩ files [])
      (@responseWire σ _ fs Session.serverHead) (Sendable fs)
      (fun response => NearResponse (inMemory fs response))
      (fun response => ResponsePuts (inMemory fs response)) Stop.fault :=
  (responses_framing files).comap (inMemory fs)
    (fun _ sends => sends.wire Session.serverHead) fun _ sends => sends.transmits

end Hnw.Http
