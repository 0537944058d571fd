import Hnw.Verif.Conversation
import Hnw.Verif.Receive

/-!
# From the transport to the parser

What a receive loop tells goes to `recv_data`, chunk by chunk. A channel that was established once
is a link as the conversation of a client and a server takes it: its parser is delivered a
beginning of the stream in some chunks. So what a session sends at one end is handed over at the
other, whatever the buffers, the time-outs and the threads do.
-/

namespace Hnw.Base

open Hnw.Http Hnw.Util Hnw.Parser Hnw.Theory

variable {σ τ : Type} [UnorderedMultimap σ] [UnorderedMultimap τ] {channel : ReceiveChannel}
  {r : Receiving}

/-- What was told is a beginning of what arrived. -/
theorem receiving_begins (reached : (receiving channel).Reachable r)
    (once : r.events.countP ReceiveEvent.begins ≤ 1) : r.chunks.flatten <+: r.stream := by
  have order := (receiving_order reached once).order
  have front : r.chunks.flatten <+: r.stream.take r.taken := by
    rw [← order]
    exact List.prefix_append _ _
  exact front.trans (List.take_prefix _ _)

/-- A parser that is given what a receive loop tells is the end of a link. -/
theorem receiving_carries {ι κ : Type} [UnorderedMultimap κ] {setting : Setting ι κ}
    {start : ParserState ι κ} (reached : (receiving channel).Reachable r)
    (once : r.events.countP ReceiveEvent.begins ≤ 1)
    {o : Outcome (ParserState ι κ) (Event ι κ) Stop}
    (given : inputChunks setting start r.chunks = some o) :
    (⟨r.chunks.flatten.length, o.state, o.out, o.stop.any Stop.fatal⟩ :
      Link (ParserState ι κ) (Event ι κ)).Carries (callParserCb setting) Stop.fatal start
        r.stream := by
  have begins := receiving_begins reached once
  have told := List.prefix_iff_eq_take.mp begins
  exact ⟨⟨r.chunks, o, given, told, rfl, rfl, id⟩, begins.length_le⟩

/-- What a parser makes of the chunks that a receive loop tells are the first of the messages that
were sent. -/
theorem receiving_first {ι κ μ : Type} [UnorderedMultimap κ] (setting : Setting ι κ)
    (lawful : setting.kind.Lawful) {files : Files} {wire : μ → Bytes} {Valid Good : μ → Prop}
    {Puts : μ → List (Event ι κ) → Prop} {Arrives : μ → Event ι κ → Prop}
    (framing : Framing (callParserCb setting) (fresh setting files []) wire Valid Good Puts
      Stop.fault)
    (hands : ∀ message out, Puts message out → ∃ event, recvs out = [event] ∧ Arrives message event)
    (reached : (receiving channel).Reachable r) (once : r.events.countP ReceiveEvent.begins ≤ 1)
    {messages : List μ} (valid : ∀ message ∈ messages, Valid message)
    (front : r.stream <+: messages.flatMap wire) :
    ∃ o, inputChunks setting (fresh setting files []) r.chunks = some o ∧
      List.Forall₂ Arrives (messages.take (recvs o.out).length) (recvs o.out) := by
  obtain ⟨o, given⟩ := inputChunks_total lawful (fresh_passive lawful files) r.chunks
  exact ⟨o, given, arrived_first setting lawful framing hands valid
    (receiving_carries reached once given) front⟩

/-- In every run of a channel that is established once, with any buffer sizes, time-outs, threads
and losses: where the bytes that arrive are a beginning of what a client session sends, the request
parser is told chunks of which it makes the first requests, in order; where they are a beginning of
what a server session sends, the response parser makes the first responses of them. -/
theorem receiving_handsOver (reached : (receiving channel).Reachable r)
    (once : r.events.countP ReceiveEvent.begins ≤ 1) (surroundings : Surroundings)
    (holds : Bool) (files : Files) (fs : FileSystem) (host : Bytes) :
    (∀ requests : List (Request σ), (∀ request ∈ requests, Deliverable host request) →
      r.stream <+: requests.flatMap (requestWire fs (Session.startedHead host)) →
      ∃ o, inputChunks ⟨@httpRequestParser τ _, surroundings, holds⟩
          (fresh ⟨httpRequestParser, surroundings, holds⟩ files []) r.chunks = some o ∧
        List.Forall₂ (RequestComes host) (requests.take (recvs o.out).length) (recvs o.out)) ∧
      ∀ responses : List (Response σ), (∀ response ∈ responses, Sendable fs response) →
        r.stream <+: responses.flatMap (responseWire fs Session.serverHead) →
        ∃ o, inputChunks ⟨@httpResponseParser τ _, surroundings, holds⟩
            (fresh ⟨httpResponseParser, surroundings, holds⟩ files []) r.chunks = some o ∧
          List.Forall₂ (ResponseComes fs) (responses.take (recvs o.out).length)
            (recvs o.out) := by
  constructor
  · intro requests sends front
    exact receiving_first _ httpRequestParser_lawful
      (sentRequests_framing surroundings holds files fs host)
      (fun request => RequestPuts.hands (wireOf host request)) reached once sends front
  · intro responses sends front
    exact receiving_first _ httpResponseParser_lawful
      (sentResponses_framing surroundings holds files fs)
      (fun response => ResponsePuts.hands (inMemory fs response)) reached once sends front

/-- A request whose first part is read late. -/
theorem receiving_handsOver_late :
    ∃ r, (receiving bufferedChannel).Reachable r ∧ ∃ o,
      inputChunks ⟨@httpRequestParser ListMultimap _, ⟨linux, fun _ => []⟩, false⟩
          (fresh ⟨httpRequestParser, ⟨linux, fun _ => []⟩, false⟩ ⟨fun _ => none, 0⟩ [])
          r.chunks = some o ∧
        List.Forall₂ (RequestComes bare.host) ([plainGet].take (recvs o.out).length)
          (recvs o.out) := by
  obtain ⟨r, reached, stream, events, _⟩ :=
    late_reached (requestWire (fun _ => none) (Session.startedHead bare.host) plainGet)
      (by decide +kernel)
  have once : r.events.countP ReceiveEvent.begins ≤ 1 := by
    rw [events]
    exact Nat.le_refl _
  obtain ⟨asked, _⟩ := @receiving_handsOver ListMultimap ListMultimap _ _ _ _ reached once
    ⟨linux, fun _ => []⟩ false ⟨fun _ => none, 0⟩ (fun _ => none) bare.host
  refine ⟨r, reached, asked [plainGet] (by simp [plainGet_deliverable]) ?_⟩
  rw [stream]
  exact ⟨[], by rw [List.append_nil, List.flatMap_singleton]⟩

end Hnw.Base
