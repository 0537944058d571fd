import Hnw.Parser.Parser
import Hnw.Session.Send
import Hnw.Theory.Link

/-!
# A client and a server

Two sessions and the connection between them, as `Service::event_cb` joins them: bytes that arrive
go to `recv_data`, an established connection to `on_connect_establish` and a closed one to
`on_disconnect`. The connection keeps the order of bytes, delivers them in chunks of any size and
may be lost at any time. The application of the server answers the requests that are handed to it
one after another, when it likes to.
-/

namespace Hnw.Http

open Hnw.Util Hnw.Util.UnorderedMultimap Hnw.Parser Hnw.Theory

/-- `on_disconnect`. -/
def Session.onDisconnect {ι σ : Type} (s : Session ι σ) : Session ι σ :=
  { s with connectFlag := false }

/-- Whether an event hands a message over. -/
def handsOver {ι σ : Type} : Event ι σ → Bool
  | .recv _ _ _ => true
  | _ => false

/-- What a conversation takes place in. -/
structure Place where
  /-- The host of the URL the client was started with. -/
  host : Bytes
  /-- The files whose bodies the client sends. -/
  clientFs : FileSystem
  /-- The files whose bodies the server sends. -/
  serverFs : FileSystem
  /-- Where the client receives. -/
  clientSide : Surroundings
  /-- Where the server receives. -/
  serverSide : Surroundings
  /-- Whether the application of the client keeps messages. -/
  clientHolds : Bool
  /-- Whether the application of the server keeps messages. -/
  serverHolds : Bool
  /-- The files the client's parser finds. -/
  clientFiles : Files
  /-- The files the server's parser finds. -/
  serverFiles : Files

/-- A client session, a server session and what each made of the other's bytes. -/
structure Conversation (σ τ : Type) where
  /-- The session of the client. -/
  client : Transport RequestLine σ
  /-- The session of the server. -/
  server : Transport ResponseLine τ
  /-- `recv_parser_` of the server. -/
  upstream : Link (ParserState RequestLine τ) (Event RequestLine τ)
  /-- `recv_parser_` of the client. -/
  downstream : Link (ParserState ResponseLine σ) (Event ResponseLine σ)
  /-- How many requests were answered. -/
  answered : Nat

/-- What happens in a conversation. -/
inductive ConversationLabel (σ τ : Type) where
  /-- Something happens to the client's session. -/
  | client (label : SendLabel RequestLine σ)
  /-- The server's session is connected or read from. -/
  | server (label : SendLabel ResponseLine τ)
  /-- The application of the server answers. -/
  | answer (response : Response τ)
  /-- The server receives up to so many bytes. -/
  | toServer (count : Nat)
  /-- The client receives up to so many bytes. -/
  | toClient (count : Nat)
  /-- The connection is lost. -/
  | disconnect

variable {σ τ : Type} [UnorderedMultimap σ] [UnorderedMultimap τ]

/-- The parser of the server. -/
def Place.serverSetting (place : Place) : Setting RequestLine τ :=
  ⟨httpRequestParser, place.serverSide, place.serverHolds⟩

/-- The parser of the client. -/
def Place.clientSetting (place : Place) : Setting ResponseLine σ :=
  ⟨httpResponseParser, place.clientSide, place.clientHolds⟩

namespace Conversation

/-- Two new sessions. -/
def start (place : Place) : Conversation σ τ where
  client := .fresh (Session.startedHead place.host)
  server := .fresh Session.serverHead
  upstream := .fresh (fresh place.serverSetting place.serverFiles [])
  downstream := .fresh (fresh place.clientSetting place.clientFiles [])
  answered := 0

/-- The requests that were handed to the application of the server. -/
def requests (c : Conversation σ τ) : List (Event RequestLine τ) := c.upstream.out.filter handsOver

/-- The responses that were handed to the application of the client. -/
def responses (c : Conversation σ τ) : List (Event ResponseLine σ) :=
  c.downstream.out.filter handsOver

/-- The connection is lost, for both sides. -/
def disconnected (c : Conversation σ τ) : Conversation σ τ :=
  { c with
    client := { c.client with session := c.client.session.onDisconnect }
    server := { c.server with session := c.server.session.onDisconnect }
    upstream := c.upstream.cut
    downstream := c.downstream.cut }

/-- One step. `Answers` says which responses the application may give to a request. -/
inductive Step (place : Place) (Answers : Event RequestLine τ → Response τ → Prop) :
    Conversation σ τ → ConversationLabel σ τ → Conversation σ τ → Prop where
  | client {c : Conversation σ τ} {label : SendLabel RequestLine σ}
      {client : Transport RequestLine σ}
      (step : (clientSystem place.clientFs (Session.startedHead place.host)).step c.client label
        client) :
      Step place Answers c (.client label) { c with client }
  | server {c : Conversation σ τ} {label : SendLabel ResponseLine τ}
      {server : Transport ResponseLine τ}
      (step : (serverSystem place.serverFs Session.serverHead).step c.server label server)
      (quiet : server.sent = c.server.sent) :
      Step place Answers c (.server label) { c with server }
  | answer {c : Conversation σ τ} {request : Event RequestLine τ} {response : Response τ}
      {server : Transport ResponseLine τ} (next : c.requests[c.answered]? = some request)
      (answers : Answers request response)
      (step : (serverSystem place.serverFs Session.serverHead).step c.server (.send response)
        server) :
      Step place Answers c (.answer response) { c with server, answered := c.answered + 1 }
  | toServer {c : Conversation σ τ} {count : Nat}
      {upstream : Link (ParserState RequestLine τ) (Event RequestLine τ)}
      (reads : c.upstream.read (callParserCb place.serverSetting) Stop.fatal c.client.emitted
        count = some upstream) :
      Step place Answers c (.toServer count) { c with upstream }
  | toClient {c : Conversation σ τ} {count : Nat}
      {downstream : Link (ParserState ResponseLine σ) (Event ResponseLine σ)}
      (reads : c.downstream.read (callParserCb place.clientSetting) Stop.fatal c.server.emitted
        count = some downstream) :
      Step place Answers c (.toClient count) { c with downstream }
  | disconnect {c : Conversation σ τ} : Step place Answers c .disconnect c.disconnected

end Conversation

/-- Everything that can happen between a client and a server. -/
def conversation (place : Place) (Answers : Event RequestLine τ → Response τ → Prop) :
    System (Conversation σ τ) (ConversationLabel σ τ) where
  init c := c = .start place
  step := Conversation.Step place Answers

end Hnw.Http
