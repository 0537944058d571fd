import Hnw.Http.Line
import Hnw.Service.Connections
import Hnw.Service.DownloadCb

/-!
# The requests sent for a URL

`Service::request`, `Service::download` and `Service::get_resource_status` each take a URL, connect
to the point that `start` finds in it and, once connected, hand a path to `raw_request`. `start`
takes a server's channel for a scheme it does not know, and no server's channel connects. A request
is modelled by the point and the line; its head and body do not depend on the URL, except for the
`Host`. What the DNS answers is left out: a point is what it is asked for, and the port.
-/

namespace Hnw.Service

open Hnw.Http Hnw.Util Hnw.Util.UnorderedMultimap

/-- `HTTP_METHOD_HEAD`. -/
def httpMethodHead : Bytes := ascii "HEAD"

/-- `HTTP_LOC`. -/
def httpLoc : Bytes := ascii "Location"

/-- `std::stoi`; `none` where it throws. -/
def stoi (text : Bytes) : Option Int :=
  (stoll text).filter fun value => -2 ^ 31 ≤ value ∧ value < 2 ^ 31

/-- Where a client connects to. -/
structure Point where
  /-- The host the DNS is asked for. -/
  host : Bytes
  /-- The service the DNS is asked for, which gives the port where there is none. -/
  service : Bytes
  /-- The port, where there is one. -/
  port : Option Int
deriving DecidableEq

/-- `choose_point`; `none` for `NET_INVALID_POINT`. -/
def choosePoint (param : UrlParam) : Option Point :=
  let service := if param.protocol = [] then ascii "http" else param.protocol
  if param.port = [] then some ⟨param.host, service, none⟩
  else (stoi param.port).map fun port => ⟨param.host, service, some port⟩

/-- `PeerType`. -/
inductive PeerType where
  | server
  | client
  | none
deriving DecidableEq

/-- `get_base_channel_type`: what it leaves in `chn_type`, `none` where it returns an error. -/
def getBaseChannelType (protocol : Bytes) (peerType : PeerType) (chnType : ChannelType) :
    Option ChannelType :=
  let protocol := if protocol = [] then ascii "http" else protocol
  if protocol = ascii "http" then
    match peerType with
    | .server => some .tcpServer
    | .client => some .tcpClient
    | .none => none
  else if protocol = ascii "https" then
    match peerType with
    | .server => some .sslServer
    | .client => some .sslClient
    | .none => none
  else some chnType

/-- Whether a class of channels has a `connect` of its own: that of `Channel` returns an error. -/
def ChannelType.connects : ChannelType → Bool
  | .tcpClient | .sslClient => true
  | .tcpServer | .sslServer => false

/-- The point `start` connects a client to that was found in a URL; `none` where it returns an
error. -/
def connectPoint (param : UrlParam) : Option Point := do
  let chnType ← getBaseChannelType param.protocol .client .tcpServer
  let point ← choosePoint param
  if chnType.connects then some point else none

/-- The point `start` connects a client to; `none` where `parser_url` throws or an error is
returned. -/
def startPoint (url : Bytes) : Option Point := (parserUrl url {}).bind connectPoint

/-- A request on its way. -/
structure SentRequest where
  /-- Where it goes. -/
  point : Point
  /-- `line`. -/
  line : RequestLine
deriving DecidableEq

/-- The line of `raw_request`; `none` where `split` throws. -/
def rawRequestLine (method uri : Bytes) : Option RequestLine :=
  RequestLine.setUrl { method } uri

/-- `request(method, url)`, and `on_request_once` when the connection stands; `none` where nothing
is sent. -/
def request (method url : Bytes) : Option SentRequest := do
  let path ← getPathForUrl url
  let point ← startPoint url
  let line ← rawRequestLine method path
  return { point, line }

/-- `download(task)` of a task whose size is known, and `download_cb` when the connection stands;
`none` where nothing is sent. -/
def downloadRequest (url : Bytes) : Option SentRequest := do
  let point ← startPoint url
  let path ← getPathForUrl url
  let line ← rawRequestLine httpMethodGet path
  return { point, line }

/-- `get_resource_status`, and `resource_status_cb` when the connection stands: the request, and
`host` of the status; `none` where nothing is sent. -/
def statusRequest (url : Bytes) : Option (SentRequest × Bytes) := do
  let host ← getHostForUrl url
  let path ← getPathForUrl url
  let path := if path = [] then ascii "/" else path
  if host = [] then none
  else
    let point ← startPoint url
    let line ← rawRequestLine httpMethodHead path
    return ({ point, line }, host)

variable {σ : Type} [UnorderedMultimap σ]

/-- `get_head_uint64`. -/
def getHeadUint64 (head : σ) (key : Bytes) (notfind : UInt64) : UInt64 :=
  let str := getHead head key []
  if str = [] then notfind else (stoull str).getD notfind

/-- The status that `resource_status_cb` reports for a response head; `none` where an exception
leaves it. -/
def answeredStatus (host : Bytes) (response : Response σ) : Option HttpResourceStatus :=
  let status : HttpResourceStatus :=
    { host, size := getHeadUint64 response.head httpLen 0, status := response.line.statusCode }
  if response.line.statusCode = httpStatusPartial then
    (contentRangeLeft response.head {}).map fun range => { status with size := range.total }
  else if response.line.statusCode = httpStatusMoveP ∨
      response.line.statusCode = httpStatusMoveT then
    some { status with location := getHead response.head httpLoc [] }
  else some status

/-- The request `download(task)` sends first. -/
def firstRequest (task : DownloadTask) : Option SentRequest :=
  if task.total.total = 0 then (statusRequest task.url).map Prod.fst
  else downloadRequest task.url

/-- The request that follows the answer to a task's status request, where the answer is a
redirect. -/
def redirectedRequest (task : DownloadTask) (response : Response σ) : Option SentRequest := do
  let (_, host) ← statusRequest task.url
  let status ← answeredStatus host response
  match onStatus task status with
  | .redirect task => firstRequest task
  | _ => none

end Hnw.Service
