import Hnw.Service.Destination
import Hnw.Verif.Target
import Hnw.Verif.UrlParts

/-!
# The targets sent for a URL

The path that is found in a URL goes through the request line's own reader and printer and comes
out with the same path in front. A URL without a path gives the empty path, which only
`get_resource_status` replaces: the other two entry points send a line without a target.
-/

namespace Hnw.Service

open Hnw.Http Hnw.Util Hnw.Theory

/-! ## From the path to the target -/

/-- The path and the query of a URL as `get_path_for_url` returns them. -/
def uriText (path query : Bytes) : Bytes :=
  if query = [] then path else path ++ ascii "?" ++ query

/-- The query a request line keeps. -/
def keptQuery (query : Bytes) : QueryMap :=
  if query = [] then [] else storePairs (readPairs (cutFirst questionMark query).1)

/-- The line that is made of a path and a query. -/
def lineOf (method path query : Bytes) : RequestLine :=
  { method, path, queryMap := keptQuery query }

/-- `split` gets through a target. -/
def TargetReads (path query : Bytes) : Prop :=
  query = [] ∨ (BytesNear questionMark (path ++ questionMark :: query) ∧
    ReadsQuery (cutFirst questionMark query).1)

instance (path query : Bytes) : Decidable (TargetReads path query) :=
  inferInstanceAs (Decidable (_ ∨ _))

/-- The line of a path and a query is made where `split` gets through them. -/
theorem rawRequestLine_uriText {path : Bytes} (free : questionMark ∉ path)
    (method query : Bytes) :
    rawRequestLine method (uriText path query) =
      if TargetReads path query then some (lineOf method path query) else none := by
  by_cases none_ : query = []
  · rw [if_pos (.inl none_), rawRequestLine, uriText, if_pos none_, setUrl_path _ free, lineOf,
      keptQuery, if_pos none_]
  · have text : path ++ ascii "?" ++ query = path ++ questionMark :: query :=
      List.append_assoc path _ query
    have reads : TargetReads path query ↔
        BytesNear questionMark (path ++ questionMark :: query) ∧
          ReadsQuery (cutFirst questionMark query).1 := or_iff_right none_
    rw [rawRequestLine, uriText, if_neg none_, text, setUrl_query rfl free, lineOf, keptQuery,
      if_neg none_]
    simp only [reads]

/-- Where the line is made, it keeps the path. -/
theorem rawRequestLine_eq {method path query : Bytes} (free : questionMark ∉ path)
    {line : RequestLine} (made : rawRequestLine method (uriText path query) = some line) :
    line = lineOf method path query := by
  rw [rawRequestLine_uriText free] at made
  split at made
  · exact (Option.some.inj made).symm
  · cases made

/-- The path stands in front of the target, and ends with it or at the question mark. -/
theorem lineOf_url (method path query : Bytes) :
    (lineOf method path query).url =
      if query = [] then path else path ++ questionMark :: printQuery (keptQuery query) := by
  by_cases none_ : query = []
  · have empty_ : (lineOf method path query).queryMap = [] := if_pos none_
    rw [if_pos none_, url_path empty_, lineOf]
  · have some_ : (lineOf method path query).queryMap ≠ [] := by
      rw [lineOf, keptQuery, if_neg none_]
      exact storePairs_ne_nil _
    rw [if_neg none_, url_query some_, lineOf]

/-- The path is read back from the target. -/
theorem lineOf_path {path : Bytes} (free : questionMark ∉ path) (method query : Bytes) :
    (cutFirst questionMark (lineOf method path query).url).1 = path := by
  rw [lineOf_url]
  split
  · rw [cutFirst_free free]
  · rw [cutFirst_append free]

variable {url : UrlText}

/-- What `download` sends for the content. -/
theorem downloadRequest_sent {url : Bytes} {sent : SentRequest}
    (sends : downloadRequest url = some sent) :
    ∃ path, getPathForUrl url = some path ∧ startPoint url = some sent.point ∧
      rawRequestLine httpMethodGet path = some sent.line := by
  obtain ⟨point, start, sends⟩ := Option.bind_eq_some_iff.mp sends
  obtain ⟨path, found, sends⟩ := Option.bind_eq_some_iff.mp sends
  obtain ⟨line, made, sends⟩ := Option.bind_eq_some_iff.mp sends
  cases sends
  exact ⟨path, found, start, made⟩

/-- What `get_resource_status` sends: there is a host, and an empty path is made `/`. -/
theorem statusRequest_sent {url host : Bytes} {sent : SentRequest}
    (sends : statusRequest url = some (sent, host)) :
    getHostForUrl url = some host ∧ host ≠ [] ∧ startPoint url = some sent.point ∧
      ∃ path, getPathForUrl url = some path ∧
        rawRequestLine httpMethodHead (if path = [] then ascii "/" else path) =
          some sent.line := by
  obtain ⟨printed, hosts, sends⟩ := Option.bind_eq_some_iff.mp sends
  obtain ⟨path, found, sends⟩ := Option.bind_eq_some_iff.mp sends
  dsimp only at sends
  by_cases none_ : printed = []
  · rw [if_pos none_] at sends
    cases sends
  · rw [if_neg none_] at sends
    obtain ⟨point, start, sends⟩ := Option.bind_eq_some_iff.mp sends
    obtain ⟨line, made, sends⟩ := Option.bind_eq_some_iff.mp sends
    cases sends
    exact ⟨hosts, none_, start, path, found, made⟩

section Rest

variable (formed : url.WellFormed) {more : Bytes} (rest : url.rest = slash :: more)

include rest

include formed

end Rest

/-- The schemes that a client has a channel for. -/
def clientSchemes : List Bytes := [[], ascii "http", ascii "https"]

/-- A client connects for these schemes only. -/
theorem connectPoint_eq (param : UrlParam) :
    connectPoint param = if param.protocol ∈ clientSchemes then choosePoint param else none := by
  have connects : ∀ chnType, getBaseChannelType param.protocol .client .tcpServer = some chnType →
      connectPoint param = if chnType.connects then choosePoint param else none := by
    intro chnType found
    rw [connectPoint, found]
    cases choosePoint param with
    | none => exact (ite_self none).symm
    | some point => rfl
  simp only [clientSchemes, List.mem_cons, List.not_mem_nil, or_false]
  by_cases empty_ : param.protocol = []
  · rw [if_pos (.inl empty_)]
    exact connects .tcpClient (by rw [empty_]; decide)
  · by_cases plain : param.protocol = ascii "http"
    · rw [if_pos (.inr (.inl plain))]
      exact connects .tcpClient (by rw [plain]; decide)
    · by_cases secure : param.protocol = ascii "https"
      · rw [if_pos (.inr (.inr secure))]
        exact connects .sslClient (by rw [secure]; decide)
      · rw [if_neg (by simp [empty_, plain, secure])]
        apply connects .tcpServer
        simp only [getBaseChannelType, if_neg empty_, if_neg plain, if_neg secure]

end Hnw.Service
