import Hnw.Verif.Targets

/-!
# Where a redirect leads

The URL that follows a redirect is the printed host of the old one with the `Location` behind it.
Its parser finds the old point again, so a path leads where it should, if the old point was the
right one; an absolute URL becomes a path of the old host.
-/

namespace Hnw.Service

open Hnw.Http Hnw.Util Hnw.Util.UnorderedMultimap Hnw.Theory

variable {url : UrlText}

/-! ## The point of a URL -/

/-- What `parser_url` takes for the host and the port: all up to the first `/`. -/
def authority (url : UrlText) : Bytes :=
  (cutFirst slash ((url.host ++ url.portText) ++ url.rest)).1

/-- The host and the port are read from the authority. -/
theorem parserUrl_authority (formed : url.WellFormed) {param : UrlParam}
    (parsed : parserUrl url.text {} = some param) :
    ∃ read, readHost (authority url) { ({} : UrlParam) with protocol := url.scheme } = some read ∧
      param.protocol = read.protocol ∧ param.host = read.host ∧ param.port = read.port := by
  by_cases path : slash ∈ (url.host ++ url.portText) ++ url.rest
  · obtain ⟨front, behind, cut, free⟩ := List.eq_append_cons_of_mem path
    have whole : url.text = (url.scheme ++ ascii "://" ++ front) ++ slash :: behind := by
      rw [UrlText.text, cut, List.append_assoc (url.scheme ++ ascii "://")]
    rw [parserUrl_path formed.scheme_colon free whole] at parsed
    obtain ⟨read, found, rfl⟩ := Option.map_eq_some_iff.mp parsed
    rw [authority, cut, cutFirst_append free]
    exact ⟨read, found, rfl, rfl, rfl⟩
  · rw [UrlText.text, parserUrl_bare formed.scheme_colon path] at parsed
    rw [authority, cutFirst_free path]
    exact ⟨param, parsed, rfl, rfl, rfl⟩

/-- The host ends at the first colon of the authority, and the port at the next. -/
theorem readHost_parts {str : Bytes} {out read : UrlParam} (fresh : out.port = [])
    (found : readHost str out = some read) :
    read.protocol = out.protocol ∧ read.host = (cutFirst colonByte str).1 ∧
      read.port = (cutFirst colonByte (cutFirst colonByte str).2).1 ∧
      (read.port = [] ∨ read.host.length + 1 < 2 ^ 31) := by
  by_cases port : colonByte ∈ str
  · obtain ⟨front, behind, rfl, free⟩ := List.eq_append_cons_of_mem port
    rw [readHost_port free] at found
    rw [cutFirst_append free]
    split at found
    · next near =>
      cases found
      exact ⟨rfl, rfl, rfl, .inr near.front_short⟩
    · cases found
  · rw [readHost_host port] at found
    rw [cutFirst_free port]
    cases found
    exact ⟨rfl, rfl, fresh, .inl fresh⟩

/-- The scheme, or the one that is taken where there is none. -/
def serviceOf (url : UrlText) : Bytes := if url.scheme = [] then ascii "http" else url.scheme

/-- The host and the port that are found, as they are printed. -/
def printedPoint (param : UrlParam) : Bytes :=
  param.host ++ if param.port = [] then [] else colonByte :: param.port

/-- The parts that are found in a URL. -/
structure Found (url : UrlText) (param : UrlParam) : Prop where
  /-- The scheme. -/
  protocol : param.protocol = url.scheme
  /-- The host ends at the first colon. -/
  host : param.host = (cutFirst colonByte (authority url)).1
  /-- The port ends at the next colon. -/
  port : param.port = (cutFirst colonByte (cutFirst colonByte (authority url)).2).1
  /-- A port is near. -/
  near : param.port = [] ∨ param.host.length + 1 < 2 ^ 31

/-- The parts of a URL that is parsed. -/
theorem found_of_parsed (formed : url.WellFormed) {param : UrlParam}
    (parsed : parserUrl url.text {} = some param) : Found url param := by
  obtain ⟨read, found, protocol, host, port⟩ := parserUrl_authority formed parsed
  obtain ⟨same, hostEnds, portEnds, near⟩ := readHost_parts rfl found
  exact
    { protocol := protocol.trans same
      host := host.trans hostEnds
      port := port.trans portEnds
      near := by rwa [port, host] }

/-- The printed host of a URL. -/
theorem getHostForUrl_found {param : UrlParam} (found : Found url param)
    (parsed : parserUrl url.text {} = some param) (some_ : param.host ≠ []) :
    getHostForUrl url.text = some (serviceOf url ++ ascii "://" ++ printedPoint param) := by
  have scheme : (if param.protocol = [] then ascii "http://" else param.protocol ++ ascii "://") =
      serviceOf url ++ ascii "://" := by
    rw [found.protocol, serviceOf]
    split
    · rfl
    · rfl
  rw [getHostForUrl, parsed]
  simp only [Option.bind_eq_bind, Option.bind_some, if_neg some_, scheme, printedPoint]
  by_cases port : param.port = []
  · rw [if_pos port, if_pos port, List.append_nil]
    rfl
  · rw [if_neg port, if_neg port]
    simp only [List.append_assoc]
    rfl

/-- A scheme that is printed holds no colon. -/
theorem serviceOf_free (formed : url.WellFormed) : colonByte ∉ serviceOf url := by
  rw [serviceOf]
  split
  · decide
  · exact formed.scheme_colon

/-- A point that is printed holds no slash. -/
theorem printedPoint_slash {param : UrlParam} (found : Found url param) :
    slash ∉ printedPoint param := by
  have free : ∀ byte, byte ∈ param.host ∨ byte ∈ param.port → byte ∈ authority url := by
    rintro byte (host | port)
    · rw [found.host] at host
      exact mem_of_mem_cutFirst (.inl host)
    · rw [found.port] at port
      exact mem_of_mem_cutFirst (.inr (mem_of_mem_cutFirst (.inl port)))
  rw [printedPoint, List.mem_append, not_or]
  refine ⟨fun inside => not_mem_cutFirst (free slash (.inl inside)), ?_⟩
  split
  · exact List.not_mem_nil
  · rw [List.mem_cons, not_or]
    exact ⟨by decide, fun inside => not_mem_cutFirst (free slash (.inr inside))⟩

/-- A printed point is read back. -/
theorem readHost_printedPoint {param : UrlParam} (found : Found url param) (out : UrlParam)
    (fresh : out.port = []) :
    readHost (printedPoint param) out =
      some { out with host := param.host, port := param.port } := by
  have host : colonByte ∉ param.host := by
    rw [found.host]
    exact not_mem_cutFirst
  have port : colonByte ∉ param.port := by
    rw [found.port]
    exact not_mem_cutFirst
  rw [printedPoint]
  by_cases none_ : param.port = []
  · rw [if_pos none_, List.append_nil, readHost_host host, none_, ← fresh]
  · have near := (bytesNear_pair host port).mpr (found.near.resolve_left none_)
    rw [if_neg none_, readHost_port host, if_pos near, cutFirst_free port]

/-- The printed host with a path behind it: the point is found again, and the path. -/
theorem parserUrl_followed (formed : url.WellFormed) {param : UrlParam} (found : Found url param)
    (more : Bytes) :
    parserUrl (serviceOf url ++ ascii "://" ++ printedPoint param ++ slash :: more) {} = some
      { protocol := serviceOf url
        host := param.host
        port := param.port
        path := (cutFirst questionMark (slash :: more)).1
        queryString := (cutFirst questionMark (slash :: more)).2 } := by
  rw [parserUrl_path (serviceOf_free formed) (printedPoint_slash found) rfl,
    readHost_printedPoint found _ rfl, Option.map_some]
  by_cases query : questionMark ∈ slash :: more
  · rw [if_pos query]
  · rw [if_neg query, cutFirst_free query]

/-! ## The right point -/

/-- A port holds no question mark. -/
theorem portText_question (formed : url.WellFormed) : questionMark ∉ url.portText := by
  cases given : url.port with
  | none =>
    rw [UrlText.portText, given]
    exact List.not_mem_nil
  | some digits =>
    have all := List.all_eq_true.mp (formed.port_digits digits given).2
    rw [UrlText.portText, given, List.mem_cons, not_or]
    exact ⟨by decide, fun inside => absurd (all _ inside) (by decide)⟩

/-- The point of a URL. -/
def pointOf (url : UrlText) : Point :=
  { host := url.host, service := serviceOf url,
    port := url.port.map fun digits => (digitsValue digits : Int) }

/-- A number is read from its digits, whatever stands behind them. -/
theorem stoi_front {digits rest : Bytes} (all : ∀ byte ∈ digits, isDigit byte = true)
    (some_ : digits ≠ []) (stop : ∀ byte ∈ rest.head?, isDigit byte = false) {value : Int}
    (read : stoi (digits ++ rest) = some value) : value = digitsValue digits := by
  have number := (Option.filter_eq_some_iff.mp read).1
  rw [stoll, signedDigits_front all some_ stop] at number
  simp only [Bool.false_eq_true, if_false] at number
  split at number
  · exact (Option.some.inj number).symm
  · cases number

/-- The authority goes on behind the port where the rest begins with a question mark. -/
theorem authority_eq (formed : url.WellFormed) :
    authority url = url.host ++ url.portText ++ (cutFirst slash url.rest).1 := by
  rw [authority, cutFirst_front formed.authority_slash]

/-- What goes on is nothing, or begins with a question mark. -/
theorem tail_cases (formed : url.WellFormed) :
    (url.rest.head? ≠ some questionMark ∧ (cutFirst slash url.rest).1 = []) ∨
      (url.rest.head? = some questionMark ∧
        ∃ more, (cutFirst slash url.rest).1 = questionMark :: more) := by
  rcases formed.rest_begins with empty_ | ⟨more, path | query⟩
  · rw [empty_]
    exact .inl ⟨(fun same => nomatch same), rfl⟩
  · rw [path]
    exact .inl ⟨fun same => absurd (Option.some.inj same) (by decide), rfl⟩
  · rw [query]
    have goesOn := cutFirst_cons_other (by decide : questionMark ≠ slash) more
    exact .inr ⟨rfl, (cutFirst slash more).1, goesOn⟩

/-- The service of what was found. -/
theorem service_found {param : UrlParam} (found : Found url param) :
    (if param.protocol = [] then ascii "http" else param.protocol) = serviceOf url := by
  rw [found.protocol, serviceOf]

/-- With a port the point is the right one: what stands behind the digits is not read. -/
theorem point_of_port (formed : url.WellFormed) {param : UrlParam} (found : Found url param)
    {digits : Bytes} (given : url.port = some digits) {point : Point}
    (chosen : choosePoint param = some point) : point = pointOf url := by
  have number := formed.port_digits digits given
  have text : authority url =
      url.host ++ colonByte :: (digits ++ (cutFirst slash url.rest).1) := by
    rw [authority_eq formed, UrlText.portText, given]
    simp only [List.append_assoc, List.cons_append]
  have host := found.host
  have port := found.port
  rw [text, cutFirst_append formed.host_colon] at host port
  rw [cutFirst_front (formed.digits_free given).1] at port
  have some_ : param.port ≠ [] := by
    rw [port]
    exact List.append_ne_nil_of_left_ne_nil number.1 _
  have stop : ∀ byte ∈ (cutFirst colonByte (cutFirst slash url.rest).1).1.head?,
      isDigit byte = false := by
    intro byte first
    rcases tail_cases formed with ⟨_, none_⟩ | ⟨_, more, query⟩
    · rw [none_] at first
      cases first
    · rw [query, cutFirst_cons_other (by decide : questionMark ≠ colonByte)] at first
      cases first
      decide
  rw [choosePoint, if_neg some_, service_found found] at chosen
  obtain ⟨value, read, rfl⟩ := Option.map_eq_some_iff.mp chosen
  rw [port] at read
  rw [stoi_front (List.all_eq_true.mp number.2) number.1 stop read, host, pointOf, given]
  rfl

/-- A point that a client connects to was chosen. -/
theorem choosePoint_of_connect {param : UrlParam} {point : Point}
    (connects : connectPoint param = some point) : choosePoint param = some point := by
  rw [connectPoint_eq] at connects
  split at connects
  · exact connects
  · cases connects

/-- The host of a point is the one that was found. -/
theorem choosePoint_host {param : UrlParam} {point : Point}
    (chosen : choosePoint param = some point) : point.host = param.host := by
  rw [choosePoint] at chosen
  split at chosen
  · rw [← Option.some.inj chosen]
  · obtain ⟨value, _, rfl⟩ := Option.map_eq_some_iff.mp chosen
    rfl

/-- The point that is chosen is the right one, unless a query follows the host at once. -/
theorem point_right (formed : url.WellFormed) {param : UrlParam} (found : Found url param)
    {point : Point} (chosen : choosePoint param = some point) :
    point = pointOf url ↔ url.rest.head? ≠ some questionMark ∨ url.port ≠ none := by
  cases given : url.port with
  | some digits =>
    exact iff_of_true (point_of_port formed found given chosen) (.inr (Option.some_ne_none digits))
  | none =>
    have text : authority url = url.host ++ (cutFirst slash url.rest).1 := by
      rw [authority_eq formed, UrlText.portText, given]
      simp only [List.append_nil]
    have host := found.host
    have port := found.port
    rw [text, cutFirst_front formed.host_colon] at host port
    rcases tail_cases formed with ⟨plain, none_⟩ | ⟨begins, more, query⟩
    · rw [none_] at host port
      have empty_ : param.port = [] := port
      rw [choosePoint, if_pos empty_, service_found found] at chosen
      refine iff_of_true ?_ (.inl plain)
      rw [← Option.some.inj chosen, pointOf, given, host]
      simp [cutFirst]
    · refine iff_of_false ?_ ?_
      · rintro rfl
        have same : url.host = param.host := choosePoint_host chosen
        rw [query, cutFirst_cons_other (by decide : questionMark ≠ colonByte), ← same] at host
        exact append_cons_ne _ _ _ host.symm
      · rintro (plain | some_)
        · exact plain begins
        · exact some_ rfl

/-! ## The request that follows -/

/-- The method of the request that `download(task)` sends first. -/
def firstMethod (task : DownloadTask) : Bytes :=
  if task.total.total = 0 then httpMethodHead else httpMethodGet

/-- A path that is not empty stays so. -/
theorem uriText_ne_nil {path : Bytes} (some_ : path ≠ []) (query : Bytes) :
    uriText path query ≠ [] := by
  rw [uriText]
  split
  · exact some_
  · exact List.append_ne_nil_of_left_ne_nil (List.append_ne_nil_of_left_ne_nil some_ _) _

/-- A host that is found is printed. -/
theorem getHostForUrl_ne_nil {text : Bytes} {param : UrlParam}
    (parsed : parserUrl text {} = some param) (host : param.host ≠ []) :
    ∃ printed, getHostForUrl text = some printed ∧ printed ≠ [] := by
  rw [getHostForUrl, parsed]
  refine ⟨_, rfl, ?_⟩
  rw [if_neg host]
  split
  · exact List.append_ne_nil_of_right_ne_nil _ host
  · simp [host]

/-- A request is sent where there is a point and the line is made. -/
theorem sent_of_target {path : Bytes} (free : questionMark ∉ path) (method query : Bytes)
    (start : Option Point) :
    (start.bind fun point => (rawRequestLine method (uriText path query)).bind fun line =>
        some (⟨point, line⟩ : SentRequest)) =
      if TargetReads path query then start.map fun point => ⟨point, lineOf method path query⟩
      else none := by
  rw [rawRequestLine_uriText free]
  cases start with
  | none => exact (ite_self none).symm
  | some point =>
    split
    · rfl
    · rfl

/-- The first request of a task whose URL has a host and a path. -/
theorem firstRequest_eq {task : DownloadTask} {param : UrlParam}
    (parsed : parserUrl task.url {} = some param) (host : param.host ≠ [])
    (path : param.path ≠ []) (free : questionMark ∉ param.path) :
    firstRequest task =
      if TargetReads param.path param.queryString then
        (connectPoint param).map fun point =>
          ⟨point, lineOf (firstMethod task) param.path param.queryString⟩
      else none := by
  have uri : getPathForUrl task.url = some (uriText param.path param.queryString) := by
    rw [getPathForUrl, parsed]
    rfl
  have start : startPoint task.url = connectPoint param := by
    rw [startPoint, parsed]
    rfl
  obtain ⟨printed, hosts, some_⟩ := getHostForUrl_ne_nil parsed host
  have target := uriText_ne_nil path param.queryString
  have sends := fun method => sent_of_target free method param.queryString (connectPoint param)
  by_cases unknown : task.total.total = 0
  · rw [firstRequest, if_pos unknown, statusRequest, hosts, uri, start, firstMethod, if_pos unknown,
      ← sends]
    simp only [Option.bind_eq_bind, Option.bind_some, if_neg target, if_neg some_,
      Option.map_bind, Function.comp_def]
    rfl
  · rw [firstRequest, if_neg unknown, downloadRequest, uri, start, firstMethod, if_neg unknown,
      ← sends]
    rfl

/-- What a first request asks for. -/
theorem firstRequest_sent {task : DownloadTask} {sent : SentRequest}
    (sends : firstRequest task = some sent) :
    ∃ path, getPathForUrl task.url = some path ∧
      (path ≠ [] → rawRequestLine (firstMethod task) path = some sent.line) := by
  rw [firstRequest] at sends
  by_cases unknown : task.total.total = 0
  · rw [if_pos unknown] at sends
    obtain ⟨⟨_, host⟩, asked, rfl⟩ := Option.map_eq_some_iff.mp sends
    obtain ⟨-, -, -, path, found, made⟩ := statusRequest_sent asked
    refine ⟨path, found, fun some_ => ?_⟩
    rw [if_neg some_] at made
    rw [firstMethod, if_pos unknown]
    exact made
  · rw [if_neg unknown] at sends
    obtain ⟨path, found, _, made⟩ := downloadRequest_sent sends
    rw [firstMethod, if_neg unknown]
    exact ⟨path, found, fun _ => made⟩

/-- The path of a first request is the one that is found in the URL. -/
theorem firstRequest_path {task : DownloadTask} {sent : SentRequest}
    (sends : firstRequest task = some sent) {param : UrlParam}
    (parsed : parserUrl task.url {} = some param) (path : param.path ≠ [])
    (free : questionMark ∉ param.path) : (cutFirst questionMark sent.line.url).1 = param.path := by
  obtain ⟨uri, found, made⟩ := firstRequest_sent sends
  rw [getPathForUrl, parsed] at found
  have text : uriText param.path param.queryString = uri := Option.some.inj found
  have line := made (text ▸ uriText_ne_nil path param.queryString)
  rw [← text] at line
  rw [rawRequestLine_eq free line, lineOf_path free]

variable {σ : Type} [UnorderedMultimap σ]

/-- A redirect makes the task ask at the printed host with the `Location` behind it. -/
theorem redirectedRequest_eq {task : DownloadTask} {first : SentRequest} {host location : Bytes}
    (asked : statusRequest task.url = some (first, host)) {response : Response σ}
    (moved : response.line.statusCode = httpStatusMoveP ∨
      response.line.statusCode = httpStatusMoveT)
    (given : getHead response.head httpLoc [] = location) :
    redirectedRequest task response = firstRequest { task with url := host ++ location } := by
  have notPartial : response.line.statusCode ≠ httpStatusPartial := by
    rcases moved with same | same
    · rw [same]
      decide
    · rw [same]
      decide
  have notOk : response.line.statusCode ≠ httpStatusOk := by
    rcases moved with same | same
    · rw [same]
      decide
    · rw [same]
      decide
  rw [redirectedRequest, asked]
  simp only [Option.bind_eq_bind, Option.bind_some, answeredStatus, if_neg notPartial, if_pos moved,
    given, onStatus, if_neg notOk]

/-! ## What a `Location` denotes -/

/-- The `Location` values of the two kinds. -/
inductive Location where
  /-- A path of the same host. -/
  | path (text : Bytes)
  /-- A URL. -/
  | url (url : UrlText)

/-- A path is absolute, which begins with one `/`, and a URL is one of `http` or `https`. -/
def Location.WellFormed : Location → Prop
  | .path text => ∃ more, text = slash :: more ∧ more.head? ≠ some slash
  | .url url => url.WellFormed ∧ (url.scheme = ascii "http" ∨ url.scheme = ascii "https")

/-- The value of the header. -/
def Location.text : Location → Bytes
  | .path text => text
  | .url url => url.text

/-- The path of what follows the authority: neither query nor fragment, and `/` where there is
none. -/
def pathOf (rest : Bytes) : Bytes :=
  let path := (cutFirst questionMark (cutFirst hashMark rest).1).1
  if path = [] then ascii "/" else path

/-- The point and the path of what a `Location` denotes, relative to a URL. -/
def denotes (base : UrlText) : Location → Point × Bytes
  | .path text => (pointOf base, pathOf text)
  | .url url => (pointOf url, pathOf url.rest)

/-- The redirected task asks at the point, and for the path, that the `Location` denotes. -/
def FollowsLocation (task : DownloadTask) (response : Response σ) (base : UrlText)
    (location : Location) : Prop :=
  ∃ sent, redirectedRequest task response = some sent ∧
    sent.point = (denotes base location).1 ∧
    (cutFirst questionMark sent.line.url).1 = (denotes base location).2

/-- A path is denoted as it stands up to its query, where no fragment begins in it. -/
theorem pathOf_path (more : Bytes) :
    pathOf (slash :: more) = (cutFirst questionMark (slash :: more)).1 ↔
      hashMark ∉ (cutFirst questionMark (slash :: more)).1 := by
  have some_ : (cutFirst hashMark (cutFirst questionMark (slash :: more)).1).1 ≠ [] := by
    simp [cutFirst, slash, questionMark, hashMark]
  rw [pathOf, cutFirst_comm]
  rw [if_neg some_]
  exact cutFirst_eq_self

/-- What is denoted is at most the text up to the query, or `/`. -/
theorem pathOf_length (rest : Bytes) :
    (pathOf rest).length ≤ (cutFirst questionMark rest).1.length + 1 := by
  rw [pathOf, cutFirst_comm]
  split
  · exact Nat.le_add_left 1 _
  · have size := (List.takeWhile_prefix (fun byte => decide (byte ≠ hashMark))
      (l := (cutFirst questionMark rest).1)).length_le
    exact Nat.le_succ_of_le size

/-! ## Where the redirected task asks -/

section Redirected

variable {base : UrlText} {task : DownloadTask} {response : Response σ} {first : SentRequest}
  {host : Bytes}

/-- What was found in a URL whose status was asked for. -/
theorem found_of_asked (formed : base.WellFormed)
    (asked : statusRequest base.text = some (first, host)) :
    ∃ param, Found base param ∧ param.host ≠ [] ∧
      host = serviceOf base ++ ascii "://" ++ printedPoint param ∧
      connectPoint param = some first.point := by
  obtain ⟨hosts, some_, start, _⟩ := statusRequest_sent asked
  obtain ⟨param, parsed, chosen⟩ := Option.bind_eq_some_iff.mp start
  have found := found_of_parsed formed parsed
  have host_ : param.host ≠ [] := by
    intro none_
    rw [getHostForUrl, parsed] at hosts
    simp only [Option.bind_eq_bind, Option.bind_some, if_pos none_] at hosts
    exact some_ (Option.some.inj hosts).symm
  rw [getHostForUrl_found found parsed host_] at hosts
  exact ⟨param, found, host_, (Option.some.inj hosts).symm, chosen⟩

/-- A path leads to the old point, where `split` gets through it. -/
theorem redirected_path (formed : base.WellFormed)
    (asked : statusRequest base.text = some (first, host)) (more : Bytes) :
    firstRequest { task with url := host ++ slash :: more } =
      if TargetReads (cutFirst questionMark (slash :: more)).1
          (cutFirst questionMark (slash :: more)).2 then
        some ⟨first.point, lineOf (firstMethod task) (cutFirst questionMark (slash :: more)).1
          (cutFirst questionMark (slash :: more)).2⟩
      else none := by
  obtain ⟨param, found, some_, rfl, chosen⟩ := found_of_asked formed asked
  have followed := parserUrl_followed formed found more
  have path : (cutFirst questionMark (slash :: more)).1 ≠ [] := by
    simp [cutFirst, slash, questionMark]
  have service : (if serviceOf base = [] then ascii "http" else serviceOf base) =
      (if param.protocol = [] then ascii "http" else param.protocol) := by
    rw [service_found found, serviceOf]
    split
    · rfl
    · rfl
  have point : connectPoint
      { protocol := serviceOf base
        host := param.host
        port := param.port
        path := (cutFirst questionMark (slash :: more)).1
        queryString := (cutFirst questionMark (slash :: more)).2 } = some first.point := by
    rw [← chosen]
    simp only [connectPoint, getBaseChannelType, choosePoint, service]
  have request := @firstRequest_eq
    { task with url := serviceOf base ++ ascii "://" ++ printedPoint param ++ slash :: more } _
    followed some_ path not_mem_cutFirst
  rw [request, point]
  rfl

/-- A URL is taken for a path that begins with `//`. -/
theorem redirected_url (formed : base.WellFormed)
    (asked : statusRequest base.text = some (first, host)) {other : UrlText}
    (otherFormed : other.WellFormed) {sent : SentRequest}
    (sends : firstRequest { task with url := host ++ other.text } = some sent) :
    (cutFirst questionMark sent.line.url).1 =
      slash :: slash :: (other.host ++ other.portText ++ (cutFirst questionMark other.rest).1) := by
  obtain ⟨param, found, _, rfl, _⟩ := found_of_asked formed asked
  have slashFree : slash ∉ printedPoint param ++ other.scheme ++ [colonByte] := by
    simp only [List.mem_append, List.mem_singleton, not_or]
    exact ⟨⟨printedPoint_slash found, otherFormed.scheme_slash⟩, by decide⟩
  have whole : serviceOf base ++ ascii "://" ++ printedPoint param ++ other.text =
      (serviceOf base ++ ascii "://" ++ (printedPoint param ++ other.scheme ++ [colonByte])) ++
        slash :: (slash :: ((other.host ++ other.portText) ++ other.rest)) := by
    have mark : ascii "://" = [colonByte, slash, slash] := by decide
    rw [UrlText.text, mark]
    simp only [List.append_assoc, List.cons_append, List.nil_append]
  obtain ⟨uri, pathFound, _⟩ := firstRequest_sent sends
  obtain ⟨param', parsed, _⟩ := Option.bind_eq_some_iff.mp pathFound
  have parts := parsed
  rw [parserUrl_path (serviceOf_free formed) slashFree whole] at parts
  obtain ⟨read, _, rfl⟩ := Option.map_eq_some_iff.mp parts
  have markFree : questionMark ∉ slash :: slash :: (other.host ++ other.portText) := by
    simp only [List.mem_cons, List.mem_append, not_or]
    exact ⟨by decide, by decide, otherFormed.host_question, portText_question otherFormed⟩
  have path : (cutFirst questionMark
      (slash :: (slash :: ((other.host ++ other.portText) ++ other.rest)))).1 =
        slash :: slash ::
          (other.host ++ other.portText ++ (cutFirst questionMark other.rest).1) := by
    have cut := congrArg Prod.fst (cutFirst_front markFree other.rest)
    simpa only [List.cons_append] using cut
  rw [firstRequest_path sends parsed (by rw [path]; exact List.cons_ne_nil _ _) not_mem_cutFirst]
  exact path

/-- A `Location` that is a URL is not followed. -/
theorem not_followsLocation_url (formed : base.WellFormed) (at_ : task.url = base.text)
    (asked : statusRequest base.text = some (first, host))
    (moved : response.line.statusCode = httpStatusMoveP ∨
      response.line.statusCode = httpStatusMoveT)
    {other : UrlText} (otherFormed : other.WellFormed)
    (given : getHead response.head httpLoc [] = other.text) :
    ¬ FollowsLocation task response base (.url other) := by
  rintro ⟨sent, sends, -, path⟩
  rw [redirectedRequest_eq (at_ ▸ asked) moved given] at sends
  rw [redirected_url formed asked otherFormed sends] at path
  -- The path that is asked for holds the host, so it is too long.
  have long := congrArg List.length path
  have short := pathOf_length other.rest
  have some_ := List.length_pos_iff.mpr otherFormed.host_some
  simp only [List.length_cons, List.length_append, denotes] at long
  omega

/-- A `Location` that is a path is followed where the old point was right, no fragment begins in
the path, and `split` gets through the target. -/
theorem followsLocation_path (formed : base.WellFormed) (at_ : task.url = base.text)
    (asked : statusRequest base.text = some (first, host))
    (moved : response.line.statusCode = httpStatusMoveP ∨
      response.line.statusCode = httpStatusMoveT)
    {more : Bytes} (given : getHead response.head httpLoc [] = slash :: more) :
    FollowsLocation task response base (.path (slash :: more)) ↔
      (base.rest.head? ≠ some questionMark ∨ base.port ≠ none) ∧
      hashMark ∉ (cutFirst questionMark (slash :: more)).1 ∧
      TargetReads (cutFirst questionMark (slash :: more)).1
        (cutFirst questionMark (slash :: more)).2 := by
  obtain ⟨param, found, _, _, chosen⟩ := found_of_asked formed asked
  rw [FollowsLocation, redirectedRequest_eq (at_ ▸ asked) moved given, redirected_path formed asked,
    ← point_right formed found (choosePoint_of_connect chosen), ← pathOf_path more]
  by_cases reads : TargetReads (cutFirst questionMark (slash :: more)).1
    (cutFirst questionMark (slash :: more)).2
  · rw [if_pos reads]
    constructor
    · rintro ⟨sent, sends, point, path⟩
      obtain rfl := Option.some.inj sends
      rw [lineOf_path not_mem_cutFirst] at path
      exact ⟨point, path.symm, reads⟩
    · rintro ⟨point, path, _⟩
      refine ⟨_, rfl, point, ?_⟩
      rw [lineOf_path not_mem_cutFirst]
      exact path.symm
  · rw [if_neg reads]
    constructor
    · rintro ⟨sent, sends, _⟩
      cases sends
    · exact fun all => absurd all.2.2 reads

end Redirected

/-- The answer to the status request of a download redirects the task to the point and the path
that the `Location` denotes exactly where it is a path without a fragment, the point that was asked
before is the URL's, and `split` gets through the target. -/
theorem followsLocation_iff (base : UrlText) (formed : base.WellFormed) (task : DownloadTask)
    (at_ : task.url = base.text) (first : SentRequest) (host : Bytes)
    (asked : statusRequest base.text = some (first, host)) (response : Response σ)
    (moved : response.line.statusCode = httpStatusMoveP ∨
      response.line.statusCode = httpStatusMoveT)
    (location : Location) (wellFormed : location.WellFormed)
    (given : getHead response.head httpLoc [] = location.text) :
    FollowsLocation task response base location ↔
      ∃ text, location = .path text ∧
        (base.rest.head? ≠ some questionMark ∨ base.port ≠ none) ∧
        hashMark ∉ (cutFirst questionMark text).1 ∧
        TargetReads (cutFirst questionMark text).1 (cutFirst questionMark text).2 := by
  cases location with
  | path text =>
    obtain ⟨more, rfl, _⟩ := wellFormed
    rw [followsLocation_path formed at_ asked moved given]
    refine ⟨fun all => ⟨_, rfl, all⟩, ?_⟩
    rintro ⟨_, same, all⟩
    cases same
    exact all
  | url other =>
    refine iff_of_false (not_followsLocation_url formed at_ asked moved wellFormed.1 given) ?_
    rintro ⟨_, same, _⟩
    cases same

/-- A URL with a path of one letter. -/
def shortUrl (host path : UInt8) : UrlText := ⟨ascii "http", [host], none, [slash, path]⟩

/-- The parts of a short URL are well formed where the host is no mark. -/
theorem shortUrl_wellFormed {host : UInt8} (colon : host ≠ colonByte) (slash_ : host ≠ slash)
    (question : host ≠ questionMark) (path : UInt8) : (shortUrl host path).WellFormed :=
  { scheme_colon := (by decide : colonByte ∉ ascii "http")
    scheme_slash := (by decide : slash ∉ ascii "http")
    host_some := List.cons_ne_nil _ _
    host_colon := fun inside => colon (List.mem_singleton.mp inside).symm
    host_slash := fun inside => slash_ (List.mem_singleton.mp inside).symm
    host_question := fun inside => question (List.mem_singleton.mp inside).symm
    port_digits := fun _ member => nomatch member
    rest_begins := .inr ⟨[path], .inl rfl⟩ }

/-- A `302` answer with a `Location`. -/
def movedTo (location : Bytes) : Response ListMultimap :=
  ⟨{ statusCode := ascii "302" }, addHead empty httpLoc location, none⟩

/-- The status request for `http://h/a`. -/
theorem statusRequest_short :
    statusRequest (shortUrl 104 97).text =
      some (⟨⟨ascii "h", ascii "http", none⟩, { method := ascii "HEAD", path := ascii "/a" }⟩,
        ascii "http://h") := by
  decide

/-- `http://h/a` with `Location: /b` is followed. -/
theorem followsLocation_short :
    FollowsLocation { url := (shortUrl 104 97).text, output := ascii "f" } (movedTo (ascii "/b"))
        (shortUrl 104 97) (.path (ascii "/b")) :=
  (followsLocation_iff (shortUrl 104 97)
    (shortUrl_wellFormed (by decide) (by decide) (by decide) 97) _ rfl _ _ statusRequest_short
    (movedTo (ascii "/b")) (.inr rfl) (.path (ascii "/b")) ⟨ascii "b", rfl, by decide⟩
    (by decide)).mpr ⟨_, rfl, by decide⟩

/-- `http://h/a` with `Location: http://g/p` is not followed. -/
theorem absolute_not_followed :
    ¬ ∀ (base : UrlText) (task : DownloadTask) (response : Response ListMultimap)
        (location : Location), base.WellFormed → task.url = base.text →
      (statusRequest base.text).isSome → response.line.statusCode = httpStatusMoveT →
      location.WellFormed → getHead response.head httpLoc [] = location.text →
        FollowsLocation task response base location := by
  intro claim
  have formed := @shortUrl_wellFormed 104 (by decide) (by decide) (by decide) 97
  have other := @shortUrl_wellFormed 103 (by decide) (by decide) (by decide) 112
  have given : getHead (movedTo (shortUrl 103 112).text).head httpLoc [] =
      (shortUrl 103 112).text := by decide
  have follows := claim (shortUrl 104 97)
    { url := (shortUrl 104 97).text, output := ascii "f" } (movedTo (shortUrl 103 112).text)
    (.url (shortUrl 103 112)) formed rfl (by rw [statusRequest_short]; rfl) rfl ⟨other, .inl rfl⟩
    given
  exact not_followsLocation_url formed rfl statusRequest_short (.inr rfl) other given follows

end Hnw.Service
