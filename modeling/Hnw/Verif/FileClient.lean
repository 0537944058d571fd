import Hnw.Verif.FileService
import Hnw.Verif.Percent
import Hnw.Verif.Target

/-!
# What a client of the file service gets

The other end of the file service: a client encodes the name of a file into the target of a request
and prints a range into its head. What arrives is told from these alone, and where the service asks
for authentication, nothing arrives without credentials that pass it.
-/

namespace Hnw.Example

open Hnw.Http Hnw.Util Hnw.Util.UnorderedMultimap Hnw.Parser Hnw.Theory

variable {σ τ : Type} [UnorderedMultimap σ] [UnorderedMultimap τ] {service : FileService}
  {machine : Machine}

/-! ## What a request says -/

/-- A request for a file, and perhaps for a range of it: the name is encoded as `encode_url` does
it, the range printed as `set_range` does it. -/
structure Asks (request : Request σ) (name : Bytes) (range : Option HttpRange) : Prop where
  /-- The path is the encoded name. -/
  path : request.line.path = name.flatMap encodeChar
  /-- The decoder's cursor can go through it. -/
  short : (name.flatMap encodeChar).length < 2 ^ 32
  /-- There is no query. -/
  query : request.line.queryMap = []
  /-- The one `Range` header holds the range. -/
  header : (toList request.head).filter (·.1 = httpRange) =
    (range.map fun range => (httpRange, rangeValue range)).toList

/-- An encoded name holds no question mark. -/
theorem encoded_noMark (name : Bytes) : questionMark ∉ name.flatMap encodeChar := by
  intro member
  obtain ⟨byte, _, here⟩ := List.mem_flatMap.mp member
  rcases encodeChar_cases byte with ⟨plain, self⟩ | ⟨_, high, low, code, first, second, _⟩
  · rw [self, List.mem_singleton] at here
    rw [← here] at plain
    exact absurd plain (by decide)
  · rw [code] at here
    rcases List.mem_cons.mp here with sign | here
    · exact absurd sign (by decide)
    · rcases List.mem_cons.mp here with digit | here
      · rw [← digit] at first
        exact absurd first (by decide)
      · rw [← List.mem_singleton.mp here] at second
        exact absurd second (by decide)

/-- More rounds of the decoder change nothing. -/
theorem decodeFrom_more {url text result : Bytes} {fuel i : Nat}
    (returned : decodeFrom url fuel i result = .returned text) (more : Nat) :
    decodeFrom url (fuel + more) i result = .returned text := by
  induction fuel generalizing i result with
  | zero => cases returned
  | succ fuel ih =>
    rw [decodeFrom] at returned
    rw [Nat.add_right_comm, decodeFrom]
    split
    · rename_i inside
      rw [if_pos inside] at returned
      cases read : decodeRound url i with
      | none =>
        rw [read] at returned
        cases returned
      | some round =>
        rw [read] at returned
        exact ih returned
    · rename_i outside
      rw [if_neg outside] at returned
      exact returned

/-- The service decodes what `encode_url` wrote. -/
theorem urlDecode_encoded {name : Bytes} (short : (name.flatMap encodeChar).length < 2 ^ 32) :
    urlDecode (name.flatMap encodeChar) = some name := by
  have returned := decodeUrl_units (stands_flatMap name) short
  have longer : name.length ≤ (name.flatMap encodeChar).length := by
    rw [flatMap_encodeChar_length]
    exact Nat.le_add_right _ _
  have more := decodeFrom_more returned ((name.flatMap encodeChar).length - name.length)
  rw [show name.length + 1 + ((name.flatMap encodeChar).length - name.length) =
    (name.flatMap encodeChar).length + 1 by omega] at more
  rw [urlDecode, decodeUrl, more]

/-- The path that the service reads is the one the client wrote. -/
theorem Asks.path_comes {request : Request σ} {name : Bytes} {range : Option HttpRange}
    (asks : Asks request name range) {line : RequestLine}
    (read : (@httpRequestParser τ _).setLine {} [request.line.method, request.line.url,
      request.line.version] = some line) : urlDecode line.path = some name := by
  have target : request.line.url = name.flatMap encodeChar := by
    rw [RequestLine.url, asks.query, asks.path, List.flatMap_nil, List.append_nil]
    exact List.dropLast_concat
  obtain ⟨wrote, url, rfl⟩ := Option.map_eq_some_iff.mp read
  have same : RequestLine.setUrl { method := request.line.method } request.line.url =
      some wrote := url
  rw [target, setUrl_path _ (encoded_noMark name)] at same
  cases same
  exact urlDecode_encoded asks.short

/-- A query value does not change the method. -/
theorem readQuery_method {line next : RequestLine} {q : Bytes}
    (read : line.readQuery q = some next) : next.method = line.method := by
  rw [RequestLine.readQuery] at read
  cases pieces : split q (ascii "=") with
  | none =>
    rw [pieces] at read
    cases read
  | some pieces' =>
    rw [pieces] at read
    cases pieces' with
    | nil => cases read
    | cons key values =>
      cases values with
      | nil =>
        cases read
        rfl
      | cons value rest =>
        cases read
        rfl

/-- Reading several queries keeps the method. -/
theorem readQueries_method {line next : RequestLine} {queries : List Bytes}
    (read : queries.foldlM RequestLine.readQuery line = some next) :
    next.method = line.method := by
  induction queries generalizing line with
  | nil =>
    cases read
    rfl
  | cons q queries ih =>
    rw [List.foldlM_cons] at read
    obtain ⟨middle, one, rest⟩ := Option.bind_eq_some_iff.mp read
    exact (ih rest).trans (readQuery_method one)

/-- The target does not change the method. -/
theorem setUrl_method {line next : RequestLine} {target : Bytes}
    (read : line.setUrl target = some next) : next.method = line.method := by
  rw [RequestLine.setUrl] at read
  obtain ⟨pieces, _, rest⟩ := Option.bind_eq_some_iff.mp read
  cases pieces with
  | nil => cases rest
  | cons path queries =>
    cases queries with
    | nil =>
      cases rest
      rfl
    | cons query more =>
      obtain ⟨qV, _, folded⟩ := Option.bind_eq_some_iff.mp rest
      have same := readQueries_method folded
      exact same

/-- The headers of a request that comes with one key are those the client gave it. -/
theorem headers_come {host : Bytes} {request : Request σ} {head : τ}
    (same : (toList head).Perm (toList (preparedHead host request))) {key : Bytes}
    (length : key ≠ httpLen) (own : ∀ value, (key, value) ∉ toList (Session.startedHead host : σ))
    (value : Bytes) : (key, value) ∈ toList head ↔ (key, value) ∈ toList request.head := by
  rw [same.mem_iff]
  constructor
  · intro member
    rcases mem_merge.2 member with here | session
    · rcases mem_addHead.mp here with added | old
      · exact absurd (congrArg Prod.fst added) length
      · exact old
    · exact absurd session (own value)
  · exact preparedHead_keeps

/-- A session of a client has no header of this key. -/
theorem startedHead_none {host key : Bytes} (other : key ≠ httpHost) (agent : key ≠ httpUa)
    (accept : key ≠ httpAccept) (connection : key ≠ httpConn) (value : Bytes) :
    (key, value) ∉ toList (Session.startedHead host : σ) := by
  intro member
  rcases mem_startedHead member with same | same | same | same
  · exact other (congrArg Prod.fst same)
  · exact agent (congrArg Prod.fst same)
  · exact accept (congrArg Prod.fst same)
  · exact connection (congrArg Prod.fst same)

/-- What `get_head` gives of a head is one of its values. -/
theorem getHead_mem {head : τ} {key : Bytes} (some_ : getHead head key [] ≠ []) :
    (key, getHead head key []) ∈ toList head := by
  rw [getHead] at some_ ⊢
  cases found : UnorderedMultimap.find head key with
  | none =>
    rw [found] at some_
    exact absurd rfl some_
  | some entry =>
    have member := List.mem_of_find?_eq_some found
    have here := List.find?_some found
    rw [← of_decide_eq_true here]
    exact member

/-- A head with one value of a key gives that. -/
theorem getHead_only {head : τ} {key value : Bytes}
    (only : ∀ other, (key, other) ∈ toList head ↔ other = value) :
    getHead head key [] = value := by
  have here := (only value).mpr rfl
  cases found : UnorderedMultimap.find head key with
  | none =>
    have absent := List.find?_eq_none.mp found _ here
    exact absurd (decide_eq_true rfl) absent
  | some entry =>
    have member := List.mem_of_find?_eq_some found
    have same := List.find?_some found
    have named : entry.1 = key := of_decide_eq_true same
    rw [getHead, found]
    apply (only entry.2).mp
    rw [← named]
    exact member

/-- The values of `Range` in a request. -/
theorem Asks.mem_range {request : Request σ} {name : Bytes} {range : Option HttpRange}
    (asks : Asks request name range) (value : Bytes) :
    (httpRange, value) ∈ toList request.head ↔ value ∈ range.map rangeValue := by
  have member : (httpRange, value) ∈ (toList request.head).filter (·.1 = httpRange) ↔
      (httpRange, value) ∈ toList request.head := by
    rw [List.mem_filter]
    simp
  rw [← member, asks.header]
  cases range with
  | none => simp
  | some range => simp [eq_comm]

/-- The range that the service reads is the one the client printed. -/
theorem Asks.range_comes {host : Bytes} {request : Request σ} {name : Bytes}
    {range : Option HttpRange} (asks : Asks request name range) {head : τ}
    (same : (toList head).Perm (toList (preparedHead host request))) {found : Option HttpRange}
    (read : getRange head {} = some found) :
    statusOf found = statusOf range ∧
      FileBody.firstPos (found.getD {}) = FileBody.firstPos (range.getD {}) ∧
      ∀ size, servedLast size (found.getD {}) = servedLast size (range.getD {}) := by
  have values : ∀ value, (httpRange, value) ∈ toList head ↔ value ∈ range.map rangeValue := by
    intro value
    rw [headers_come same (by decide)
      (startedHead_none (by decide) (by decide) (by decide) (by decide)) value]
    exact asks.mem_range value
  cases range with
  | none =>
    have nothing : getHead head httpRange [] = [] := by
      by_contra some_
      have member := (values _).mp (getHead_mem some_)
      cases member
    rw [getRange, nothing] at read
    cases read
    exact ⟨rfl, rfl, fun _ => rfl⟩
  | some range =>
    have only : getHead head httpRange [] = rangeValue range := by
      apply getHead_only
      intro other
      rw [values, Option.map_some, Option.mem_some_iff, eq_comm]
    obtain ⟨left, returned, start, end_, stop⟩ := getRange_rangeValue only {}
    rw [returned] at read
    cases read
    refine ⟨rfl, ?_, fun size => ?_⟩
    · have first : ∀ range : HttpRange, FileBody.firstPos range = range.sectionStart.toNat := by
        intro range
        rw [FileBody.firstPos, HttpRange.sectionStart]
        split
        · rfl
        · rfl
      rw [Option.getD_some, Option.getD_some, first, first, start]
    · rw [Option.getD_some, Option.getD_some, servedLast, servedLast, end_]
      split
      · rfl
      · rename_i bounded
        rw [stop (Bool.eq_false_of_not_eq_true bounded)]

/-! ## What arrives -/

section Connection

variable {place : Place} {c : Conversation σ τ}

/-- In every run, whatever is read, written, cut into chunks, answered or lost in whatever order:
the responses that reach the client of a file service hold the sections of the files that its
first requests ask for, in their order. -/
theorem fileService_ranges (small : SmallFiles place.serverFs)
    (reached : (conversation place (service.Answers machine place)).Reachable c)
    (sends : ∀ request ∈ c.client.sent, Deliverable place.host request) :
    List.Forall₂ (fun request event => ∀ name range, Asks request name range →
        ∃ file, place.serverFs (service.fileDir ++ machine.utf8ToAnsi name) = some file ∧
          HoldsSection file range event)
      (c.client.sent.take c.responses.length) c.responses := by
  apply (sections_come small reached sends).imp
  intro request event ⟨line, head, body, file, found, came, asksFile, first, last, holds⟩ name range
    asks
  obtain ⟨line', head', set, same, event_⟩ := came
  cases event_
  obtain ⟨decoded, read, _, present⟩ := asksFile.names
  have named := asks.path_comes set
  rw [read] at named
  cases named
  obtain ⟨status, start, stop⟩ := asks.range_comes same asksFile.range
  refine ⟨file, present, ?_⟩
  rw [HoldsSection, ← start, ← stop, ← status]
  exact ⟨first, last, holds⟩

/-- A request carries credentials that the service accepts. -/
def Authorized (τ : Type) [UnorderedMultimap τ] (service : FileService) (machine : Machine)
    (request : Request σ) : Prop :=
  ∃ (head : τ) (auth : HnwAuthorization),
    (httpAuth, getHead head httpAuth []) ∈ toList request.head ∧
      getAuthorization head = some auth ∧
      checkAuthOf machine.md5 auth service.password request.line.method = true

/-- A request that comes and is admitted carries the credentials. -/
theorem Admitted.authorized {host : Bytes} {request : Request σ} {line : RequestLine} {head : τ}
    {body : Bytes} (admitted : Admitted service machine line head)
    (asks : service.authMode ≠ .noneAuth)
    (came : RequestComes host request (.recv line head body)) :
    Authorized τ service machine request := by
  obtain ⟨auth, given, passes⟩ := admitted.resolve_left asks
  obtain ⟨_, _, set, same, event⟩ := came
  cases event
  obtain ⟨wrote, url, rfl⟩ := Option.map_eq_some_iff.mp set
  have method : wrote.method = request.line.method := by
    have kept := setUrl_method url
    exact kept
  have some_ : getHead head httpAuth [] ≠ [] := by
    intro nothing
    rw [getAuthorization, nothing] at given
    cases given
    cases passes
  refine ⟨head, auth, ?_, given, ?_⟩
  · apply (headers_come same (by decide)
      (startedHead_none (by decide) (by decide) (by decide) (by decide)) _).mp
    exact getHead_mem some_
  · rw [← method]
    exact passes

/-- Where the service asks for authentication, nothing reaches a client in any run but for requests
that carry credentials which the service accepts. -/
theorem fileService_authorized (asks : service.authMode ≠ .noneAuth)
    (small : SmallFiles place.serverFs)
    (reached : (conversation place (service.Answers machine place)).Reachable c)
    (sends : ∀ request ∈ c.client.sent, Deliverable place.host request) :
    ∀ request ∈ c.client.sent.take c.responses.length, Authorized τ service machine request := by
  have both : List.Forall₂ (fun request _ => Authorized τ service machine request ∧ True)
      (c.client.sent.take c.responses.length) c.responses := by
    apply (sections_come small reached sends).imp
    intro request event ⟨line, head, body, file, found, came, asksFile, _⟩
    exact ⟨asksFile.admitted.authorized asks came, trivial⟩
  exact ((List.forall₂_and_left _ _).mp both).1

end Connection

/-! ## One file -/

/-- A service with a password. -/
def sharedDir : FileService where
  fileDir := ascii "d"
  authMode := .basicAuth
  username := ascii "u"
  password := ascii "p"

/-- A machine with one locale and no directories. -/
def plainMachine : Machine where
  isDirectory _ := false
  utf8ToAnsi := id
  html _ _ := ascii "x"
  md5 := id
  time := []

/-- A place where the server has one file. -/
def oneFilePlace : Place :=
  { bare with serverFs := oneFile (ascii "d/f") fourBytes }

/-- The middle of a file. -/
def middle : HttpRange where
  useStartEndpoint := false
  useEndEndpoint := false
  start := 1
  stop := 2

/-- A request for the middle of the file, with the password. -/
def getMiddle : Request ListMultimap :=
  { (Request.generate : Request ListMultimap) with
    line := { path := ascii "/f" }
    head := addHead (addHead empty httpAuth (ascii "Basic dTpw")) httpRange (ascii "bytes=1-2") }

/-- The response that the service gives for an event, where it gives one. -/
def answerOf (service : FileService) (machine : Machine) (place : Place) :
    Event RequestLine τ → Option (Response τ)
  | .recv line head _ =>
    match (httpEventCb service machine place.serverSide.platform place.serverFs line head :
      Handled τ) with
    | .response response => some response
    | .close | .fault => none
  | _ => none

/-- What the service gives, it may answer. -/
theorem answerOf_answers {place : Place} {request : Event RequestLine τ} {response : Response τ}
    (gives : answerOf service machine place request = some response) :
    service.Answers machine place request response := by
  cases request with
  | recv line head body =>
    refine ⟨line, head, body, rfl, ?_⟩
    rw [answerOf] at gives
    cases handled : (httpEventCb service machine place.serverSide.platform place.serverFs line
      head : Handled τ) with
    | response sent =>
      rw [handled] at gives
      cases gives
      rfl
    | close =>
      rw [handled] at gives
      cases gives
    | fault =>
      rw [handled] at gives
      cases gives
  | recvHead => cases gives
  | error => cases gives

/-- The service answers the next request with a body. -/
theorem Step.serves {place : Place} {c : Conversation σ τ} {request : Event RequestLine τ}
    {response : Response τ} (next : c.requests[c.answered]? = some request)
    (gives : answerOf service machine place request = some response)
    (body : response.body.isSome = true) :
    Conversation.Step place (service.Answers machine place) c (.answer response)
      { c with
        server := { c.server.handOver (c.server.session.send response) with
          sent := c.server.sent ++ [response] }
        answered := c.answered + 1 } := by
  obtain ⟨line, head, bytes, _, handled⟩ := answerOf_answers gives
  obtain ⟨_, present⟩ := Option.isSome_iff_exists.mp body
  obtain ⟨file, range, asks, sets⟩ := httpEventCb_sends handled present
  obtain ⟨_, here, fresh, _⟩ := sets.body
  exact .answer next (answerOf_answers gives) (.send here fresh)

/-- The middle of the file reaches the client. -/
theorem middle_reached :
    ∃ c : Conversation ListMultimap ListMultimap,
      (conversation oneFilePlace (sharedDir.Answers plainMachine oneFilePlace)).Reachable c ∧
        c.client.sent = [getMiddle] ∧ c.responses.length = 1 := by
  have begins : (conversation oneFilePlace (sharedDir.Answers plainMachine oneFilePlace)).Reachable
      (.start oneFilePlace : Conversation ListMultimap ListMultimap) := .start rfl
  have asked := (begins.step (.client (.send getMiddle)) (.client (.send rfl rfl))).step
    (.client .connect) (.client .connect)
  have line := asked.step (.client (.read 1000))
    (.reads (by decide) (by decide +kernel) (by decide +kernel))
  have head := line.step (.client (.read 1000))
    (.reads (by decide) (by decide +kernel) (by decide +kernel))
  have came := (head.step (.toServer 60) (.takes (by decide +kernel))).step (.toServer 1000)
    (.takes (by decide +kernel))
  have answered := (came.step (.server .connect) (.server .connect rfl)).step (.answer _)
    (Step.serves (Option.some_get (by decide +kernel)).symm
      (Option.some_get (by decide +kernel)).symm (by decide +kernel))
  have line' := answered.step (.server (.read 1000))
    (.serves (by decide) (by decide +kernel) (by decide +kernel))
  have head' := line'.step (.server (.read 1000))
    (.serves (by decide) (by decide +kernel) (by decide +kernel))
  have body := head'.step (.server (.read 1000))
    (.serves (by decide) (by decide +kernel) (by decide +kernel))
  have got := (body.step (.toClient 100) (.gets (by decide +kernel))).step (.toClient 1000)
    (.gets (by decide +kernel))
  refine ⟨_, got, rfl, ?_⟩
  decide +kernel

/-- The one file is small. -/
theorem oneFilePlace_small : SmallFiles oneFilePlace.serverFs := by
  intro path file present
  have same : oneFile (ascii "d/f") fourBytes path = some file := present
  rw [oneFile] at same
  split at same
  · cases same
    decide
  · cases same

/-- The request for the middle may be sent. -/
theorem getMiddle_deliverable : Deliverable oneFilePlace.host getMiddle := by
  refine ⟨?_, ?_, ?_, ?_, ?_, ?_, ⟨RawBody.generate, rfl, rfl, rfl⟩⟩
  · decide
  · decide
  · decide
  · decide
  · decide
  · decide

/-- A GET with a range asks for the middle. -/
theorem getMiddle_asks : Asks getMiddle (ascii "/f") (some middle) where
  path := by decide
  short := by decide
  query := rfl
  header := by decide

/-- The client that asked for the middle of the file got it. -/
theorem fileService_ranges_middle :
    ∃ (c : Conversation ListMultimap ListMultimap) (event : Event ResponseLine ListMultimap),
      (conversation oneFilePlace (sharedDir.Answers plainMachine oneFilePlace)).Reachable c ∧
        c.responses = [event] ∧ HoldsSection fourBytes (some middle) event := by
  obtain ⟨c, reached, sent, one⟩ := middle_reached
  have came := fileService_ranges oneFilePlace_small reached
    (by simp [sent, getMiddle_deliverable])
  obtain ⟨event, only⟩ := List.length_eq_one_iff.mp one
  rw [sent, one, only] at came
  obtain ⟨file, present, holds⟩ := (List.forall₂_cons.mp came).1 _ _ getMiddle_asks
  have same : some fourBytes = some file := present
  cases same
  exact ⟨c, event, reached, only, holds⟩

/-- The client that got the middle of the file sent the password. -/
theorem fileService_authorized_middle :
    Authorized ListMultimap sharedDir plainMachine getMiddle := by
  obtain ⟨c, reached, sent, one⟩ := middle_reached
  apply fileService_authorized (by decide) oneFilePlace_small reached
    (by simp [sent, getMiddle_deliverable])
  rw [sent, one]
  exact List.mem_singleton_self _

end Hnw.Example
