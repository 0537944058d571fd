import Hnw.Service.Respond
import Hnw.Verif.SendServer

/-!
# Responses without a body

`pre_send` asks the body for its size and `on_read_response` reads it, and neither looks whether
there is one. A response that was generated has none until `set_file_body` succeeds.
-/

namespace Hnw.Http.Session

open Hnw.Util Hnw.Util.UnorderedMultimap

variable {σ : Type} [UnorderedMultimap σ] {fs : FileSystem} {buffSize : Nat}

/-- The responses of a session have bodies. -/
structure WithBodies (s : Session ResponseLine σ) : Prop where
  /-- The current one. -/
  current : ∀ response, s.sendStatus.message = some response → response.body ≠ none
  /-- The queued ones. -/
  queued : ∀ response ∈ s.queue, response.body ≠ none

/-- How many responses are not at their end. -/
def pending (s : Session ResponseLine σ) : Nat :=
  s.queue.length + if s.sendStatus.message.isSome then 1 else 0

/-- One thing that happens to a session; `none` where a null body is used. -/
def act (fs : FileSystem) (s : Session ResponseLine σ) :
    SendLabel ResponseLine σ → Option (Session ResponseLine σ)
  | .send response => some (s.send response).1
  | .connect => some s.onConnectEstablish.1
  | .read buffSize => (onReadResponse fs buffSize s).map Read.session

variable {s : Session ResponseLine σ}

/-- The stages of a response with a body use no null body, and leave one with a body. -/
theorem sendStages_body {response : Response σ} {body : Body} (present : response.body = some body)
    (status : EnSendStatus) (cache : Bytes) :
    sendStages fs buffSize status response cache = some .bodyEnd ∨
      ∃ bytes left later, sendStages fs buffSize status response cache =
        some (.bytes bytes left) ∧ left.message = some later ∧ later.body ≠ none := by
  have atBody : ∀ cache, sendBody fs buffSize response cache = some .bodyEnd ∨
      ∃ bytes left later, sendBody fs buffSize response cache = some (.bytes bytes left) ∧
        left.message = some later ∧ later.body ≠ none := by
    intro cache
    simp only [sendBody, present, Option.map_some]
    split
    · exact .inl rfl
    · exact .inr ⟨_, _, _, rfl, rfl, Option.some_ne_none _⟩
  have atHead : ∀ cache, sendHead fs buffSize response cache = some .bodyEnd ∨
      ∃ bytes left later, sendHead fs buffSize response cache = some (.bytes bytes left) ∧
        left.message = some later ∧ later.body ≠ none := by
    intro cache
    unfold sendHead
    split
    · exact atBody cache
    · exact .inr ⟨_, _, _, rfl, rfl, by simp [present]⟩
  cases status with
  | line =>
    simp only [sendStages, sendLine]
    split
    · exact atHead _
    · exact .inr ⟨_, _, _, rfl, rfl, by simp [present]⟩
  | head => exact atHead cache
  | body => exact atBody cache

/-- The next response of a session whose responses have bodies has one. -/
theorem takeNext_body (bodies : WithBodies s) :
    (takeNext (preSendResponse s.sessionHead) ResponseLine.string s = some none) ∨
      ∃ next response body, takeNext (preSendResponse s.sessionHead) ResponseLine.string s =
          some (some (next, response)) ∧
        response.body = some body ∧ next.sendStatus.message = some response ∧
        WithBodies next ∧ pending next = pending s := by
  unfold takeNext
  cases current : s.sendStatus.message with
  | some response =>
    obtain ⟨body, present⟩ := Option.ne_none_iff_exists'.mp (bodies.current response current)
    exact .inr ⟨s, response, body, rfl, present, current, bodies, rfl⟩
  | none =>
    cases waiting : s.queue with
    | nil => exact .inl rfl
    | cons first queue =>
      have some_ := bodies.queued first (by simp [waiting])
      obtain ⟨body, present⟩ := Option.ne_none_iff_exists'.mp some_
      obtain ⟨ready, close, made, _, kept⟩ := preSendResponse_prepares s.sessionHead first body
        present
      right
      simp only [made, Option.map_some]
      refine ⟨_, ready, body, rfl, kept, rfl, ⟨?_, ?_⟩, ?_⟩
      · intro response same
        cases same
        simp [kept]
      · exact fun response member => bodies.queued response (by simp [waiting, member])
      · simp [pending, current, waiting]

/-- The loop returns within one round more than responses are pending. -/
theorem onReadResponseFrom_body (bodies : WithBodies s) {rounds : Nat}
    (enough : pending s < rounds) :
    ∃ read, onReadResponseFrom fs buffSize rounds s = some read ∧ WithBodies read.session := by
  induction rounds generalizing s with
  | zero => exact absurd enough (Nat.not_lt_zero _)
  | succ rounds ih =>
    rcases takeNext_body bodies with drained | ⟨next, response, body, taken, present, current,
      later, same⟩
    · refine ⟨readDrained s, ?_, bodies.current, bodies.queued⟩
      simp only [onReadResponseFrom, drained, Option.bind_eq_bind, Option.bind_some,
        Option.pure_def]
    · rcases @sendStages_body _ _ fs buffSize response body present next.sendStatus.status
          next.sendStatus.cache with ended | ⟨bytes, left, kept, stages, message, some_⟩
      · have fewer : pending (messageEnd next) < rounds := by
          simp only [pending, current, Option.isSome_some, if_true] at same
          simp only [pending, messageEnd, Option.isSome_none, Bool.false_eq_true, if_false]
          rw [pending] at enough
          omega
        have idle : WithBodies (messageEnd next) :=
          ⟨by simp [messageEnd], later.queued⟩
        obtain ⟨read, found, done⟩ := @ih (messageEnd next) idle fewer
        refine ⟨read, ?_, done⟩
        simp only [onReadResponseFrom, taken, ended, Option.bind_eq_bind, Option.bind_some]
        exact found
      · refine ⟨⟨bytes, false, { next with sendStatus := left }⟩, ?_, ?_, later.queued⟩
        · simp only [onReadResponseFrom, taken, stages, Option.bind_eq_bind, Option.bind_some,
            Option.pure_def]
        · intro other there
          rw [message] at there
          cases there
          exact some_

/-- Handing over a response with a body, connecting and reading keep the bodies and use no null
body. -/
theorem act_body (bodies : WithBodies s) {label : SendLabel ResponseLine σ}
    (some_ : ∀ response, label = .send response → response.body ≠ none) :
    ∃ later, act fs s label = some later ∧ WithBodies later := by
  cases label with
  | send response =>
    refine ⟨_, rfl, ?_⟩
    rw [send, (startSend_eq _).1]
    refine ⟨bodies.current, fun other member => ?_⟩
    rcases List.mem_append.mp member with queued | new
    · exact bodies.queued other queued
    · rw [List.mem_singleton.mp new]
      exact some_ response rfl
  | connect =>
    refine ⟨_, rfl, ?_⟩
    rw [onConnectEstablish, (startSend_eq _).1]
    exact ⟨bodies.current, bodies.queued⟩
  | read size =>
    have enough : pending s < s.queue.length + 2 := by
      unfold pending
      split <;> omega
    obtain ⟨read, found, done⟩ := @onReadResponseFrom_body _ _ fs size s bodies _ enough
    refine ⟨read.session, ?_, done⟩
    rw [act, onReadResponse, found]
    rfl

/-- A run in which only responses with bodies are handed over uses no null body. -/
theorem acts_body (bodies : WithBodies s) {labels : List (SendLabel ResponseLine σ)}
    (some_ : ∀ response, .send response ∈ labels → response.body ≠ none) :
    (labels.foldlM (act fs) s).isSome := by
  induction labels generalizing s with
  | nil => rfl
  | cons label labels ih =>
    obtain ⟨later, acts, still⟩ := @act_body _ _ fs s bodies label
      fun response same => some_ response (by simp [same])
    rw [List.foldlM_cons, acts]
    exact ih still fun response member => some_ response (List.mem_cons_of_mem _ member)

/-! ## A null body -/

/-- At the end of its head a response without a body is a fault. -/
theorem onReadResponse_null {response : Response σ} (null : response.body = none)
    (current : s.sendStatus = ⟨.head, some response, []⟩) :
    onReadResponse fs buffSize s = none := by
  simp only [onReadResponse, onReadResponseFrom, takeNext, current, sendStages, sendHead, sendBody,
    null, if_true, Option.map_none, Option.bind_eq_bind, Option.bind_some, Option.bind_none]

/-- Before that the head is read, in one call where the buffer is large enough. -/
theorem onReadResponse_head {response : Response σ}
    (current : s.sendStatus = ⟨.line, some response, []⟩) :
    ∃ size read, onReadResponse fs size s = some read ∧
      read.session.sendStatus = ⟨.head, some response, []⟩ := by
  have something : headString response.head ++ crlf ≠ [] := by simp [crlf]
  refine ⟨(headString response.head ++ crlf).length, ⟨headString response.head ++ crlf, false,
    { s with sendStatus := ⟨.head, some response, []⟩ }⟩, ?_, rfl⟩
  simp only [onReadResponse, onReadResponseFrom, takeNext, current, sendStages, sendLine, sendHead,
    if_true, if_neg something, moveCache, Nat.le_refl, List.take_length, List.drop_length,
    Option.bind_eq_bind, Option.bind_some, Option.pure_def]

/-- The line is sent before the head, unless `pre_send` is a fault already. -/
theorem onReadResponse_line {response : Response σ} (null : response.body = none)
    (idle : s.sendStatus.message = none) (queued : s.queue = [response]) :
    onReadResponse fs 1 s = none ∨ ∃ size read ready, onReadResponse fs size s = some read ∧
      read.session.sendStatus = ⟨.line, some ready, []⟩ ∧ ready.body = none := by
  by_cases absent : getHeadCount response.head httpLen = 0
  · left
    have made : preSendResponse s.sessionHead response = none := by
      rw [preSendResponse, addLength, if_pos absent, null]
      rfl
    simp only [onReadResponse, onReadResponseFrom, takeNext, idle, queued, made, Option.map_none,
      Option.bind_eq_bind, Option.bind_none]
  · right
    have made : ∃ ready close, preSendResponse s.sessionHead response = some (ready, close) ∧
        ready.body = none := by
      rw [preSendResponse, addLength, if_neg absent]
      exact ⟨_, _, rfl, null⟩
    obtain ⟨ready, close, made, none⟩ := made
    have something : ResponseLine.string ready.line ++ crlf ≠ [] := by simp [crlf]
    refine ⟨(ResponseLine.string ready.line ++ crlf).length,
      ⟨ResponseLine.string ready.line ++ crlf, false,
        { s with queue := [], sendStatus := ⟨.line, some ready, []⟩,
                 closeAfterSendFlag := s.closeAfterSendFlag || close }⟩, ready, ?_, rfl, none⟩
    simp only [onReadResponse, onReadResponseFrom, takeNext, idle, queued, made, Option.map_some,
      sendStages, sendLine, if_neg something, moveCache, Nat.le_refl, if_true, List.take_length,
      List.drop_length, Option.bind_eq_bind, Option.bind_some, Option.pure_def]

/-- A response without a body that is handed to a new session, which is then connected, is a fault
within three reads. -/
theorem null_faults (fs : FileSystem) {response : Response σ} (null : response.body = none) :
    ∃ labels : List (SendLabel ResponseLine σ), (∀ other, .send other ∉ labels) ∧
      labels.foldlM (act fs) ((generate serverHead).send response).1 = none := by
  have started : ∃ ready : Session ResponseLine σ,
      act fs ((generate serverHead).send response).1 .connect = some ready ∧
        ready.sendStatus.message = none ∧ ready.queue = [response] := by
    refine ⟨_, rfl, ?_⟩
    rw [onConnectEstablish, (startSend_eq _).1, send, (startSend_eq _).1]
    exact ⟨rfl, rfl⟩
  obtain ⟨ready, connects, idle, queued⟩ := started
  rcases @onReadResponse_line _ _ fs ready response null idle queued with
    fault | ⟨lineSize, first, next, line, atLine, nothing⟩
  · refine ⟨[.connect, .read 1], by simp, ?_⟩
    rw [List.foldlM_cons, connects]
    simp only [List.foldlM_cons, act, fault, Option.bind_eq_bind, Option.bind_some,
      Option.map_none, Option.bind_none]
  · obtain ⟨headSize, second, head, atHead⟩ := @onReadResponse_head _ _ fs first.session next atLine
    have fault := @onReadResponse_null _ _ fs 1 second.session next nothing atHead
    refine ⟨[.connect, .read lineSize, .read headSize, .read 1], by simp, ?_⟩
    rw [List.foldlM_cons, connects]
    simp only [List.foldlM_cons, act, line, head, fault, Option.bind_eq_bind, Option.bind_some,
      Option.map_some, Option.map_none, Option.bind_none]

/-- What a response that is handed over should be. -/
structure SentWell (response : Response σ) : Prop where
  /-- Whatever else happens to whatever server session, as long as its other responses have bodies:
  no null body is used. -/
  safe : ∀ fs (s : Session ResponseLine σ), WithBodies s →
    ∀ labels : List (SendLabel ResponseLine σ),
      (∀ other, .send other ∈ labels → other.body ≠ none) →
        (labels.foldlM (act fs) (s.send response).1).isSome
  /-- Without a body it is sent as an empty one. -/
  empty : response.body = none → ∀ sessionHead : σ, ∃ ready close,
    preSendResponse sessionHead response = some (ready, close) ∧
      (httpLen, decimal 0) ∈ toList ready.head

/-- A response is sent well exactly where it has a body. -/
theorem sentWell_iff_body (response : Response σ) : SentWell response ↔ response.body ≠ none := by
  constructor
  · rintro well null
    have idle : WithBodies (generate (serverHead : σ)) :=
      ⟨by simp [generate], by simp [generate]⟩
    obtain ⟨labels, others, fault⟩ := null_faults (fun _ => none) null
    have safe := well.safe (fun _ => none) _ idle labels
      fun other member => absurd member (others other)
    rw [fault] at safe
    cases safe
  · intro some_
    refine ⟨fun fs s bodies labels others => ?_, fun null => absurd null some_⟩
    obtain ⟨later, sends, still⟩ := @act_body _ _ fs s bodies (.send response)
      fun other same => by cases same; exact some_
    cases sends
    exact acts_body still others

end Hnw.Http.Session

namespace Hnw.Service

open Hnw.Http Hnw.Util Hnw.Util.UnorderedMultimap

variable {σ : Type} [UnorderedMultimap σ]

/-! ## The ways to make a response -/

/-- Whether one of the calls of `set_file_body` opens its file. -/
def opensFile (platform : Platform) : List BuildStep → FileSystem → Bool
  | [], _ => false
  | .setFileBody path range flag :: steps, fs =>
    match FileBody.generate platform fs path range flag with
    | (some _, _) => true
    | (none, fs) => opensFile platform steps fs
  | _ :: steps, fs => opensFile platform steps fs

/-- Whether a way to make a response gives it a body. -/
def Way.GivesBody (platform : Platform) (fs : FileSystem) : Way σ → Prop
  | .generated steps => opensFile platform steps fs = true
  | _ => True

/-- A step never takes a body away. -/
theorem buildSteps_keep (platform : Platform) {made : Response σ × FileSystem}
    (some_ : made.1.body ≠ none) (steps : List BuildStep) :
    (steps.foldl (buildStep platform) made).1.body ≠ none := by
  induction steps generalizing made with
  | nil => exact some_
  | cons step steps ih =>
    apply ih
    cases step with
    | setFileBody path range flag =>
      simp only [buildStep, Response.setFileBody]
      split
      · exact some_
      · exact Option.some_ne_none _
    | _ => exact some_

/-- A response that was generated has a body exactly where a call of `set_file_body` opened its
file. -/
theorem buildSteps_body (platform : Platform) {response : Response σ} (null : response.body = none)
    (fs : FileSystem) (steps : List BuildStep) :
    (steps.foldl (buildStep platform) (response, fs)).1.body ≠ none ↔
      opensFile platform steps fs = true := by
  induction steps generalizing response fs with
  | nil => simp [null, opensFile]
  | cons step steps ih =>
    rw [List.foldl_cons]
    cases step with
    | setFileBody path range flag =>
      rcases opened : FileBody.generate platform fs path range flag with ⟨_ | body, left⟩
      · simp only [buildStep, Response.setFileBody, opensFile, opened]
        exact ih null left
      · simp only [buildStep, Response.setFileBody, opensFile, opened]
        exact iff_of_true (buildSteps_keep platform (by simp) steps) trivial
    | statusCode code =>
      exact @ih { response with line := response.line.setStatusCode code } null fs
    | addHead key value =>
      exact @ih { response with head := Http.addHead response.head key value } null fs
    | delHead key => exact @ih { response with head := Http.delHead response.head key } null fs

/-- Whatever way a response is made in, it is sent well exactly where that way gives it a body. -/
theorem response_sentWell_iff {platform : Platform} {fs left : FileSystem} {way : Way σ}
    {response : Response σ} (made : way.response platform fs = some (response, left)) :
    Session.SentWell response ↔ way.GivesBody platform fs := by
  rw [Session.sentWell_iff_body]
  cases way with
  | generated steps =>
    have same : (steps.foldl (buildStep platform) (Response.generate, fs)).1 = response :=
      congrArg Prod.fst (Option.some.inj made)
    rw [← same]
    exact buildSteps_body platform rfl fs steps
  | raw code data extHead =>
    obtain ⟨sent, raw, same⟩ := Option.map_eq_some_iff.mp made
    cases same
    unfold rawResponse at raw
    simp only at raw
    split at raw
    · cases raw
    · cases raw
      exact iff_of_true (Option.some_ne_none _) trivial
  | file code filepath extHead =>
    simp only [Way.response, fileResponse, Option.bind_eq_bind, Option.bind_eq_some_iff] at made
    obtain ⟨range, _, made⟩ := made
    split at made
    · cases made
    · cases made
      exact iff_of_true (Option.some_ne_none _) trivial

/-- `raw_response` gives the response a body. -/
theorem rawResponse_sentWell :
    ∃ response : Response ListMultimap, (Way.raw (ascii "200") (ascii "hi") none).response linux
      (fun _ => none) = some (response, fun _ => none) ∧ Session.SentWell response := by
  have made : (Way.raw (ascii "200") (ascii "hi") (none : Option ListMultimap)).response linux
      (fun _ => none) = some ({ line := {}, head := empty, body := some (.raw
        { body := ascii "hi", maximumCapacity := 0, increment := true, writePos := 2 }) },
        fun _ => none) := rfl
  exact ⟨_, made, (response_sentWell_iff made).mpr trivial⟩

/-- `HnwHttp_GenerateResponse` alone does not. -/
theorem generated_not_sentWell :
    ¬ ∀ (way : Way ListMultimap) response left,
      way.response linux (fun _ => none) = some (response, left) → Session.SentWell response := by
  intro always
  have well := always (.generated []) Response.generate (fun _ => none) rfl
  exact (Session.sentWell_iff_body _).mp well rfl

end Hnw.Service
