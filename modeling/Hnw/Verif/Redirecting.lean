import Hnw.Service.Redirecting
import Hnw.Verif.Fetch
import Hnw.Verif.Redirect

/-!
# Chains of redirects

Behind a redirect to a path the URL of a task is the printed host with the path behind it, and the
same host is printed for it again. So however many redirects a server gives, all requests of the
download go to one point while the `Location` values are paths; and no number of them is too many.
-/

namespace Hnw.Service

open Hnw.Http Hnw.Util Hnw.Util.UnorderedMultimap Hnw.Theory

variable {base : UrlText} {first : SentRequest} {host : Bytes}

/-! ## The URLs of a chain -/

/-- The URLs of the tasks in a chain: the first one, or a path behind its printed host. -/
def AtOrigin (base : UrlText) (host url : Bytes) : Prop :=
  url = base.text ∨ ∃ more, url = host ++ slash :: more

/-- The point of a first request is the one of the URL. -/
theorem firstRequest_point {task : DownloadTask} {sent : SentRequest}
    (sends : firstRequest task = some sent) : startPoint task.url = some sent.point := by
  rw [firstRequest] at sends
  by_cases unknown : task.total.total = 0
  · rw [if_pos unknown] at sends
    obtain ⟨⟨_, _⟩, asked, rfl⟩ := Option.map_eq_some_iff.mp sends
    exact (statusRequest_sent asked).2.2.1
  · rw [if_neg unknown, downloadRequest] at sends
    obtain ⟨point, start, sends⟩ := Option.bind_eq_some_iff.mp sends
    obtain ⟨_, _, sends⟩ := Option.bind_eq_some_iff.mp sends
    obtain ⟨_, _, same⟩ := Option.bind_eq_some_iff.mp sends
    rw [← Option.some.inj same]
    exact start

/-- The requests of a chain go to the point of the first one. -/
theorem AtOrigin.point (formed : base.WellFormed)
    (asked : statusRequest base.text = some (first, host)) {task : DownloadTask}
    (origin : AtOrigin base host task.url) {sent : SentRequest}
    (sends : firstRequest task = some sent) : sent.point = first.point := by
  obtain begins | ⟨more, path⟩ := origin
  · have start := firstRequest_point sends
    rw [begins, (statusRequest_sent asked).2.2.1] at start
    exact (Option.some.inj start).symm
  · have request : firstRequest { task with url := host ++ slash :: more } = _ :=
      redirected_path formed asked more
    rw [← path, sends] at request
    split at request
    · rw [Option.some.inj request]
    · cases request

/-- The printed host of a chain stays. -/
theorem AtOrigin.host_eq (formed : base.WellFormed)
    (asked : statusRequest base.text = some (first, host)) {url printed : Bytes}
    (origin : AtOrigin base host url) {request : SentRequest}
    (again : statusRequest url = some (request, printed)) : printed = host := by
  obtain rfl | ⟨more, rfl⟩ := origin
  · rw [asked] at again
    exact (congrArg Prod.snd (Option.some.inj again)).symm
  · obtain ⟨param, found, some_, rfl, _⟩ := found_of_asked formed asked
    have hosts := (statusRequest_sent again).1
    have service : serviceOf base ≠ [] := by
      rw [serviceOf]
      split
      · decide
      · assumption
    rw [getHostForUrl, parserUrl_followed formed found more] at hosts
    simp only [Option.bind_eq_bind, Option.bind_some, if_neg some_, if_neg service] at hosts
    rw [← Option.some.inj hosts, printedPoint]
    split
    · rw [List.append_nil]
    · have mark : ascii ":" = [colonByte] := by decide
      simp only [mark, List.append_assoc, List.cons_append, List.nil_append]

/-! ## Every run -/

variable {σ : Type} [UnorderedMultimap σ] {s next : Redirecting}

/-- Whether an answer is a redirect. -/
def Moves (response : Response σ) : Prop :=
  response.line.statusCode = httpStatusMoveP ∨ response.line.statusCode = httpStatusMoveT

/-- A redirect leads to a path of the same host. -/
def LeadsToPath : RedirectLabel σ → Prop
  | .answer response => Moves response → ∃ more, getHead response.head httpLoc [] = slash :: more
  | .fails => True

/-- All requests go to the first point, and the task that waits belongs to the chain. -/
structure OneOrigin (base : UrlText) (first : SentRequest) (host : Bytes) (s : Redirecting) :
    Prop where
  /-- The requests. -/
  points : ∀ request ∈ s.sent, request.point = first.point
  /-- The task. -/
  waits : ∀ task, s.waiting = some task → AtOrigin base host task.url

/-- A status that is a redirect has the `Location` of the answer. -/
theorem answeredStatus_moves {printed : Bytes} {response : Response σ} {status : HttpResourceStatus}
    (answered : answeredStatus printed response = some status)
    (moved : status.status = httpStatusMoveP ∨ status.status = httpStatusMoveT) :
    Moves response ∧ status.host = printed ∧
      status.location = getHead response.head httpLoc [] := by
  rw [answeredStatus] at answered
  split at answered
  · rename_i partly
    obtain ⟨range, _, rfl⟩ := Option.map_eq_some_iff.mp answered
    simp only [partly] at moved
    exact absurd moved (by decide)
  · split at answered
    · rename_i moves
      obtain rfl := Option.some.inj answered
      exact ⟨moves, rfl, rfl⟩
    · rename_i stays
      obtain rfl := Option.some.inj answered
      exact absurd moved stays

/-- The `206` branch is no redirect. -/
theorem partialBranch_stays {task moved : DownloadTask} {size : UInt64} :
    partialBranch task size ≠ .redirect moved := by
  intro goes
  rw [partialBranch] at goes
  split at goes
  · cases goes
  · dsimp only at goes
    split at goes
    · cases goes
    · split at goes
      · cases goes
      · split at goes
        · cases goes
        · cases goes

/-- A task that goes on after a redirect has the `Location` behind the printed host. -/
theorem onStatus_redirect {task moved : DownloadTask} {status : HttpResourceStatus}
    (goes : onStatus task status = .redirect moved) :
    (status.status = httpStatusMoveP ∨ status.status = httpStatusMoveT) ∧
      moved = { task with url := status.host ++ status.location } := by
  rw [onStatus] at goes
  split at goes
  · split at goes
    · cases goes
    · cases goes
  · split at goes
    · rename_i moves
      exact ⟨moves, (Outcome.redirect.inj goes).symm⟩
    · split at goes
      · exact absurd goes partialBranch_stays
      · cases goes

/-- Every step keeps the download at its first point. -/
theorem OneOrigin.step (formed : base.WellFormed)
    (asked : statusRequest base.text = some (first, host)) (one : OneOrigin base first host s)
    {label : RedirectLabel σ} (leads : LeadsToPath label) (step : s.Step label next) :
    OneOrigin base first host next := by
  cases label with
  | fails =>
    obtain ⟨_, rfl⟩ := step
    exact ⟨one.points, fun _ waits => nomatch waits⟩
  | answer response =>
    obtain ⟨task, request, printed, status, waits, again, answered, rfl⟩ := step
    have origin := one.waits task waits
    cases outcome : onStatus task status with
    | redirect moved =>
      obtain ⟨moves, rfl⟩ := onStatus_redirect outcome
      obtain ⟨redirects, hosts, location⟩ := answeredStatus_moves answered moves
      obtain ⟨more, path⟩ := leads redirects
      have goesOn : AtOrigin base host (status.host ++ status.location) := by
        rw [hosts, location, path, origin.host_eq formed asked again]
        exact .inr ⟨more, rfl⟩
      refine ⟨fun sent member => ?_, fun task waits => ?_⟩
      · obtain before | now := List.mem_append.mp member
        · exact one.points sent before
        · exact AtOrigin.point formed asked goesOn (Option.mem_toList.mp now)
      · simp only [Redirecting.follow] at waits
        split at waits
        · rw [← Option.some.inj waits]
          exact goesOn
        · cases waits
    | tasks subs =>
      refine ⟨fun sent member => ?_, fun _ waits => nomatch waits⟩
      obtain before | now := List.mem_append.mp member
      · exact one.points sent before
      · obtain ⟨sub, started, sends⟩ := List.mem_filterMap.mp now
        have url := (onStatus_made outcome sub started).url
        exact AtOrigin.point formed asked (url ▸ origin) sends
    | error _ => exact ⟨one.points, fun _ waits => nomatch waits⟩
    | finished => exact ⟨one.points, fun _ waits => nomatch waits⟩
    | fault => exact ⟨one.points, fun _ waits => nomatch waits⟩

/-- In every run whose redirects all lead to paths, every request of a download goes to the point of
the first one: the questions about the resource, and the requests of the transfer. -/
theorem redirecting_origin (formed : base.WellFormed) {task : DownloadTask}
    (named : task.url = base.text)
    (reached : (redirecting task : System Redirecting (RedirectLabel σ)).ReachableWith
      (fun _ label => LeadsToPath label) s) :
    ∀ request ∈ s.sent, startPoint base.text = some request.point := by
  have kept : ∃ first host, statusRequest base.text = some (first, host) ∧
      OneOrigin base first host s := by
    apply reached.invariant
    · rintro _ ⟨first, host, asked, rfl⟩
      rw [named] at asked
      refine ⟨first, host, asked, fun request member => ?_, fun waiting waits => ?_⟩
      · rw [List.mem_singleton.mp member]
      · rw [← Option.some.inj waits]
        exact .inl named
    · rintro _ label _ ⟨first, host, asked, one⟩ leads step
      exact ⟨first, host, asked, one.step formed asked leads step⟩
  obtain ⟨first, host, asked, one⟩ := kept
  intro request member
  rw [one.points request member]
  exact (statusRequest_sent asked).2.2.1

/-- The download of `http://h/a`. -/
def shortTask : DownloadTask := { url := (shortUrl 104 97).text, output := ascii "f" }

/-- A redirect from `http://h/a` to `/b`, and from there to `/b`. -/
theorem redirecting_origin_twice :
    ∃ s : Redirecting, s.sent.length = 3 ∧
      ∀ request ∈ s.sent, startPoint (shortUrl 104 97).text = some request.point := by
  have formed := @shortUrl_wellFormed 104 (by decide) (by decide) (by decide) 97
  have leads : LeadsToPath (.answer (movedTo (ascii "/b"))) := fun _ => ⟨ascii "b", by decide⟩
  have begins : (redirecting shortTask :
      System Redirecting (RedirectLabel ListMultimap)).ReachableWith
        (fun _ label => LeadsToPath label) _ := .start ⟨_, _, statusRequest_short, rfl⟩
  have once := begins.step (.answer (movedTo (ascii "/b"))) leads
    ⟨_, _, _, _, rfl, statusRequest_short, rfl, rfl⟩
  have again : statusRequest (ascii "http://h" ++ ascii "/b") =
      some (⟨⟨ascii "h", ascii "http", none⟩, { method := ascii "HEAD", path := ascii "/b" }⟩,
        ascii "http://h") := by decide
  have reached := once.step (.answer (movedTo (ascii "/b"))) leads
    ⟨_, _, _, _, rfl, again, rfl, rfl⟩
  exact ⟨_, by decide, redirecting_origin formed rfl reached⟩

/-! ## No limit -/

/-- A redirect has no other status. -/
theorem Moves.ne {τ : Type} {response : Response τ} (moves : Moves response) {code : Bytes}
    (other : code ≠ httpStatusMoveP ∧ code ≠ httpStatusMoveT) :
    response.line.statusCode ≠ code := by
  rintro rfl
  exact moves.elim other.1 other.2

/-- The status of a redirect makes the task go on with the `Location`. -/
theorem onStatus_moved {response : Response σ} (moves : Moves response) (task : DownloadTask)
    (printed : Bytes) :
    ∃ status, answeredStatus printed response = some status ∧
      onStatus task status =
        .redirect { task with url := printed ++ getHead response.head httpLoc [] } := by
  have notPartial : response.line.statusCode ≠ httpStatusPartial := moves.ne (by decide)
  have notOk : response.line.statusCode ≠ httpStatusOk := moves.ne (by decide)
  rw [Moves] at moves
  rw [answeredStatus, if_neg notPartial, if_pos moves]
  refine ⟨_, rfl, ?_⟩
  rw [onStatus, if_neg notOk, if_pos moves]

/-- The request that a redirect to a path leads to. -/
def askedAt (first : SentRequest) (path : Bytes) : SentRequest :=
  ⟨first.point, lineOf httpMethodHead (cutFirst questionMark path).1
    (cutFirst questionMark path).2⟩

/-- A task that waits follows one more redirect to a path whose target is read. -/
theorem follow_again (formed : base.WellFormed)
    (asked : statusRequest base.text = some (first, host)) {task : DownloadTask}
    (origin : AtOrigin base host task.url) (unknown : task.total.total = 0)
    (waits : s.waiting = some task) (known : (firstRequest task).isSome) {response : Response σ}
    (moves : Moves response) {more : Bytes}
    (path : getHead response.head httpLoc [] = slash :: more)
    (reads : TargetReads (cutFirst questionMark (slash :: more)).1
      (cutFirst questionMark (slash :: more)).2) :
    s.Step (.answer response)
      { waiting := some { task with url := host ++ slash :: more }
        sent := s.sent ++ [askedAt first (slash :: more)] } := by
  obtain ⟨sent, sends⟩ := Option.isSome_iff_exists.mp known
  rw [firstRequest, if_pos unknown] at sends
  obtain ⟨⟨request, printed⟩, again, _⟩ := Option.map_eq_some_iff.mp sends
  obtain rfl := origin.host_eq formed asked again
  obtain ⟨status, answered, goes⟩ := onStatus_moved moves task printed
  refine ⟨task, request, printed, status, waits, again, answered, ?_⟩
  have next : firstRequest { task with url := printed ++ slash :: more } =
      some (askedAt first (slash :: more)) := by
    rw [redirected_path formed asked more, if_pos reads, firstMethod, if_pos unknown, askedAt]
  rw [goes, path, Redirecting.follow, next, if_pos ⟨unknown, rfl⟩]
  rfl

/-- There is no limit to the redirects that a download follows: a server that answers every question
with a redirect to one path is asked for that path as often as it answers. -/
theorem redirecting_endless (formed : base.WellFormed) {task : DownloadTask}
    (named : task.url = base.text) (unknown : task.total.total = 0)
    (asked : statusRequest base.text = some (first, host)) {response : Response σ}
    (moves : Moves response) {more : Bytes}
    (path : getHead response.head httpLoc [] = slash :: more)
    (reads : TargetReads (cutFirst questionMark (slash :: more)).1
      (cutFirst questionMark (slash :: more)).2) (count : Nat) :
    ∃ s : Redirecting, (redirecting task : System Redirecting (RedirectLabel σ)).Reachable s ∧
      s.waiting.isSome ∧
      s.sent = first :: List.replicate count (askedAt first (slash :: more)) := by
  have kept : ∃ (s : Redirecting) (waiting : DownloadTask),
      (redirecting task : System Redirecting (RedirectLabel σ)).Reachable s ∧
      s.waiting = some waiting ∧ AtOrigin base host waiting.url ∧ waiting.total.total = 0 ∧
      (firstRequest waiting).isSome ∧
      s.sent = first :: List.replicate count (askedAt first (slash :: more)) := by
    induction count with
    | zero =>
      refine ⟨⟨some task, [first]⟩, task, .start ⟨first, host, named ▸ asked, rfl⟩, rfl, .inl named,
        unknown, ?_, rfl⟩
      rw [firstRequest, if_pos unknown, named, asked]
      rfl
    | succ count ih =>
      obtain ⟨s, waiting, reached, waits, origin, zero, known, sent⟩ := ih
      have step := follow_again formed asked origin zero waits known moves path reads
      refine ⟨_, _, reached.step (.answer response) step, rfl, .inr ⟨more, rfl⟩, zero, ?_, ?_⟩
      · rw [redirected_path formed asked more, if_pos reads]
        rfl
      · show s.sent ++ _ = _
        rw [sent, List.replicate_succ', List.cons_append]
  obtain ⟨s, waiting, reached, waits, _, _, _, sent⟩ := kept
  exact ⟨s, reached, waits ▸ rfl, sent⟩

/-- A redirect from `http://h/a` to `/b` is followed a hundred times. -/
theorem redirecting_endless_hundred :
    ∃ (s : Redirecting) (first : SentRequest),
      (redirecting shortTask : System Redirecting (RedirectLabel ListMultimap)).Reachable s ∧
      s.waiting.isSome ∧ s.sent = first :: List.replicate 100 (askedAt first (ascii "/b")) := by
  have formed := @shortUrl_wellFormed 104 (by decide) (by decide) (by decide) 97
  have named : shortTask.url = (shortUrl 104 97).text := rfl
  have moves : Moves (movedTo (ascii "/b")) := .inr rfl
  have path : getHead (movedTo (ascii "/b")).head httpLoc [] = slash :: ascii "b" := by decide
  obtain ⟨s, reached, waits, sent⟩ :=
    redirecting_endless formed named rfl statusRequest_short moves path (by decide) 100
  exact ⟨s, _, reached, waits, sent⟩

end Hnw.Service
