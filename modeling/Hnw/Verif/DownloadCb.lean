import Hnw.Service.DownloadCb
import Hnw.Theory.Transition

/-!
# Telling the callback

One call of `on_download_status_change` tells the callback once and, where the task stops, clears
the connection's callback and closes it. It stops wherever an error is set, so the notice of a
`200` answer, which is an error code, always ends the task. `download_cb` tells the callback
again at its end, also after an `ERROR` event or a failing installation has ended the task.
-/

namespace Hnw.Service

open Hnw.Http Hnw.Util Hnw.Util.UnorderedMultimap Hnw.Theory

namespace DownloadState

variable {σ : Type} {s : DownloadState σ} {cb : HttpDownloadCb} {handle : Int}

/-! ## One report -/

/-- What a report does to the connection. -/
def closing (handle : Int) (s : DownloadState σ) (cb : HttpDownloadCb) : List (DownloadAction σ) :=
  if s.stops cb ∧ handle ≠ hnwInvalidHandle then [.clearEventCb handle, .close handle] else []

/-- A report and what it does to the connection. -/
def reporting (handle : Int) (s : DownloadState σ) (cb : HttpDownloadCb) :
    List (DownloadAction σ) :=
  .callback s.report (s.answer cb) :: s.closing handle cb

/-- Without a callback nothing is reported. -/
theorem change_silent (silent : s.cb = none) : s.onDownloadStatusChange handle = (s, false) := by
  rw [onDownloadStatusChange, silent]

/-- With a callback there is one report, and the task goes on unless it stops. -/
theorem change_reports (told : s.cb = some cb) :
    s.onDownloadStatusChange handle = (s.act (s.reporting handle cb), !s.stops cb) := by
  rw [onDownloadStatusChange, told]
  by_cases stop : s.stops cb
  · by_cases valid : handle = hnwInvalidHandle
    · simp [stop, valid, act, reporting, closing]
    · simp [stop, valid, act, reporting, closing]
  · simp [stop, act, reporting, closing]

/-- An error stops the task. -/
theorem stops_of_error (bad : s.error ≠ hnwBaseOk) (cb : HttpDownloadCb) : s.stops cb := by
  simp [stops, bad]

/-- A report calls the callback once. -/
theorem callback_mem_reporting {report : DownloadReport} {answer : Bool} :
    .callback report answer ∈ s.reporting handle cb ↔
      report = s.report ∧ answer = s.answer cb := by
  rw [reporting, closing]
  split <;> simp

/-- A report closes the connection where it stops the task and the handle is a handle. -/
theorem close_mem_reporting {closed : Int} :
    .close closed ∈ s.reporting handle cb ↔
      s.stops cb ∧ handle ≠ hnwInvalidHandle ∧ closed = handle := by
  rw [reporting, closing]
  by_cases ends : s.stops cb ∧ handle ≠ hnwInvalidHandle
  · simp [ends]
  · rw [if_neg ends]
    simp only [List.mem_singleton, reduceCtorEq, false_iff]
    exact fun both => ends ⟨both.1, both.2.1⟩

/-! ## The notice of a `200` answer -/

variable [UnorderedMultimap σ] {surroundings : Surroundings} {response : Response σ}

/-- The task as the callback is asked about it. -/
def atNotice (response : Response σ) (s : DownloadState σ) : DownloadState σ :=
  { s with response := some response }.wholeResource response

/-- The answer to the notice decides: where it is true the file is installed, the error is reset
and the connection stays open, and where it is false the connection is closed. -/
def NoticeDecides (surroundings : Surroundings) (handle : Int) (response : Response σ)
    (s : DownloadState σ) : Prop :=
  ∃ later more, s.downloadCb surroundings handle (.recvResponseHead response) = some later ∧
    later.actions = s.actions ++ more ∧
    ∀ notice : DownloadReport, notice.status = hnwHttpNotSupportRange →
      (.callback notice true ∈ more →
        later.error = hnwBaseOk ∧
        (∃ file, (later.response.bind fun response => response.body) = some (.file file)) ∧
        ∀ closed, .close closed ∉ more) ∧
      (.callback notice false ∈ more → .close handle ∈ more)

/-- A `200` answer ends in the notice. -/
theorem downloadCb_whole (told : s.cb = some cb) (first : s.response = none)
    (whole : response.line.statusCode = httpStatusOk) :
    s.downloadCb surroundings handle (.recvResponseHead response) =
      some ((s.atNotice response).act ((s.atNotice response).reporting handle cb)) := by
  have stop : (s.atNotice response).stops cb :=
    stops_of_error (by decide : hnwHttpNotSupportRange ≠ hnwBaseOk) cb
  have asked := @change_reports σ (s.atNotice response) cb handle told
  rw [stop, Bool.not_true] at asked
  rw [downloadCb, first, Option.isSome_none, if_neg Bool.false_ne_true, onResponseHead,
    if_pos whole]
  show (if ((s.atNotice response).onDownloadStatusChange handle).2 then _ else
    some ((s.atNotice response).onDownloadStatusChange handle).1) = _
  rw [asked, if_neg Bool.false_ne_true]

/-- At the first answer the notice decides where its answer is false. -/
theorem noticeDecides_first (told : s.cb = some cb) (first : s.response = none)
    (whole : response.line.statusCode = httpStatusOk) :
    s.NoticeDecides surroundings handle response ↔
      (s.atNotice response).answer cb = false ∧ handle ≠ hnwInvalidHandle := by
  have run : s.downloadCb surroundings handle (.recvResponseHead response) =
      some ((s.atNotice response).act ((s.atNotice response).reporting handle cb)) :=
    downloadCb_whole told first whole
  have bad : (s.atNotice response).error ≠ hnwBaseOk :=
    (by decide : hnwHttpNotSupportRange ≠ hnwBaseOk)
  constructor
  · rintro ⟨later, more, ran, grown, decides⟩
    obtain rfl : (s.atNotice response).act ((s.atNotice response).reporting handle cb) = later :=
      Option.some.inj (run.symm.trans ran)
    obtain rfl : (s.atNotice response).reporting handle cb = more :=
      List.append_cancel_left grown
    have asked := decides (s.atNotice response).report rfl
    cases answer : (s.atNotice response).answer cb with
    | true => exact absurd (asked.1 (callback_mem_reporting.mpr ⟨rfl, answer.symm⟩)).1 bad
    | false =>
      have closed := asked.2 (callback_mem_reporting.mpr ⟨rfl, answer.symm⟩)
      exact ⟨rfl, (close_mem_reporting.mp closed).2.1⟩
  · rintro ⟨answer, valid⟩
    refine ⟨_, _, run, rfl, fun notice _ => ⟨fun asked => ?_, fun _ => ?_⟩⟩
    · have answered := (callback_mem_reporting.mp asked).2
      rw [answer] at answered
      exact absurd answered (by decide)
    · exact close_mem_reporting.mpr ⟨stops_of_error bad cb, valid, rfl⟩

/-- For a task with a callback and a `200` answer, the answer to the notice decides exactly where
the task has a response already, so there is no notice, or the answer is false and the handle is
a handle. -/
theorem noticeDecides_iff (surroundings : Surroundings) (handle : Int) (response : Response σ)
    (s : DownloadState σ) (cb : HttpDownloadCb) (told : s.cb = some cb)
    (whole : response.line.statusCode = httpStatusOk) :
    s.NoticeDecides surroundings handle response ↔
      s.response.isSome ∨
        (s.atNotice response).answer cb = false ∧ handle ≠ hnwInvalidHandle := by
  by_cases first : s.response = none
  · rw [first, Option.isSome_none, or_iff_right Bool.false_ne_true]
    exact noticeDecides_first told first whole
  · have present : s.response.isSome := Option.isSome_iff_ne_none.mpr first
    refine ⟨fun _ => .inl present, fun _ => ⟨s, [], ?_, (List.append_nil _).symm, ?_⟩⟩
    · rw [downloadCb, if_pos present]
    · intro notice _
      exact ⟨fun asked => absurd asked List.not_mem_nil, fun asked => absurd asked List.not_mem_nil⟩

/-- A task whose callback always gives one answer. -/
def answering (answer : Bool) : DownloadState ListMultimap :=
  { task := { url := ascii "http://h/f", output := ascii "f" }, cb := some fun _ => answer,
    files := ⟨fun _ => none, 0⟩ }

/-- A callback that declines the notice ends the task, as it should. -/
theorem noticeDecides_declined :
    (answering false).NoticeDecides ⟨linux, fun _ => []⟩ 1 ⟨{}, empty, none⟩ :=
  (noticeDecides_iff ⟨linux, fun _ => []⟩ 1 ⟨{}, empty, none⟩ (answering false) (fun _ => false)
    rfl rfl).mpr (.inr ⟨rfl, by decide⟩)

/-- A callback that agrees to go on without ranges is not followed. -/
theorem noticeDecides_agreed :
    ¬ (answering true).NoticeDecides ⟨linux, fun _ => []⟩ 1 ⟨{}, empty, none⟩ := by
  intro decides
  have told : (answering true).cb = some fun _ => true := rfl
  have declined := (noticeDecides_first told rfl rfl).mp decides
  exact absurd declined.1 (by decide)

end DownloadState

/-! ## Actions after the end -/

/-- The action closes the connection. -/
def DownloadAction.Closes {σ : Type} (action : DownloadAction σ) : Prop :=
  ∃ handle, action = .close handle

/-- The action calls the callback. -/
def DownloadAction.Calls {σ : Type} (action : DownloadAction σ) : Prop :=
  ∃ report answer, action = .callback report answer

/-- No action after one that closes the connection calls the callback. -/
def StaysFinished {σ : Type} (actions : List (DownloadAction σ)) : Prop :=
  actions.Pairwise fun earlier later => earlier.Closes → ¬ later.Calls

section Actions

variable {σ : Type} {before after : List (DownloadAction σ)}

/-- Two stretches stay finished where each does and none calls after a close of the other. -/
theorem staysFinished_append :
    StaysFinished (before ++ after) ↔
      StaysFinished before ∧ StaysFinished after ∧
        ((∃ action ∈ before, action.Closes) → ¬ ∃ action ∈ after, action.Calls) := by
  rw [StaysFinished, List.pairwise_append]
  constructor
  · rintro ⟨first, second, cross⟩
    refine ⟨first, second, ?_⟩
    rintro ⟨earlier, member, closes⟩ ⟨later, follows, calls⟩
    exact cross earlier member later follows closes calls
  · rintro ⟨first, second, cross⟩
    refine ⟨first, second, fun earlier member later follows closes calls => ?_⟩
    exact cross ⟨earlier, member, closes⟩ ⟨later, follows, calls⟩

/-- Where nothing is called, nothing is called too late. -/
theorem staysFinished_of_silent (silent : ¬ ∃ action ∈ after, action.Calls) :
    StaysFinished after :=
  List.pairwise_of_forall_mem_list fun _ _ later member _ calls => silent ⟨later, member, calls⟩

end Actions

namespace DownloadState

variable {σ : Type} {s : DownloadState σ} {cb : HttpDownloadCb} {handle : Int}

/-- A report calls. -/
theorem reporting_calls (handle : Int) (s : DownloadState σ) (cb : HttpDownloadCb) :
    ∃ action ∈ s.reporting handle cb, action.Calls :=
  ⟨_, List.mem_cons_self, s.report, s.answer cb, rfl⟩

/-- A report closes where it stops the task and the handle is a handle. -/
theorem reporting_closes :
    (∃ action ∈ s.reporting handle cb, action.Closes) ↔
      s.stops cb ∧ handle ≠ hnwInvalidHandle := by
  constructor
  · rintro ⟨_, member, closed, rfl⟩
    have ends := close_mem_reporting.mp member
    exact ⟨ends.1, ends.2.1⟩
  · rintro ⟨stop, valid⟩
    exact ⟨_, close_mem_reporting.mpr ⟨stop, valid, rfl⟩, handle, rfl⟩

/-- Closing calls nothing. -/
theorem closing_silent (handle : Int) (s : DownloadState σ) (cb : HttpDownloadCb) :
    ¬ ∃ action ∈ s.closing handle cb, action.Calls := by
  rintro ⟨action, member, report, answer, rfl⟩
  rw [closing] at member
  split at member <;> simp at member

/-- One report stays finished. -/
theorem staysFinished_reporting (handle : Int) (s : DownloadState σ) (cb : HttpDownloadCb) :
    StaysFinished (s.reporting handle cb) :=
  List.pairwise_cons.mpr
    ⟨fun later member _ calls => closing_silent handle s cb ⟨later, member, calls⟩,
      staysFinished_of_silent (closing_silent handle s cb)⟩

/-- A second report is too late where the first one closes. -/
theorem staysFinished_twice {later : DownloadState σ} :
    StaysFinished (s.reporting handle cb ++ later.reporting handle cb) ↔
      ¬ (s.stops cb ∧ handle ≠ hnwInvalidHandle) := by
  rw [staysFinished_append, reporting_closes]
  constructor
  · exact fun all closes => all.2.2 closes (reporting_calls handle later cb)
  · intro open_
    exact ⟨staysFinished_reporting handle s cb, staysFinished_reporting handle later cb,
      fun closes => absurd closes open_⟩

/-! ## What is added -/

/-- What is added to the actions before: the callback stays, and the new actions stay finished
among themselves and call, each where it is said to. -/
structure Adds (cb : HttpDownloadCb) (before : List (DownloadAction σ)) (later : DownloadState σ)
    (finished calls : Prop) : Prop where
  /-- The callback stays. -/
  told : later.cb = some cb
  /-- The actions are added to. -/
  added : ∃ more, later.actions = before ++ more ∧ (StaysFinished more ↔ finished) ∧
    ((∃ action ∈ more, action.Calls) ↔ calls)

/-- The report at the end. -/
theorem adds_report (told : s.cb = some cb) :
    Adds cb s.actions (s.onDownloadStatusChange handle).1 True True := by
  rw [change_reports told]
  exact ⟨told, _, rfl, iff_true_intro (staysFinished_reporting handle s cb),
    iff_true_intro (reporting_calls handle s cb)⟩

/-- A report of a branch and the one at the end. -/
theorem adds_twice (told : s.cb = some cb) :
    Adds cb s.actions ((s.onDownloadStatusChange handle).1.onDownloadStatusChange handle).1
      (¬ (s.stops cb ∧ handle ≠ hnwInvalidHandle)) True := by
  have still : (s.act (s.reporting handle cb)).cb = some cb := told
  rw [change_reports told, change_reports still]
  refine ⟨told, _, List.append_assoc _ _ _, staysFinished_twice, iff_true_intro ?_⟩
  have first := reporting_calls handle s cb
  exact first.imp fun action both => ⟨List.mem_append_left _ both.1, both.2⟩

/-- Where an addition stays finished and calls may be said in other words. -/
theorem Adds.congr {before : List (DownloadAction σ)} {later : DownloadState σ}
    {finished finished' calls calls' : Prop} (adds : Adds cb before later finished calls)
    (finishes : finished ↔ finished') (called : calls ↔ calls') :
    Adds cb before later finished' calls' := by
  obtain ⟨told, more, grown, stays, speaks⟩ := adds
  exact ⟨told, more, grown, stays.trans finishes, speaks.trans called⟩

/-- What comes before a report, and neither closes nor calls, changes nothing about it. -/
theorem Adds.after_request {before : List (DownloadAction σ)} {later : DownloadState σ}
    {method uri : Bytes} {extHead : σ} {finished : Prop}
    (adds : Adds cb (before ++ [.rawRequest method uri extHead]) later finished True) :
    Adds cb before later finished True := by
  obtain ⟨told, more, grown, finishes, calls⟩ := adds
  have request : ∀ action ∈ [(.rawRequest method uri extHead : DownloadAction σ)],
      ¬ action.Closes ∧ ¬ action.Calls := by
    intro action member
    rw [List.mem_singleton.mp member]
    constructor
    · rintro ⟨handle, same⟩
      cases same
    · rintro ⟨report, answer, same⟩
      cases same
  refine ⟨told, .rawRequest method uri extHead :: more, ?_, ?_, ?_⟩
  · rw [grown, List.append_assoc]
    rfl
  · rw [← finishes, ← List.singleton_append, staysFinished_append]
    refine ⟨fun all => all.2.1, fun later => ⟨List.pairwise_singleton _ _, later, ?_⟩⟩
    rintro ⟨action, member, closes⟩
    exact absurd closes (request action member).1
  · refine iff_true_intro ?_
    obtain ⟨action, member, call⟩ := calls.mpr trivial
    exact ⟨action, List.mem_cons_of_mem _ member, call⟩

/-! ## One event -/

variable [UnorderedMultimap σ] {surroundings : Surroundings} {response : Response σ}

/-- The connection was closed. -/
def Closed (s : DownloadState σ) : Prop := ∃ action ∈ s.actions, action.Closes

/-- `download_cb` drops the event: one more response head. -/
def Drops (s : DownloadState σ) : DownloadEvent σ → Prop
  | .recvResponseHead _ => s.response.isSome
  | _ => False

/-- A branch of `download_cb` ends the task before the report at the end: an `ERROR` event whose
report stops it, and a file that cannot be installed. -/
def EndsTwice (surroundings : Surroundings) (handle : Int) (s : DownloadState σ)
    (cb : HttpDownloadCb) : DownloadEvent σ → Prop
  | .error code => { s with error := code }.stops cb ∧ handle ≠ hnwInvalidHandle
  | .recvResponseHead response =>
    s.response = none ∧ response.line.statusCode ≠ httpStatusOk ∧
      (∃ returned, s.recvFileReturns surroundings response = some returned ∧
        returned ≠ hnwBaseOk) ∧
      handle ≠ hnwInvalidHandle
  | _ => False

/-- From the call of `recv_file_response` on, the task ends twice where that fails. -/
theorem adds_installFile (told : s.cb = some cb) {later : DownloadState σ}
    (ran : s.installFile surroundings handle response = some later) :
    Adds cb s.actions later
      (¬ ((∃ returned, s.recvFileReturns surroundings response = some returned ∧
        returned ≠ hnwBaseOk) ∧ handle ≠ hnwInvalidHandle)) True := by
  rw [installFile, Option.bind_eq_bind, Option.bind_eq_some_iff] at ran
  obtain ⟨returned, returns, ran⟩ := ran
  rw [Option.bind_eq_bind, Option.bind_eq_some_iff] at ran
  obtain ⟨⟨installed, files⟩, -, ran⟩ := ran
  dsimp only at ran
  rw [returns]
  by_cases ok : returned = hnwBaseOk
  · rw [if_neg (not_not.mpr ok)] at ran
    obtain rfl := Option.some.inj ran
    refine (adds_report (s := { s with response := some installed, files }) told).congr
      ?_ .rfl
    refine iff_of_true trivial ?_
    rintro ⟨⟨other, same, bad⟩, -⟩
    exact bad (Option.some.inj same ▸ ok)
  · rw [if_pos ok] at ran
    obtain rfl := Option.some.inj ran
    refine (adds_twice (s := { s with response := some installed, files, error := returned })
      told).congr ?_ .rfl
    refine not_congr (and_congr_left fun _ => iff_of_true (stops_of_error ok cb) ?_)
    exact ⟨returned, rfl, ok⟩

/-- What `download_cb` adds for a response head. -/
theorem adds_recvResponseHead (told : s.cb = some cb) {later : DownloadState σ}
    (ran : s.downloadCb surroundings handle (.recvResponseHead response) = some later) :
    Adds cb s.actions later (¬ s.EndsTwice surroundings handle cb (.recvResponseHead response))
      (¬ s.Drops (.recvResponseHead response)) := by
  by_cases first : s.response = none
  · have kept : ¬ s.Drops (.recvResponseHead response) := by
      rw [Drops, first]
      exact Bool.false_ne_true
    rw [iff_true_intro kept]
    by_cases whole : response.line.statusCode = httpStatusOk
    · rw [downloadCb_whole told first whole] at ran
      obtain rfl := Option.some.inj ran
      refine ⟨told, _, rfl, iff_of_true (staysFinished_reporting ..) ?_,
        iff_true_intro (reporting_calls ..)⟩
      exact fun twice => twice.2.1 whole
    · have ends : ∀ total, s.EndsTwice surroundings handle cb (.recvResponseHead response) ↔
          (∃ returned,
            { s with response := some response, task.total := total }.recvFileReturns
              surroundings response = some returned ∧ returned ≠ hnwBaseOk) ∧
            handle ≠ hnwInvalidHandle :=
        fun total => ⟨fun twice => twice.2.2, fun twice => ⟨first, whole, twice⟩⟩
      rw [downloadCb, first, Option.isSome_none, if_neg Bool.false_ne_true, onResponseHead,
        if_neg whole] at ran
      split at ran
      · obtain ⟨total, -, ran⟩ := Option.bind_eq_some_iff.mp ran
        rw [ends total]
        exact adds_installFile (s := { s with response := some response, task.total := total })
          told ran
      · rw [ends s.task.total]
        exact adds_installFile (s := { s with response := some response }) told ran
  · have present : s.response.isSome := Option.isSome_iff_ne_none.mpr first
    have dropped : s.Drops (.recvResponseHead response) := present
    rw [downloadCb, if_pos present] at ran
    obtain rfl := Option.some.inj ran
    refine ⟨told, [], (List.append_nil _).symm, iff_of_true List.Pairwise.nil ?_,
      iff_of_false ?_ (not_not.mpr dropped)⟩
    · exact fun twice => first twice.1
    · rintro ⟨action, member, -⟩
      exact List.not_mem_nil member

/-- What `download_cb` adds where there is a callback. -/
theorem adds_downloadCb (told : s.cb = some cb) {event : DownloadEvent σ}
    {later : DownloadState σ} (ran : s.downloadCb surroundings handle event = some later) :
    Adds cb s.actions later (¬ s.EndsTwice surroundings handle cb event) (¬ s.Drops event) := by
  cases event with
  | connectEstablish returned =>
    obtain ⟨path, -, rfl⟩ := Option.map_eq_some_iff.mp ran
    have report := @adds_report _ { s.act
      [.rawRequest httpMethodGet path (setRange empty s.task.total).1] with error := returned }
      cb handle told
    exact report.after_request.congr (iff_of_true trivial id) (iff_of_true trivial id)
  | recvResponseHead response => exact adds_recvResponseHead told ran
  | error code =>
    obtain rfl := Option.some.inj ran
    exact (adds_twice (s := { s with error := code }) told).congr .rfl (iff_of_true trivial id)
  | other =>
    obtain rfl := Option.some.inj ran
    exact (adds_report told).congr (iff_of_true trivial id) (iff_of_true trivial id)

/-- Without a callback the installation does nothing outside of the task. -/
theorem installFile_silent (silent : s.cb = none) {later : DownloadState σ}
    (ran : s.installFile surroundings handle response = some later) :
    later.cb = none ∧ later.actions = s.actions := by
  rw [installFile, Option.bind_eq_bind, Option.bind_eq_some_iff] at ran
  obtain ⟨returned, -, ran⟩ := ran
  rw [Option.bind_eq_bind, Option.bind_eq_some_iff] at ran
  obtain ⟨⟨installed, files⟩, -, ran⟩ := ran
  dsimp only at ran
  split at ran
  · obtain rfl := Option.some.inj ran
    have quiet : ({ s with response := some installed, files, error := returned } :
        DownloadState σ).cb = none := silent
    rw [change_silent quiet, change_silent quiet]
    exact ⟨silent, rfl⟩
  · obtain rfl := Option.some.inj ran
    have quiet : ({ s with response := some installed, files } : DownloadState σ).cb = none :=
      silent
    rw [change_silent quiet]
    exact ⟨silent, rfl⟩

/-- Without a callback a response head does nothing outside of the task. -/
theorem onResponseHead_silent (silent : s.cb = none) {later : DownloadState σ}
    (ran : s.onResponseHead surroundings handle response = some later) :
    later.cb = none ∧ later.actions = s.actions := by
  rw [onResponseHead] at ran
  split at ran
  · have quiet : ({ s with response := some response }.wholeResource response).cb = none := silent
    rw [change_silent quiet] at ran
    obtain rfl := Option.some.inj ran
    exact ⟨silent, rfl⟩
  · split at ran
    · obtain ⟨total, -, ran⟩ := Option.bind_eq_some_iff.mp ran
      exact installFile_silent (s := { s with response := some response, task.total := total })
        silent ran
    · exact installFile_silent (s := { s with response := some response }) silent ran

/-- Without a callback nothing is called. -/
theorem downloadCb_silent (silent : s.cb = none) {event : DownloadEvent σ}
    {later : DownloadState σ} (ran : s.downloadCb surroundings handle event = some later) :
    later.cb = none ∧
      ∃ more, later.actions = s.actions ++ more ∧ ¬ ∃ action ∈ more, action.Calls := by
  have nothing : ∀ {last : DownloadState σ}, last.cb = none ∧ last.actions = s.actions →
      last.cb = none ∧
        ∃ more, last.actions = s.actions ++ more ∧ ¬ ∃ action ∈ more, action.Calls := by
    rintro last ⟨quiet, same⟩
    refine ⟨quiet, [], by rw [same, List.append_nil], ?_⟩
    exact fun ⟨_, member, _⟩ => List.not_mem_nil member
  cases event with
  | connectEstablish returned =>
    obtain ⟨path, -, rfl⟩ := Option.map_eq_some_iff.mp ran
    have quiet : ({ s.act [.rawRequest httpMethodGet path (setRange empty s.task.total).1] with
        error := returned } : DownloadState σ).cb = none := silent
    dsimp only
    rw [change_silent quiet]
    refine ⟨silent, _, rfl, ?_⟩
    rintro ⟨_, member, report, answer, rfl⟩
    simp at member
  | recvResponseHead response =>
    rw [downloadCb] at ran
    split at ran
    · obtain rfl := Option.some.inj ran
      exact nothing ⟨silent, rfl⟩
    · exact nothing (onResponseHead_silent silent ran)
  | error code =>
    obtain rfl := Option.some.inj ran
    have quiet : ({ s with error := code } : DownloadState σ).cb = none := silent
    rw [change_silent quiet, change_silent quiet]
    exact nothing ⟨silent, rfl⟩
  | other =>
    obtain rfl := Option.some.inj ran
    rw [change_silent silent]
    exact nothing ⟨silent, rfl⟩

/-! ## Runs -/

/-- What happens to a task: an event of its connection is delivered, or the parser goes on with
the response and other code with the files. -/
inductive DownloadLabel (σ : Type) where
  /-- `download_cb` is called. -/
  | event (handle : Int) (event : DownloadEvent σ)
  /-- The response, where one is recorded, and the files are now these. -/
  | received (response : Response σ) (files : Files)

/-- A task whose connection did nothing yet, and all that may happen to it. -/
def downloadSystem (surroundings : Surroundings) :
    System (DownloadState σ) (DownloadLabel σ) where
  init s := s.actions = []
  step s label later :=
    match label with
    | .event handle event => s.downloadCb surroundings handle event = some later
    | .received response files =>
      later = { s with response := s.response.map fun _ => response, files }

/-- The step does not make the task end twice: no event but one that is dropped comes after the
connection was closed, and none ends the task before the report at its end. -/
def EndsOnce (surroundings : Surroundings) (s : DownloadState σ) : DownloadLabel σ → Prop
  | .event handle event => ∀ cb, s.cb = some cb →
      (s.Closed → s.Drops event) ∧ ¬ s.EndsTwice surroundings handle cb event
  | .received _ _ => True

/-- A step keeps a task finished exactly where it does not make it end twice. -/
theorem staysFinished_step {label : DownloadLabel σ} {later : DownloadState σ}
    (step : (downloadSystem surroundings).step s label later) :
    StaysFinished later.actions ↔ StaysFinished s.actions ∧ s.EndsOnce surroundings label := by
  cases label with
  | received response files =>
    obtain rfl : later = _ := step
    exact (and_iff_left trivial).symm
  | event handle event =>
    cases told : s.cb with
    | none =>
      obtain ⟨_, more, grown, quiet⟩ := downloadCb_silent told step
      have free : s.EndsOnce surroundings (.event handle event) := by
        intro cb present
        rw [told] at present
        cases present
      rw [grown, staysFinished_append, and_iff_left free]
      exact and_iff_left ⟨staysFinished_of_silent quiet, fun _ => quiet⟩
    | some cb =>
      obtain ⟨_, more, grown, finishes, calls⟩ := adds_downloadCb told step
      have here : s.EndsOnce surroundings (.event handle event) ↔
          (s.Closed → s.Drops event) ∧ ¬ s.EndsTwice surroundings handle cb event := by
        refine ⟨fun all => all cb told, fun both other present => ?_⟩
        rwa [Option.some.inj (present.symm.trans told)]
      rw [grown, staysFinished_append, here, finishes, calls, not_not]
      exact and_congr_right fun _ => and_comm

/-- A step has one outcome. -/
theorem downloadSystem_deterministic {label : DownloadLabel σ} {later other : DownloadState σ}
    (step : (downloadSystem surroundings).step s label later)
    (again : (downloadSystem surroundings).step s label other) : later = other := by
  cases label with
  | received response files => exact step.trans again.symm
  | event handle event => exact Option.some.inj (step.symm.trans again)

/-- A run keeps a task finished exactly where no step of it makes the task end twice. -/
theorem staysFinished_run {labels : List (DownloadLabel σ)} {last : DownloadState σ}
    (run : (downloadSystem surroundings).Run s labels last) :
    StaysFinished last.actions ↔ StaysFinished s.actions ∧
      (downloadSystem surroundings).RunWith (EndsOnce surroundings) s labels last := by
  induction run with
  | nil state => exact (and_iff_left (.nil state)).symm
  | cons _ step _ ih =>
    rw [ih, staysFinished_step step, and_assoc]
    refine and_congr_right fun _ => ⟨fun both => .cons both.1 step both.2, fun guarded => ?_⟩
    cases guarded with
    | cons meets again rest =>
      rw [downloadSystem_deterministic step again]
      exact ⟨meets, rest⟩

/-- A finished download stays finished in exactly those runs in which no step makes the task end
twice. -/
theorem finished_stays_finished (surroundings : Surroundings) (first last : DownloadState σ)
    (labels : List (DownloadLabel σ)) (starts : (downloadSystem surroundings).init first)
    (run : (downloadSystem surroundings).Run first labels last) :
    StaysFinished last.actions ↔
      (downloadSystem surroundings).RunWith (EndsOnce surroundings) first labels last := by
  have fresh : StaysFinished first.actions := by
    rw [show first.actions = [] from starts]
    exact List.Pairwise.nil
  rw [staysFinished_run run]
  exact and_iff_right fresh

/-- After one event that is no error the task is still finished at most once. -/
theorem finished_stays_finished_once :
    StaysFinished ((answering true).onDownloadStatusChange 1).1.actions := by
  refine (finished_stays_finished ⟨linux, fun _ => []⟩ (answering true) _ [.event 1 .other] rfl
    (.cons trivial rfl (.nil _))).mpr (.cons ?_ rfl (.nil _))
  intro cb told
  have opened : ¬ (answering true).Closed := by
    rintro ⟨action, inside, _⟩
    exact absurd inside List.not_mem_nil
  exact ⟨fun closed => absurd closed opened, not_false⟩

/-- An `ERROR` event is told twice, the second time after the connection was closed. -/
theorem error_told_twice :
    ¬ ∀ (first last : DownloadState ListMultimap) (labels : List (DownloadLabel ListMultimap)),
      (downloadSystem ⟨linux, fun _ => []⟩).init first →
      (downloadSystem ⟨linux, fun _ => []⟩).Run first labels last →
        StaysFinished last.actions := by
  intro claim
  have step : (downloadSystem ⟨linux, fun _ => []⟩).step (answering true)
      (.event 1 (.error (-991))) _ := rfl
  have finished := claim (answering true) _ [.event 1 (.error (-991))] rfl
    (.cons trivial step (.nil _))
  have once := ((staysFinished_step step).mp finished).2 (fun _ => true) rfl
  exact once.2 ⟨rfl, by decide⟩

end DownloadState

end Hnw.Service
