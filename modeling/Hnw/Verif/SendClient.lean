import Hnw.Verif.Sending

/-!
# The send machine of a client session

`on_read_request` returns 0 also where a request is over. That ends the chain of reads, but
`send_flag_` stays set, so no later `send` starts another one. Until a read meets the end of a
request nothing is lost; that read loses everything sent from then on.
-/

namespace Hnw.Http

open Hnw.Util Hnw.Util.UnorderedMultimap Hnw.Theory

namespace Session

variable {σ : Type} [UnorderedMultimap σ] {fs : FileSystem} {buffSize : Nat}
  {s : Session RequestLine σ}

/-- `pre_send(request)`, which never sets `close_after_send_flag_`. -/
def preSendRequestOpen (sessionHead : σ) (request : Request σ) : Option (Request σ × Bool) :=
  (preSendRequest sessionHead request).map fun request => (request, false)

/-- `pre_send` makes requests ready. -/
theorem preSendRequest_prepares (sessionHead : σ) : Prepares (preSendRequestOpen sessionHead) := by
  intro request body present
  obtain ⟨ready, made, line, kept⟩ := addLength_spec present
  rw [preSendRequestOpen, preSendRequest, made, Option.map_some, Option.map_some]
  exact ⟨_, _, rfl, line, kept⟩

/-- Everything of the current request was returned, and the request is still current. -/
def RequestOver (fs : FileSystem) (s : Session RequestLine σ) : Prop :=
  s.sendStatus.message ≠ none ∧ currentRest fs s.sendStatus = []

/-- `on_read_request` where the current request is over: it returns 0 and leaves `send_flag_`
set. -/
theorem onReadRequest_over (ready : Ready fs s) (room : 0 < buffSize)
    (finished : RequestOver fs s) :
    onReadRequest fs buffSize s = some ⟨[], false, messageEnd s⟩ := by
  obtain ⟨some_, nothing⟩ := finished
  obtain ⟨request, current⟩ := Option.ne_none_iff_exists'.mp some_
  have taken : takeNext (preSendRequestOpen s.sessionHead) RequestLine.string s =
      some (some (s, request)) := by
    simp only [takeNext, current]
  obtain ⟨emitted, stages, pays⟩ := sendStages_pays (ready.current request current) room
    s.sendStatus.status s.sendStatus.cache
  rw [currentRest, current] at nothing
  simp only at nothing
  cases emitted with
  | bytes bytes status =>
    obtain ⟨paid, message, _, _, sum⟩ := pays
    rw [nothing] at sum
    exact absurd (List.append_eq_nil_iff.mp sum).1 paid
  | bodyEnd =>
    unfold preSendRequestOpen at taken
    simp only [onReadRequest, taken, stages, Option.bind_eq_bind, Option.bind_some,
      Option.pure_def]

/-- Anywhere else `on_read_request` pays off what is owed. -/
theorem onReadRequest_paysOff (ready : Ready fs s) (room : 0 < buffSize)
    (goes : ¬ RequestOver fs s) :
    ∃ read, onReadRequest fs buffSize s = some read ∧
      PaysOff fs (preSendRequestOpen s.sessionHead) RequestLine.string s read := by
  rcases @takeNext_spec _ _ _ fs _ RequestLine.string s
      (preSendRequest_prepares s.sessionHead) ready with
    ⟨none, idle, empty⟩ | ⟨next, request, taken, current, later, same, sendFlag, connectFlag,
      sessionHead, begun⟩
  · refine ⟨readDrained s, ?_, readDrained_paysOff ready idle empty⟩
    unfold preSendRequestOpen at none
    simp only [onReadRequest, none, Option.bind_eq_bind, Option.bind_some, Option.pure_def]
  · obtain ⟨emitted, stages, pays⟩ := sendStages_pays (later.current request current) room
      next.sendStatus.status next.sendStatus.cache
    cases emitted with
    | bytes bytes status =>
      refine ⟨⟨bytes, false, { next with sendStatus := status }⟩, ?_,
        (bytes_paysOff later current pays).of_same same sendFlag connectFlag sessionHead⟩
      unfold preSendRequestOpen at taken
      simp only [onReadRequest, taken, stages, Option.bind_eq_bind, Option.bind_some,
        Option.pure_def]
    | bodyEnd =>
      have finished : currentRest fs next.sendStatus = [] := by
        rw [currentRest, current]
        exact pays
      have kept := begun.resolve_right fun some_ => some_ finished
      rw [kept] at finished current
      exact absurd ⟨by simp [current], finished⟩ goes

end Session

/-! ## The machine -/

variable {σ : Type} [UnorderedMultimap σ] {fs : FileSystem} {sessionHead : σ}

/-- A request as it goes out: start line, headers as they are after `pre_send`, body. -/
def requestWire (fs : FileSystem) (sessionHead : σ) (request : Request σ) : Bytes :=
  Session.queuedWire fs (Session.preSendRequestOpen sessionHead) RequestLine.string request

/-- A connected session without a chain of reads has sent everything, and the next request starts
a chain. -/
def NothingLost (fs : FileSystem) (sessionHead : σ) (t : Transport RequestLine σ) : Prop :=
  t.session.connectFlag = true → t.chains = 0 →
    t.session.queue = [] ∧ t.session.sendFlag = false ∧
      t.emitted = t.sent.flatMap (requestWire fs sessionHead) ∧
      ∀ request, (t.session.send request).2 = true

/-- The condition on a step: no read meets the end of a request. -/
def NoRequestEnds (fs : FileSystem) (t : Transport RequestLine σ)
    (label : SendLabel RequestLine σ) : Prop :=
  ∀ buffSize, label = .read buffSize → ¬ Session.RequestOver fs t.session

/-- The account of a client session that met no end of a request. -/
structure ClientInv (fs : FileSystem) (sessionHead : σ) (t : Transport RequestLine σ) : Prop where
  /-- The account is straight. -/
  account : Account fs (Session.preSendRequestOpen sessionHead) RequestLine.string sessionHead t
  /-- The flag is only set on a connected session. -/
  connected : t.session.sendFlag = true → t.session.connectFlag = true
  /-- A connected session whose flag is down owes nothing. -/
  idle : t.session.connectFlag = true → t.session.sendFlag = false →
    t.session.queue = [] ∧ t.session.sendStatus.message = none

omit [UnorderedMultimap σ] in
/-- A session that may have started to send is connected, and its flag is up where it is. -/
theorem startSend_client {ι : Type} (s : Session ι σ)
    (connected : s.sendFlag = true → s.connectFlag = true) :
    (s.startSend.1.sendFlag = true → s.startSend.1.connectFlag = true) ∧
      (s.startSend.1.connectFlag = true → s.startSend.1.sendFlag = true) := by
  rw [(Session.startSend_eq s).1]
  refine ⟨fun up => ?_, fun conn => ?_⟩
  · rcases (Bool.or_eq_true _ _).mp up with before | conn
    · exact connected before
    · exact conn
  · have conn : s.connectFlag = true := conn
    simp only [conn, Bool.or_true]

/-- A step in which no request ends keeps the account of a client session. -/
theorem clientSystem_step {t next : Transport RequestLine σ} {label : SendLabel RequestLine σ}
    (inv : ClientInv fs sessionHead t) (goes : NoRequestEnds fs t label)
    (step : (clientSystem fs sessionHead).step t label next) : ClientInv fs sessionHead next := by
  cases step with
  | @send request body present unread =>
    have started := startSend_client
      { t.session with queue := t.session.queue ++ [request] } inv.connected
    refine ⟨inv.account.send present unread, started.1, fun conn down => ?_⟩
    exact absurd ((started.2 conn).symm.trans down) (by decide)
  | connect =>
    have started := startSend_client { t.session with connectFlag := true } fun _ => rfl
    refine ⟨inv.account.connect, started.1, fun conn down => ?_⟩
    exact absurd ((started.2 conn).symm.trans down) (by decide)
  | @read buffSize read room active returns =>
    obtain ⟨other, found, paysOff⟩ :=
      Session.onReadRequest_paysOff inv.account.ready room (goes _ rfl)
    have same : other = read := Option.some.inj (found.symm.trans returns)
    rw [inv.account.head, same] at paysOff
    have up := inv.account.active_up active
    refine ⟨inv.account.read paysOff, fun _ => ?_, fun _ down => ?_⟩
    · exact paysOff.connectFlag.trans (inv.connected up)
    · have nothing : read.bytes = [] := by
        by_contra some_
        have kept := (paysOff.goesOn some_).1.trans up
        exact absurd (kept.symm.trans down) (by decide)
      exact ⟨(paysOff.ends nothing).2.2.2, (paysOff.ends nothing).2.2.1⟩

/-- In every run whose reads meet no end of a request, the account of a client session is
straight. -/
theorem clientSystem_inv {t : Transport RequestLine σ}
    (reached : (clientSystem fs sessionHead).ReachableWith (NoRequestEnds fs) t) :
    ClientInv fs sessionHead t := by
  apply reached.invariant
  · rintro _ rfl
    exact ⟨.fresh, nofun, nofun⟩
  · exact fun first label last inv goes step => clientSystem_step inv goes step

/-- In every run whose reads meet no end of a request, a client session loses nothing. -/
theorem clientSystem_nothingLost {t : Transport RequestLine σ}
    (reached : (clientSystem fs sessionHead).ReachableWith (NoRequestEnds fs) t) :
    NothingLost fs sessionHead t := by
  have inv := clientSystem_inv reached
  have balance := inv.account.balance
  intro connected still
  have down := inv.account.still_down still
  obtain ⟨empty, idle⟩ := inv.idle connected down
  refine ⟨empty, down, ?_, fun request => ?_⟩
  · rw [Session.owed, Session.currentRest, idle, empty] at balance
    rw [List.flatMap_nil, List.append_nil, List.append_nil] at balance
    exact balance
  · rw [Session.send, (Session.startSend_eq _).2]
    simp only [down, connected, Bool.not_false, Bool.and_self]

/-- The read that meets the end of a request loses what is sent from then on. -/
theorem requestOver_loses {t : Transport RequestLine σ} (inv : ClientInv fs sessionHead t)
    {next : Transport RequestLine σ} {buffSize : Nat}
    (finished : Session.RequestOver fs t.session)
    (step : (clientSystem fs sessionHead).step t (.read buffSize) next) :
    ¬ NothingLost fs sessionHead next := by
  cases step with
  | @read _ read room active returns =>
    have found := Session.onReadRequest_over inv.account.ready room finished
    have same : read = ⟨[], false, Session.messageEnd t.session⟩ :=
      Option.some.inj (returns.symm.trans found)
    have up := inv.account.active_up active
    have chains := inv.account.chains
    intro kept
    rw [same] at kept
    have down := (kept (inv.connected up) (by
      simp only [Transport.afterRead, chains, up, if_true, List.length_nil])).2.1
    exact absurd (up.symm.trans down) (by decide)

/-- A connected session that was read from before anything was sent. -/
theorem clientSystem_nothingLost_idle :
    ∃ t : Transport RequestLine ListMultimap,
      (clientSystem (fun _ => none) Session.clientHead).ReachableWith
        (NoRequestEnds fun _ => none) t ∧
      t.session.connectFlag = true ∧ t.chains = 0 ∧ t.session.queue = [] := by
  have reached : ∃ t : Transport RequestLine ListMultimap,
      (clientSystem (fun _ => none) Session.clientHead).ReachableWith
        (NoRequestEnds fun _ => none) t ∧
      t.session.connectFlag = true ∧ t.chains = 0 := by
    refine ⟨_, ⟨_, [.connect, .read 100], rfl,
      .cons (fun _ read => (nomatch read)) .connect
        (.cons (fun _ _ finished => finished.1 rfl) (.read (by decide) (by decide) rfl)
          (.nil _))⟩,
      rfl, rfl⟩
  obtain ⟨t, reached, connected, still⟩ := reached
  exact ⟨t, reached, connected, still,
    (clientSystem_nothingLost reached connected still).1⟩

/-- A request without a body. -/
def plainGet : Request ListMultimap := Request.generate

/-- One request: once it is out, `send_flag_` stays set without a chain of reads. -/
theorem clientSystem_loses :
    ¬ ∀ t : Transport RequestLine ListMultimap,
      (clientSystem (fun _ => none) Session.clientHead).Reachable t →
      NothingLost (fun _ => none) Session.clientHead t := by
  intro kept
  have reached : ∃ t : Transport RequestLine ListMultimap,
      (clientSystem (fun _ => none) Session.clientHead).Reachable t ∧
      t.session.connectFlag = true ∧ t.chains = 0 ∧ t.session.sendFlag = true := by
    refine ⟨_, ⟨_, [.send plainGet, .connect, .read 1000, .read 1000, .read 1000], rfl,
      .cons trivial (.send rfl rfl) (.cons trivial .connect
        (.cons trivial (.read (by decide) (by decide) rfl)
          (.cons trivial (.read (by decide) (by decide) rfl)
            (.cons trivial (.read (by decide) (by decide) rfl) (.nil _)))))⟩,
      by decide, by decide, by decide⟩
  obtain ⟨t, reached, connected, still, up⟩ := reached
  have down := (kept t reached connected still).2.1
  exact absurd (up.symm.trans down) (by decide)

end Hnw.Http
