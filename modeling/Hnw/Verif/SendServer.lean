import Hnw.Verif.Sending

/-!
# The send machine of a server session

Whatever the order of sends, connection and reads, the bytes that `on_read_response` returned and
what the session still owes are together the responses in the order they were sent; and a chain
of reads is active exactly while `send_flag_` is set.
-/

namespace Hnw.Http

open Hnw.Util Hnw.Util.UnorderedMultimap Hnw.Theory

namespace Session

variable {ι σ : Type} [UnorderedMultimap σ] {fs : FileSystem} {buffSize : Nat}

/-- `pre_send` makes responses ready. -/
theorem preSendResponse_prepares (sessionHead : σ) :
    Prepares (preSendResponse sessionHead) := by
  intro response body present
  obtain ⟨ready, made, line, kept⟩ := addLength_spec present
  rw [preSendResponse, made, Option.map_some]
  exact ⟨_, _, rfl, line, kept⟩

/-! ## `on_read_response` -/

/-- One round of the loop: it returns, or it ends the current response. -/
theorem onReadResponseFrom_round {s : Session ResponseLine σ} (ready : Ready fs s)
    (room : 0 < buffSize) (rounds : Nat) :
    (∃ read, onReadResponseFrom fs buffSize (rounds + 1) s = some read ∧
        PaysOff fs (preSendResponse s.sessionHead) ResponseLine.string s read) ∨
      (s.sendStatus.message ≠ none ∧ currentRest fs s.sendStatus = [] ∧
        onReadResponseFrom fs buffSize (rounds + 1) s =
          onReadResponseFrom fs buffSize rounds (messageEnd s)) := by
  rcases @takeNext_spec _ _ _ fs _ ResponseLine.string s
      (preSendResponse_prepares s.sessionHead) ready with
    ⟨none, idle, empty⟩ | ⟨next, response, taken, current, later, same, sendFlag, connectFlag,
      sessionHead, begun⟩
  · left
    refine ⟨readDrained s, ?_, readDrained_paysOff ready idle empty⟩
    simp only [onReadResponseFrom, none, Option.bind_eq_bind, Option.bind_some, Option.pure_def]
  · obtain ⟨emitted, stages, pays⟩ := sendStages_pays (later.current response current) room
      next.sendStatus.status next.sendStatus.cache
    cases emitted with
    | bytes bytes status =>
      left
      refine ⟨⟨bytes, false, { next with sendStatus := status }⟩, ?_,
        (bytes_paysOff later current pays).of_same same sendFlag connectFlag sessionHead⟩
      simp only [onReadResponseFrom, taken, stages, Option.bind_eq_bind, Option.bind_some,
        Option.pure_def]
    | bodyEnd =>
      right
      have finished : currentRest fs next.sendStatus = [] := by
        rw [currentRest, current]
        exact pays
      have kept := begun.resolve_right fun some_ => some_ finished
      rw [kept] at taken stages finished current
      refine ⟨by simp [current], finished, ?_⟩
      simp only [onReadResponseFrom, taken, stages, Option.bind_eq_bind, Option.bind_some]

/-- `on_read_response` returns, and pays off what is owed. -/
theorem onReadResponse_paysOff {s : Session ResponseLine σ} (ready : Ready fs s)
    (room : 0 < buffSize) :
    ∃ read, onReadResponse fs buffSize s = some read ∧
      PaysOff fs (preSendResponse s.sessionHead) ResponseLine.string s read := by
  rw [onReadResponse]
  rcases onReadResponseFrom_round ready room (s.queue.length + 1) with
    returned | ⟨_, finished, again⟩
  · exact returned
  · rw [again]
    -- without a current response the second round returns
    rcases onReadResponseFrom_round (messageEnd_ready ready) room s.queue.length with
      ⟨read, found, paysOff⟩ | ⟨current, _⟩
    · exact ⟨read, found, paysOff.of_same (messageEnd_owed finished) rfl rfl rfl⟩
    · exact absurd rfl current

/-- Reading into buffers with room gets all that is owed, at most one buffer a byte and one
more. -/
theorem drain_owed {s : Session ResponseLine σ} (ready : Ready fs s) {sizes : List Nat}
    (room : ∀ size ∈ sizes, 0 < size)
    (enough : (owed fs (preSendResponse s.sessionHead) ResponseLine.string s).length <
      sizes.length) :
    drain fs sizes s = some (owed fs (preSendResponse s.sessionHead) ResponseLine.string s) := by
  induction sizes generalizing s with
  | nil => cases enough
  | cons buffSize sizes ih =>
    obtain ⟨read, found, paysOff⟩ := onReadResponse_paysOff ready (room buffSize (by simp))
    have paid := paysOff.pays
    simp only [drain, found, Option.bind_eq_bind, Option.bind_some]
    by_cases nothing : read.bytes.length = 0
    · rw [if_pos nothing, (paysOff.ends (List.length_eq_zero_iff.mp nothing)).1]
      rfl
    · have shorter := congrArg List.length paid
      rw [List.length_append] at shorter
      rw [List.length_cons] at enough
      have later := @ih read.session paysOff.ready (fun size member => room size (by simp [member]))
        (by rw [paysOff.sessionHead]; omega)
      rw [if_neg nothing, later, paysOff.sessionHead, Option.map_some, paid]

/-- What a transport gets is what is owed, whatever its buffers. -/
theorem drain_some {s : Session ResponseLine σ} (ready : Ready fs s) {sizes : List Nat}
    (room : ∀ size ∈ sizes, 0 < size) {bytes : Bytes} (drained : drain fs sizes s = some bytes) :
    bytes = owed fs (preSendResponse s.sessionHead) ResponseLine.string s := by
  induction sizes generalizing s bytes with
  | nil => cases drained
  | cons buffSize sizes ih =>
    obtain ⟨read, found, paysOff⟩ := onReadResponse_paysOff ready (room buffSize (by simp))
    simp only [drain, found, Option.bind_eq_bind, Option.bind_some] at drained
    by_cases nothing : read.bytes.length = 0
    · rw [if_pos nothing] at drained
      rw [(paysOff.ends (List.length_eq_zero_iff.mp nothing)).1]
      exact (Option.some.inj drained).symm
    · rw [if_neg nothing] at drained
      obtain ⟨later, rest, rfl⟩ := Option.map_eq_some_iff.mp drained
      rw [ih paysOff.ready (fun size member => room size (by simp [member])) rest,
        paysOff.sessionHead, paysOff.pays]

omit [UnorderedMultimap σ] in
/-- Sends queue their messages and change no head. -/
theorem foldl_send (s : Session ResponseLine σ) (responses : List (Response σ)) :
    (responses.foldl (fun s response => (send s response).1) s).queue = s.queue ++ responses ∧
      (responses.foldl (fun s response => (send s response).1) s).sendStatus = s.sendStatus ∧
      (responses.foldl (fun s response => (send s response).1) s).sessionHead =
        s.sessionHead := by
  induction responses generalizing s with
  | nil => exact ⟨(List.append_nil _).symm, rfl, rfl⟩
  | cons response responses ih =>
    obtain ⟨queue, status, head⟩ := ih (send s response).1
    have sent : (send s response).1.queue = s.queue ++ [response] ∧
        (send s response).1.sendStatus = s.sendStatus ∧
        (send s response).1.sessionHead = s.sessionHead := by
      rw [send, (startSend_eq _).1]
      exact ⟨rfl, rfl, rfl⟩
    rw [List.foldl_cons]
    refine ⟨?_, status.trans sent.2.1, head.trans sent.2.2⟩
    rw [queue, sent.1, List.append_assoc, List.singleton_append]

/-- A session that was given responses has them in its queue. -/
theorem sendAll_spec (responses : List (Response σ)) :
    (sendAll responses).queue = responses ∧ (sendAll responses).sendStatus.message = none ∧
      (sendAll responses).sessionHead = serverHead := by
  obtain ⟨queue, status, head⟩ := foldl_send (generate serverHead) responses
  rw [sendAll, onConnectEstablish, (startSend_eq _).1]
  exact ⟨queue, by simp only [status]; rfl, head⟩

end Session

/-! ## The machine -/

variable {σ : Type} [UnorderedMultimap σ] {fs : FileSystem} {sessionHead : σ}

/-- A response as it goes out: status line, headers as they are after `pre_send`, body. -/
def responseWire (fs : FileSystem) (sessionHead : σ) (response : Response σ) : Bytes :=
  Session.queuedWire fs (Session.preSendResponse sessionHead) ResponseLine.string response

/-- Every step of a server session keeps its account. -/
theorem serverSystem_account {t : Transport ResponseLine σ}
    (reached : (serverSystem fs sessionHead).Reachable t) :
    Account fs (Session.preSendResponse sessionHead) ResponseLine.string sessionHead t := by
  apply reached.invariant
  · rintro _ rfl
    exact .fresh
  · intro first label last account step
    cases step with
    | send present unread => exact account.send present unread
    | connect => exact account.connect
    | read room _ returns =>
      obtain ⟨read, found, paysOff⟩ := Session.onReadResponse_paysOff account.ready room
      rw [account.head] at paysOff
      rw [returns, Option.some.injEq] at found
      exact account.read (found ▸ paysOff)

/-- What a server session returned is a prefix of its responses; `on_read_response` returns, and
it returns 0 or asks for the close only where all of them are out; and `send_flag_` is down
exactly when no chain of reads is active. -/
theorem serverSystem_sends {t : Transport ResponseLine σ}
    (reached : (serverSystem fs sessionHead).Reachable t) :
    t.emitted <+: t.sent.flatMap (responseWire fs sessionHead) ∧
      (t.session.sendFlag = false ↔ t.chains = 0) ∧
      ∀ buffSize, 0 < buffSize → ∃ read, Session.onReadResponse fs buffSize t.session = some read ∧
        (read.bytes = [] → t.emitted = t.sent.flatMap (responseWire fs sessionHead)) ∧
        (read.close = true → read.bytes = []) := by
  have account := serverSystem_account reached
  have balance := account.balance
  refine ⟨⟨_, balance⟩, ?_, fun buffSize room => ?_⟩
  · rw [account.chains]
    cases t.session.sendFlag <;> decide
  · obtain ⟨read, found, paysOff⟩ := Session.onReadResponse_paysOff account.ready room
    rw [account.head] at paysOff
    refine ⟨read, found, fun nothing => ?_, fun close => ?_⟩
    · rw [(paysOff.ends nothing).1, List.append_nil] at balance
      exact balance
    · by_contra some_
      rw [(paysOff.goesOn some_).2] at close
      cases close

/-- A response with a body of two bytes. -/
def plainResponse : Response ListMultimap where
  line := {}
  head := empty
  body := some (.raw { body := ascii "ab", maximumCapacity := 2, increment := false })

/-- A session that was given a response, was connected and was read from once. -/
theorem serverSystem_sends_once :
    ∃ t : Transport ResponseLine ListMultimap,
      (serverSystem (fun _ => none) Session.serverHead).Reachable t ∧
      t.emitted = ascii "HTTP/1.1 200 OK" ++ crlf ∧
      t.emitted <+: t.sent.flatMap (responseWire (fun _ => none) Session.serverHead) := by
  have reached : ∃ t : Transport ResponseLine ListMultimap,
      (serverSystem (fun _ => none) Session.serverHead).Reachable t ∧
      t.emitted = ascii "HTTP/1.1 200 OK" ++ crlf := by
    refine ⟨_, ⟨_, [.send plainResponse, .connect, .read 100], rfl,
      .cons trivial (.send rfl rfl) (.cons trivial .connect
        (.cons trivial (.read (by decide) (by decide) rfl) (.nil _)))⟩, by decide⟩
  obtain ⟨t, reached, emitted⟩ := reached
  exact ⟨t, reached, emitted, (serverSystem_sends reached).1⟩

end Hnw.Http
