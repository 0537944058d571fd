import Hnw.Session.Conversation
import Hnw.Verif.SendClient
import Hnw.Verif.SendServer

/-!
# The account of a session in every run

What holds of the account of a session whatever happens to it, also where a client session meets
the end of a request or the connection is lost: nothing is put out that was not sent, and what was
put out and what is owed are together what was sent.
-/

namespace Hnw.Http

open Hnw.Util Hnw.Util.UnorderedMultimap Hnw.Parser Hnw.Theory

variable {σ : Type} [UnorderedMultimap σ]

/-- The account of a session, without the chains of its transport. -/
structure Balanced {ι : Type} (fs : FileSystem)
    (preSend : Message ι σ → Option (Message ι σ × Bool)) (string : ι → Bytes) (sessionHead : σ)
    (t : Transport ι σ) : Prop where
  /-- Its messages can be sent. -/
  ready : Session.Ready fs t.session
  /-- The session's head is the one it was made with. -/
  head : t.session.sessionHead = sessionHead
  /-- What was returned and what is owed are the messages in the order they were sent. -/
  balance : t.emitted ++ Session.owed fs preSend string t.session =
    t.sent.flatMap (Session.queuedWire fs preSend string)

section Balanced

variable {ι : Type} {fs : FileSystem} {preSend : Message ι σ → Option (Message ι σ × Bool)}
  {string : ι → Bytes} {sessionHead : σ} {t : Transport ι σ}

/-- An account that is straight is balanced. -/
theorem Account.balanced (account : Account fs preSend string sessionHead t) :
    Balanced fs preSend string sessionHead t :=
  ⟨account.ready, account.head, account.balance⟩

/-- A balanced session has a straight account with the chains its flag stands for. -/
theorem Balanced.account (balanced : Balanced fs preSend string sessionHead t) :
    Account fs preSend string sessionHead
      { t with chains := if t.session.sendFlag then 1 else 0 } :=
  ⟨balanced.ready, balanced.head, balanced.balance, rfl⟩

/-- The loss of the connection touches no message. -/
theorem Balanced.onDisconnect (balanced : Balanced fs preSend string sessionHead t) :
    Balanced fs preSend string sessionHead { t with session := t.session.onDisconnect } :=
  ⟨⟨balanced.ready.current, balanced.ready.queued⟩, balanced.head, balanced.balance⟩

/-- A session that owes nothing has put out everything. -/
theorem Balanced.paid (balanced : Balanced fs preSend string sessionHead t)
    (idle : t.session.sendStatus.message = none) (empty : t.session.queue = []) :
    t.emitted = t.sent.flatMap (Session.queuedWire fs preSend string) := by
  have balance := balanced.balance
  rw [Session.owed, Session.currentRest, idle, empty] at balance
  rw [List.flatMap_nil, List.append_nil, List.append_nil] at balance
  exact balance

end Balanced

/-- Every step of a client session keeps it balanced, also the one that meets the end of a
request. -/
theorem clientSystem_balanced {fs : FileSystem} {sessionHead : σ}
    {t next : Transport RequestLine σ} {label : SendLabel RequestLine σ}
    (balanced : Balanced fs (Session.preSendRequestOpen sessionHead) RequestLine.string sessionHead
      t) (step : (clientSystem fs sessionHead).step t label next) :
    Balanced fs (Session.preSendRequestOpen sessionHead) RequestLine.string sessionHead next := by
  have account := balanced.account
  cases step with
  | send present unread =>
    have sent := account.send present unread
    exact ⟨sent.ready, sent.head, sent.balance⟩
  | connect =>
    have connected := account.connect
    exact ⟨connected.ready, connected.head, connected.balance⟩
  | @read buffSize read room active returns =>
    by_cases finished : Session.RequestOver fs t.session
    · have found := Session.onReadRequest_over balanced.ready room finished
      obtain rfl := Option.some.inj (found.symm.trans returns)
      refine ⟨Session.messageEnd_ready balanced.ready, balanced.head, ?_⟩
      rw [Transport.afterRead, Session.messageEnd_owed finished.2, List.append_nil]
      exact balanced.balance
    · obtain ⟨other, found, paysOff⟩ := Session.onReadRequest_paysOff balanced.ready room finished
      obtain rfl := Option.some.inj (found.symm.trans returns)
      rw [balanced.head] at paysOff
      have paid := account.read paysOff
      exact ⟨paid.ready, paid.head, paid.balance⟩

/-- Every step of a server session keeps it balanced. -/
theorem serverSystem_balanced {fs : FileSystem} {sessionHead : σ}
    {t next : Transport ResponseLine σ} {label : SendLabel ResponseLine σ}
    (balanced : Balanced fs (Session.preSendResponse sessionHead) ResponseLine.string sessionHead
      t) (step : (serverSystem fs sessionHead).step t label next) :
    Balanced fs (Session.preSendResponse sessionHead) ResponseLine.string sessionHead next := by
  have account := balanced.account
  cases step with
  | send present unread =>
    have sent := account.send present unread
    exact ⟨sent.ready, sent.head, sent.balance⟩
  | connect =>
    have connected := account.connect
    exact ⟨connected.ready, connected.head, connected.balance⟩
  | @read buffSize read room active returns =>
    obtain ⟨other, found, paysOff⟩ := Session.onReadResponse_paysOff balanced.ready room
    obtain rfl := Option.some.inj (found.symm.trans returns)
    rw [balanced.head] at paysOff
    have paid := account.read paysOff
    exact ⟨paid.ready, paid.head, paid.balance⟩

end Hnw.Http
