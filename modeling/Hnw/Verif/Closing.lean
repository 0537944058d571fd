import Hnw.Verif.Balance
import Hnw.Verif.PreSend

/-!
# When a session asks for the close

`pre_send` of a response sets `close_after_send_flag_`, and `on_read_response` closes where it finds
the flag set and nothing to send. So whether a server session closes is decided by the responses it
was given, and only once all of them are out.
-/

namespace Hnw.Http

open Hnw.Util Hnw.Util.UnorderedMultimap Hnw.Theory

variable {σ : Type} [UnorderedMultimap σ]

/-! ## `keep_alive` -/

/-- `get_head` returns the first value of a name. -/
theorem getHead_storedValues (head : σ) (key notfind : Bytes) :
    getHead head key notfind = (storedValues head key).head?.getD notfind := by
  rw [getHead, UnorderedMultimap.find, ← List.head?_filter, storedValues, List.head?_map]
  cases ((toList head).filter (·.1 = key)).head? with
  | none => rfl
  | some entry => rfl

/-- Heads with the same values of `Connection` stay open or not alike. -/
theorem keepAlive_congr {head other : σ}
    (same : storedValues head httpConn = storedValues other httpConn) :
    keepAlive head = keepAlive other := by
  rw [keepAlive, keepAlive, getHead_storedValues, getHead_storedValues, same]

/-- What `keep_alive` was told is what it tells. -/
theorem keepAlive_setKeepAlive (head : σ) (isAlive : Bool) :
    keepAlive (setKeepAlive head isAlive) = isAlive := by
  have different : httpConnKeepalive ≠ httpConnClose := by decide
  rw [keepAlive, setKeepAlive, getHead_replace]
  cases isAlive with
  | false => simp
  | true => simp [different]

/-- Telling `keep_alive` leaves one `Connection` header. -/
theorem setKeepAlive_count (head : σ) (isAlive : Bool) :
    getHeadCount (setKeepAlive head isAlive) httpConn = 1 := by
  rw [getHeadCount_values, setKeepAlive, storedValues_replace]
  rfl

/-- The head that decides whether the session closes after a response: its own, or the session's
where it has no `Connection` header. -/
def connectionHead (sessionHead head : σ) : σ :=
  if getHeadCount head httpConn = 0 then sessionHead else head

/-- A head that is made ready stays open as the head that decides does. -/
theorem keepAlive_prepared (updates : List Entry) (size : Nat) {head : σ}
    (single : getHeadCount head httpConn ≤ 1) :
    keepAlive (prepared [(httpLen, decimal size), (httpCt, htmlMime)] updates head) =
      keepAlive (connectionHead (sessionHeadOf updates) head) := by
  have once : ([(httpLen, decimal size), (httpCt, htmlMime)].map Prod.fst).Nodup :=
    (by decide : [httpLen, httpCt].Nodup)
  have prepares := prepared_preparesHead once updates head
  apply keepAlive_congr
  by_cases absent : getHeadCount head httpConn = 0
  · have other : httpConn ∉ [(httpLen, decimal size), (httpCt, htmlMime)].map Prod.fst :=
      (by decide : httpConn ∉ [httpLen, httpCt])
    rw [connectionHead, if_pos absent, prepares.session httpConn absent other,
      sessionHeadOf_values]
  · have kept := prepares.kept httpConn absent
    have one : (storedValues head httpConn).length = 1 := by
      rw [getHeadCount_values] at single absent
      omega
    obtain ⟨value, only⟩ := List.length_eq_one_iff.mp one
    rw [only] at kept
    rw [connectionHead, if_neg absent, List.perm_singleton.mp kept, only]

/-- `pre_send` sets the flag exactly where the head that decides does not stay open. -/
theorem preSendResponse_close (updates : List Entry) {response : Response σ} {body : Body}
    (present : response.body = some body) (single : getHeadCount response.head httpConn ≤ 1)
    {ready : Response σ} {close : Bool}
    (made : Session.preSendResponse (sessionHeadOf updates) response = some (ready, close)) :
    close = !keepAlive (connectionHead (sessionHeadOf updates) response.head) := by
  have whole : response = ⟨response.line, response.head, some body⟩ := by rw [← present]
  have same := preSendResponse_eq_prepared updates response.line response.head body
  rw [whole, same] at made
  obtain ⟨_, flag⟩ := Prod.mk.inj (Option.some.inj made)
  rw [← keepAlive_prepared updates body.bodySize single, ← flag, keepAlive]
  simp

/-! ## The flag -/

namespace Session

variable {ι : Type} {fs : FileSystem} {buffSize : Nat}
  {preSend : Message ι σ → Option (Message ι σ × Bool)} {string : ι → Bytes}

/-- Whether `pre_send` of a message sets `close_after_send_flag_`. -/
def AsksClose (preSend : Message ι σ → Option (Message ι σ × Bool)) (message : Message ι σ) :
    Prop :=
  ∃ ready, preSend message = some (ready, true)

/-- Of the messages that were sent some were taken, and the flag is set exactly where one of these
asked for it. -/
def Flagged (preSend : Message ι σ → Option (Message ι σ × Bool)) (sent : List (Message ι σ))
    (s : Session ι σ) : Prop :=
  ∃ taken, sent = taken ++ s.queue ∧
    (s.closeAfterSendFlag = true ↔ ∃ message ∈ taken, AsksClose preSend message)

omit [UnorderedMultimap σ] in
/-- Taking the next message leaves the session's head. -/
theorem takeNext_sessionHead {s next : Session ι σ} {message : Message ι σ}
    (taken : takeNext preSend string s = some (some (next, message))) :
    next.sessionHead = s.sessionHead := by
  unfold takeNext at taken
  cases current : s.sendStatus.message with
  | some other =>
    simp only [current, Option.some.injEq, Prod.mk.injEq] at taken
    rw [← taken.1]
  | none =>
    cases waiting : s.queue with
    | nil => simp [current, waiting] at taken
    | cons first queue =>
      simp only [current, waiting] at taken
      obtain ⟨_, _, same⟩ := Option.map_eq_some_iff.mp taken
      obtain ⟨rfl, _⟩ := Prod.mk.inj (Option.some.inj same)
      rfl

omit [UnorderedMultimap σ] in
/-- Taking the next message keeps the flag true to those that were taken. -/
theorem takeNext_flagged {sent : List (Message ι σ)} {s next : Session ι σ}
    {message : Message ι σ} (flagged : Flagged preSend sent s)
    (taken : takeNext preSend string s = some (some (next, message))) :
    Flagged preSend sent next := by
  obtain ⟨before, whole, flag⟩ := flagged
  unfold takeNext at taken
  cases current : s.sendStatus.message with
  | some other =>
    simp only [current, Option.some.injEq, Prod.mk.injEq] at taken
    rw [← taken.1]
    exact ⟨before, whole, flag⟩
  | none =>
    cases waiting : s.queue with
    | nil => simp [current, waiting] at taken
    | cons first queue =>
      simp only [current, waiting] at taken
      obtain ⟨⟨ready, close⟩, made, same⟩ := Option.map_eq_some_iff.mp taken
      obtain ⟨rfl, rfl⟩ := Prod.mk.inj (Option.some.inj same)
      refine ⟨before ++ [first], ?_, ?_⟩
      · rw [whole, waiting, List.append_assoc]
        rfl
      · have asks : AsksClose preSend first ↔ close = true := by
          rw [AsksClose, made]
          constructor
          · rintro ⟨other, made⟩
            exact (Prod.mk.inj (Option.some.inj made)).2
          · rintro rfl
            exact ⟨ready, rfl⟩
        simp only [Bool.or_eq_true, flag, List.mem_append, List.mem_singleton, or_and_right,
          exists_or, exists_eq_left, asks]

omit [UnorderedMultimap σ] in
/-- A stage that returns bytes of a message leaves it current. -/
theorem sendBody_current {message : Message ι σ} {cache bytes : Bytes} {status : SendStatus ι σ}
    (stages : sendBody fs buffSize message cache = some (.bytes bytes status)) :
    status.message ≠ none := by
  obtain ⟨body, _, same⟩ := Option.map_eq_some_iff.mp stages
  by_cases nothing : (body.readBody fs buffSize).1.length = 0
  · simp [nothing] at same
  · simp only [if_neg nothing, Emitted.bytes.injEq] at same
    rw [← same.2]
    exact Option.some_ne_none _

/-- Stages that return bytes of a message leave it current. -/
theorem sendStages_current {stage : EnSendStatus} {message : Message ι σ} {cache bytes : Bytes}
    {status : SendStatus ι σ}
    (stages : sendStages fs buffSize stage message cache = some (.bytes bytes status)) :
    status.message ≠ none := by
  have heads : ∀ cache, sendHead fs buffSize message cache = some (.bytes bytes status) →
      status.message ≠ none := by
    intro cache found
    rw [sendHead] at found
    split at found
    · exact sendBody_current found
    · obtain ⟨_, rfl⟩ := Emitted.bytes.inj (Option.some.inj found)
      exact Option.some_ne_none _
  cases stage with
  | line =>
    rw [sendStages, sendLine] at stages
    split at stages
    · exact heads _ stages
    · obtain ⟨_, rfl⟩ := Emitted.bytes.inj (Option.some.inj stages)
      exact Option.some_ne_none _
  | head => exact heads cache stages
  | body => exact sendBody_current stages

/-- A call of `on_read_response` finds nothing to send and looks at the flag, or it returns bytes of
a response; either way the flag stays true to the responses that were taken. -/
theorem onReadResponseFrom_flagged {preSend : Response σ → Option (Response σ × Bool)}
    {sent : List (Response σ)} {rounds : Nat} {s : Session ResponseLine σ}
    {read : Read ResponseLine σ} (uses : preSendResponse s.sessionHead = preSend)
    (flagged : Flagged preSend sent s)
    (returns : onReadResponseFrom fs buffSize rounds s = some read) :
    (∃ last, read = readDrained last ∧ Flagged preSend sent last) ∨
      (read.close = false ∧ read.session.sendStatus.message ≠ none ∧
        Flagged preSend sent read.session) := by
  induction rounds generalizing s with
  | zero => cases returns
  | succ rounds ih =>
    rw [onReadResponseFrom, uses] at returns
    obtain ⟨choice, taken, later⟩ := Option.bind_eq_some_iff.mp returns
    cases choice with
    | none =>
      obtain rfl := Option.some.inj later
      exact .inl ⟨s, rfl, flagged⟩
    | some pair =>
      obtain ⟨next, response⟩ := pair
      have kept := takeNext_flagged flagged taken
      have head := takeNext_sessionHead taken
      obtain ⟨emitted, stages, last⟩ := Option.bind_eq_some_iff.mp later
      cases emitted with
      | bytes bytes status =>
        obtain rfl := Option.some.inj last
        exact .inr ⟨rfl, sendStages_current stages, kept⟩
      | bodyEnd => exact @ih (messageEnd next) (by rw [← uses, ← head]; rfl) kept last

end Session

/-! ## The machine -/

variable {fs : FileSystem} {sessionHead : σ} {t next : Transport ResponseLine σ}

/-- Every step keeps the flag true to the responses that were taken. -/
theorem serverSystem_step_flagged {label : SendLabel ResponseLine σ}
    (head : t.session.sessionHead = sessionHead)
    (flagged : Session.Flagged (Session.preSendResponse sessionHead) t.sent t.session)
    (step : (serverSystem fs sessionHead).step t label next) :
    Session.Flagged (Session.preSendResponse sessionHead) next.sent next.session := by
  cases step with
  | @send response body present unread =>
    obtain ⟨taken, whole, flag⟩ := flagged
    rw [Transport.handOver, Session.send, (Session.startSend_eq _).1]
    exact ⟨taken, by rw [whole, List.append_assoc], flag⟩
  | connect =>
    rw [Transport.handOver, Session.onConnectEstablish, (Session.startSend_eq _).1]
    exact flagged
  | @read buffSize read room active returns =>
    rcases Session.onReadResponseFrom_flagged (by rw [head]) flagged returns with
      ⟨last, rfl, kept⟩ | ⟨_, _, kept⟩
    · exact kept
    · exact kept

/-- The flag of a server session is true to the responses that were taken, in every run. -/
theorem serverSystem_flagged (reached : (serverSystem fs sessionHead).Reachable t) :
    Session.Flagged (Session.preSendResponse sessionHead) t.sent t.session := by
  have both : Balanced fs (Session.preSendResponse sessionHead) ResponseLine.string sessionHead t ∧
      Session.Flagged (Session.preSendResponse sessionHead) t.sent t.session := by
    apply reached.invariant
    · rintro _ rfl
      exact ⟨Account.fresh.balanced, [], rfl, by simp [Transport.fresh, Session.generate]⟩
    · intro first label last inv step
      exact ⟨serverSystem_balanced inv.1 step,
        serverSystem_step_flagged inv.1.head inv.2 step⟩
  exact both.2

/-- Every response that was sent has a body. -/
theorem serverSystem_present (reached : (serverSystem fs sessionHead).Reachable t) :
    ∀ response ∈ t.sent, ∃ body, response.body = some body := by
  apply reached.invariant
  · rintro _ rfl response member
    cases member
  · intro first label last inv step
    cases step with
    | @send response body present unread =>
      intro other member
      rcases List.mem_append.mp member with early | late
      · exact inv other early
      · rw [List.mem_singleton.mp late]
        exact ⟨body, present⟩
    | connect => exact inv
    | read room active returns => exact inv

/-- A response asks for the close exactly where the head that decides does not stay open. -/
theorem asksClose_iff (updates : List Entry) {response : Response σ} {body : Body}
    (present : response.body = some body) (single : getHeadCount response.head httpConn ≤ 1) :
    Session.AsksClose (Session.preSendResponse (sessionHeadOf updates)) response ↔
      keepAlive (connectionHead (sessionHeadOf updates) response.head) = false := by
  have whole : response = ⟨response.line, response.head, some body⟩ := by rw [← present]
  have made := preSendResponse_eq_prepared updates response.line response.head body
  rw [← whole] at made
  have flag := preSendResponse_close updates present single made
  rw [Session.AsksClose, made, flag]
  cases keepAlive (connectionHead (sessionHeadOf updates) response.head) with
  | false => exact ⟨fun _ => rfl, fun _ => ⟨_, rfl⟩⟩
  | true => simp

/-- A call of `on_read_response` asks for the close exactly where it returns 0 and a response that
was sent asked for it. -/
theorem serverSystem_asks (reached : (serverSystem fs sessionHead).Reachable t) {buffSize : Nat}
    (room : 0 < buffSize) {read : Read ResponseLine σ}
    (returns : Session.onReadResponse fs buffSize t.session = some read) :
    read.close = true ↔ read.bytes = [] ∧
      ∃ response ∈ t.sent, Session.AsksClose (Session.preSendResponse sessionHead) response := by
  have account := serverSystem_account reached
  obtain ⟨other, found, paysOff⟩ := Session.onReadResponse_paysOff account.ready room
  obtain rfl := Option.some.inj (found.symm.trans returns)
  rcases Session.onReadResponseFrom_flagged (by rw [account.head])
      (serverSystem_flagged reached) returns with
    ⟨last, rfl, taken, whole, flag⟩ | ⟨open_, current, _⟩
  · have empty := (paysOff.ends rfl).2.2.2
    have all : t.sent = taken := by
      have queue : last.queue = [] := empty
      rw [whole, queue, List.append_nil]
    rw [all]
    exact flag.trans (and_iff_right rfl).symm
  · constructor
    · intro close
      rw [open_] at close
      cases close
    · rintro ⟨nothing, _⟩
      exact absurd (paysOff.ends nothing).2.2.1 current

/-- A session asks for the close exactly where all of its responses are out and one of them is not
kept alive: by its own `Connection` header, or by the session's where it has none. -/
theorem serverSystem_closes {updates : List Entry}
    (reached : (serverSystem fs (sessionHeadOf updates)).Reachable t)
    (single : ∀ response ∈ t.sent, getHeadCount response.head httpConn ≤ 1) {buffSize : Nat}
    (room : 0 < buffSize) {read : Read ResponseLine σ}
    (returns : Session.onReadResponse fs buffSize t.session = some read) :
    read.close = true ↔
      read.bytes = [] ∧ t.emitted = t.sent.flatMap (responseWire fs (sessionHeadOf updates)) ∧
        ∃ response ∈ t.sent,
          keepAlive (connectionHead (sessionHeadOf updates) response.head) = false := by
  have present := serverSystem_present reached
  have asks := serverSystem_asks reached room returns
  have some_ : (∃ response ∈ t.sent,
      Session.AsksClose (Session.preSendResponse (sessionHeadOf updates)) response) ↔
      ∃ response ∈ t.sent,
        keepAlive (connectionHead (sessionHeadOf updates) response.head) = false := by
    apply exists_congr
    intro response
    apply and_congr_right
    intro member
    obtain ⟨body, here⟩ := present response member
    exact asksClose_iff updates here (single response member)
  have out : read.bytes = [] →
      t.emitted = t.sent.flatMap (responseWire fs (sessionHeadOf updates)) := by
    intro nothing
    have account := serverSystem_account reached
    obtain ⟨other, found, paysOff⟩ := Session.onReadResponse_paysOff account.ready room
    obtain rfl := Option.some.inj (found.symm.trans returns)
    have balance := account.balance
    rw [account.head] at paysOff
    rw [(paysOff.ends nothing).1, List.append_nil] at balance
    exact balance
  rw [asks, some_]
  constructor
  · rintro ⟨nothing, one⟩
    exact ⟨nothing, out nothing, one⟩
  · rintro ⟨nothing, _, one⟩
    exact ⟨nothing, one⟩

/-- A response that is kept alive. -/
def aliveResponse : Response ListMultimap :=
  { plainResponse with head := setKeepAlive plainResponse.head true }

/-- A session that sent a response that is kept alive and one that is not, and is read to the
end. -/
theorem serverSystem_closes_second :
    ∃ (t : Transport ResponseLine ListMultimap) (read : Read ResponseLine ListMultimap),
      (serverSystem (fun _ => none) (sessionHeadOf [])).Reachable t ∧
      t.sent = [aliveResponse, plainResponse] ∧
      Session.onReadResponse (fun _ => none) 1000 t.session = some read ∧ read.close = true := by
  have reached : ∃ t : Transport ResponseLine ListMultimap,
      (serverSystem (fun _ => none) (sessionHeadOf [])).Reachable t ∧
      t.sent = [aliveResponse, plainResponse] ∧
      (Session.onReadResponse (fun _ => none) 1000 t.session).map (·.bytes) = some [] ∧
      t.emitted = t.sent.flatMap (responseWire (fun _ => none) (sessionHeadOf [])) := by
    refine ⟨?last, ⟨_, [.send aliveResponse, .send plainResponse, .connect, .read 1000,
      .read 1000, .read 1000, .read 1000, .read 1000, .read 1000], rfl, ?run⟩, ?rest⟩
    case run =>
      refine .cons trivial (.send rfl rfl) ?_
      refine .cons trivial (.send rfl rfl) ?_
      refine .cons trivial .connect ?_
      refine .cons trivial (.read (by decide) (by decide) rfl) ?_
      refine .cons trivial (.read (by decide) (by decide) rfl) ?_
      refine .cons trivial (.read (by decide) (by decide) rfl) ?_
      refine .cons trivial (.read (by decide) (by decide) rfl) ?_
      refine .cons trivial (.read (by decide) (by decide) rfl) ?_
      refine .cons trivial (.read (by decide) (by decide) rfl) ?_
      exact .nil _
    case rest => exact ⟨rfl, by decide +kernel, by decide +kernel⟩
  obtain ⟨t, reached, sent, last, all⟩ := reached
  obtain ⟨read, returns, nothing⟩ := Option.map_eq_some_iff.mp last
  refine ⟨t, read, reached, sent, returns, ?_⟩
  have single : ∀ response ∈ t.sent, getHeadCount response.head httpConn ≤ 1 := by
    rw [sent]
    decide +kernel
  exact (serverSystem_closes reached single (by decide) returns).mpr
    ⟨nothing, all, plainResponse, by simp [sent], by decide +kernel⟩

end Hnw.Http
