import Hnw.Verif.Chains
import Hnw.Verif.SendClient
import Hnw.Verif.SendServer

/-!
# What the chains of a session send

The only chain of a session pays off what the session owes, so that what is on the wire are the
messages in the order they were queued. The steps of a chain are those of `on_read_request` and
`on_read_response`.
-/

namespace Hnw.Http.Concurrent

open Hnw.Util Hnw.Util.UnorderedMultimap Hnw.Theory Hnw.Http.Session

variable {ι σ : Type} [UnorderedMultimap σ] {s later : Concurrent ι σ} {kind : SenderKind ι σ}
  {fs : FileSystem}

/-! ## The bytes on the wire -/

/-- Every message has a body that can be read from its beginning. -/
def AllFresh (fs : FileSystem) (sent : List (Message ι σ)) : Prop :=
  ∀ message ∈ sent, ∃ body, message.body = some body ∧ body.Fresh fs

/-- What is on the wire, in flight and owed is what was queued. -/
structure Ordered (kind : SenderKind ι σ) (fs : FileSystem) (sessionHead : σ)
    (s : Concurrent ι σ) : Prop where
  /-- The session's head is the one it was made with. -/
  head : s.session.sessionHead = sessionHead
  /-- Its messages can be sent. -/
  ready : Ready fs s.session
  /-- `on_read` is called with room in the buffer. -/
  room : ∀ buffSize, .top buffSize ∈ s.chains ∨ .stages buffSize ∈ s.chains → 0 < buffSize
  /-- The messages in the order they were queued. -/
  balance : s.pieces.flatMap Prod.snd ++
      owed fs (kind.preSend sessionHead) kind.string s.session =
    s.sent.flatMap (queuedWire fs (kind.preSend sessionHead) kind.string)

variable {sessionHead : σ}

/-- Steps of a thread that change flags alone. -/
theorem Ordered.of_flags (ordered : Ordered kind fs sessionHead s)
    (session : ∃ sendFlag connectFlag, later.session = { s.session with sendFlag, connectFlag })
    (chains : later.chains = s.chains) (wire : later.wire = s.wire) (sent : later.sent = s.sent) :
    Ordered kind fs sessionHead later := by
  obtain ⟨sendFlag, connectFlag, same⟩ := session
  refine ⟨?_, ?_, ?_, ?_⟩
  · rw [same]
    exact ordered.head
  · rw [same]
    exact ⟨ordered.ready.current, ordered.ready.queued⟩
  · rw [chains]
    exact ordered.room
  · rw [same, pieces, chains, wire, sent]
    exact ordered.balance

/-- Queueing a message adds it to the account. -/
theorem Ordered.push (ordered : Ordered kind fs sessionHead s) {message : Message ι σ}
    (fresh : ∃ body, message.body = some body ∧ body.Fresh fs) (threads : Nat → ThreadPhase) :
    Ordered kind fs sessionHead
      { s with session := { s.session with queue := s.session.queue ++ [message] }, threads,
               sent := s.sent ++ [message] } := by
  refine ⟨ordered.head, ⟨ordered.ready.current, ?_⟩, ordered.room, ?_⟩
  · intro other member
    rcases List.mem_append.mp member with early | late
    · exact ordered.ready.queued other early
    · rw [List.mem_singleton.mp late]
      exact fresh
  · have balance := ordered.balance
    simp only [owed] at balance ⊢
    rw [List.flatMap_append, List.flatMap_append, ← balance]
    simp only [List.append_assoc]
    rfl

/-- A new chain has no bytes. -/
theorem Ordered.sendCb (ordered : Ordered kind fs sessionHead s) (threads : Nat → ThreadPhase) :
    Ordered kind fs sessionHead { s with threads, chains := s.chains ++ [.idle] } := by
  refine ⟨ordered.head, ordered.ready, ?_, ?_⟩
  · intro buffSize member
    apply ordered.room buffSize
    simpa using member
  · have none : (s.chains ++ [ChainPhase.idle]).flatMap inFlight = s.chains.flatMap inFlight := by
      simp [inFlight]
    rw [pieces, none]
    exact ordered.balance

/-- A chain that waits for bytes has the room it waits with. -/
theorem room_of_waiting {next : ChainPhase} {buffSize : Nat} (room : 0 < buffSize)
    (waits : next = .top buffSize ∨ next = .stages buffSize) (other : Nat)
    (same : next = .top other ∨ next = .stages other) : 0 < other := by
  have sizes : buffSize = other := by
    rcases waits with rfl | rfl
    · simpa using same
    · simpa using same
  exact sizes ▸ room

/-- The only chain moves on and keeps the account. -/
theorem Ordered.moves (ordered : Ordered kind fs sessionHead s) {phase next : ChainPhase}
    (only : s.chains = [phase]) (session : Session ι σ)
    (wire : List (Nat × Bytes))
    (head : session.sessionHead = s.session.sessionHead) (ready : Ready fs session)
    (room : ∀ buffSize, next = .top buffSize ∨ next = .stages buffSize → 0 < buffSize)
    (same : (wire ++ inFlight next).flatMap Prod.snd ++
        owed fs (kind.preSend sessionHead) kind.string session =
      (s.wire ++ inFlight phase).flatMap Prod.snd ++
        owed fs (kind.preSend sessionHead) kind.string s.session) :
    Ordered kind fs sessionHead ({ s with session, wire }.setChain 0 next) := by
  have moved : s.chains.set 0 next = [next] := by rw [only, List.set_cons_zero]
  have balance := ordered.balance
  rw [pieces, only, List.flatMap_singleton] at balance
  refine ⟨head.trans ordered.head, ready, ?_, ?_⟩
  · intro buffSize member
    apply room buffSize
    simpa [setChain, moved, eq_comm] using member
  · show (wire ++ (s.chains.set 0 next).flatMap inFlight).flatMap Prod.snd ++
      owed fs (kind.preSend sessionHead) kind.string session = _
    rw [moved, List.flatMap_singleton, same, balance]
    rfl

/-- The only chain ends, where it has no bytes, and keeps the account. -/
theorem Ordered.ends (ordered : Ordered kind fs sessionHead s) {phase : ChainPhase}
    (only : s.chains = [phase]) (silent : inFlight phase = []) (session : Session ι σ)
    (head : session.sessionHead = s.session.sessionHead) (ready : Ready fs session)
    (same : owed fs (kind.preSend sessionHead) kind.string session =
      owed fs (kind.preSend sessionHead) kind.string s.session) :
    Ordered kind fs sessionHead ({ s with session }.endChain 0) := by
  have ended : s.chains.eraseIdx 0 = [] := by rw [only, List.eraseIdx_cons_zero]
  have balance := ordered.balance
  rw [pieces, only, List.flatMap_singleton, silent] at balance
  refine ⟨head.trans ordered.head, ready, ?_, ?_⟩
  · intro buffSize member
    simp [endChain, ended] at member
  · show (s.wire ++ (s.chains.eraseIdx 0).flatMap inFlight).flatMap Prod.snd ++
      owed fs (kind.preSend sessionHead) kind.string session = _
    rw [ended, List.flatMap_nil, same]
    exact balance

/-- The block under the lock keeps the account. -/
theorem Ordered.lockBlock (ordered : Ordered kind fs sessionHead s)
    (prepares : Prepares (kind.preSend sessionHead)) {buffSize : Nat}
    (only : s.chains = [.top buffSize]) (step : s.lockBlock kind 0 buffSize = some later) :
    Ordered kind fs sessionHead later := by
  have room : 0 < buffSize := ordered.room buffSize (.inl (by simp [only]))
  unfold Concurrent.lockBlock at step
  rw [ordered.head] at step
  rcases @takeNext_spec _ _ _ fs _ kind.string s.session prepares ordered.ready with
    ⟨none, idle, empty⟩ | ⟨next, message, taken, current, ready, same, _, _, head, _⟩
  · rw [none] at step
    cases step
    apply ordered.ends only rfl (Session.readDrained s.session).session
    · rfl
    · exact ⟨ordered.ready.current, ordered.ready.queued⟩
    · rfl
  · rw [taken] at step
    cases step
    apply ordered.moves only next s.wire head ready
    · exact room_of_waiting room (.inr rfl)
    · rw [same]
      rfl

/-- The stages keep the account. -/
theorem Ordered.stageBlock (ordered : Ordered kind fs sessionHead s) {buffSize : Nat}
    (only : s.chains = [.stages buffSize]) (step : s.stageBlock kind fs 0 buffSize = some later) :
    Ordered kind fs sessionHead later := by
  have room : 0 < buffSize := ordered.room buffSize (.inr (by simp [only]))
  unfold Concurrent.stageBlock at step
  cases current : s.session.sendStatus.message with
  | none =>
    rw [current] at step
    cases step
  | some message =>
    obtain ⟨emitted, stages, pays⟩ := sendStages_pays (ordered.ready.current message current) room
      s.session.sendStatus.status s.session.sendStatus.cache
    rw [current] at step
    simp only [stages] at step
    cases emitted with
    | bytes bytes status =>
      have paid := @bytes_paysOff _ _ _ _ (kind.preSend sessionHead) kind.string _ ordered.ready
        _ current _ _ pays
      simp only [if_neg pays.1] at step
      cases step
      apply ordered.moves only { s.session with sendStatus := status } s.wire rfl paid.ready
      · simp
      · show (s.wire ++ [(_, bytes)]).flatMap Prod.snd ++ _ = (s.wire ++ []).flatMap Prod.snd ++ _
        rw [List.flatMap_append, List.flatMap_singleton, List.append_assoc, List.append_nil,
          paid.pays]
    | bodyEnd =>
      have finished : currentRest fs s.session.sendStatus = [] := by
        rw [currentRest, current]
        exact pays
      have same := @messageEnd_owed _ _ _ _ (kind.preSend sessionHead) kind.string _ finished
      have ready := messageEnd_ready ordered.ready
      cases step
      split
      · exact ordered.ends only rfl (Session.messageEnd s.session) rfl ready same
      · apply ordered.moves only (Session.messageEnd s.session) s.wire rfl ready
        · exact room_of_waiting room (.inl rfl)
        · rw [same]
          rfl

/-- Every step of a serial session keeps the account, where the body of a message that is queued is
fresh. -/
theorem Ordered.next (ordered : Ordered kind fs sessionHead s) (serial : Serial s)
    (prepares : Prepares (kind.preSend sessionHead)) {label : ThreadLabel ι σ}
    (fresh : AllFresh fs later.sent) (step : s.next kind fs label = some later) :
    Ordered kind fs sessionHead later := by
  cases move_of_next step with
  | @push thread message _ => exact ordered.push (fresh message (by simp [setThread])) _
  | connect | readSendFlag | readConnectFlag | writeSendFlag =>
    exact ordered.of_flags ⟨_, _, rfl⟩ rfl rfl rfl
  | sendCb => exact ordered.sendCb _
  | @call chain buffSize here room =>
    obtain ⟨rfl, only⟩ := serial.only here
    apply ordered.moves only s.session s.wire rfl ordered.ready
    · exact room_of_waiting room (.inl rfl)
    · rfl
  | takeNext here step =>
    obtain ⟨rfl, only⟩ := serial.only here
    exact ordered.lockBlock prepares only step
  | stages here step =>
    obtain ⟨rfl, only⟩ := serial.only here
    exact ordered.stageBlock only step
  | @written chain piece here =>
    obtain ⟨rfl, only⟩ := serial.only here
    apply ordered.moves only s.session (s.wire ++ [piece]) rfl ordered.ready
    · simp
    · show (s.wire ++ [piece] ++ []).flatMap Prod.snd ++ _ = _
      rw [List.append_nil]
      rfl

/-! ## The steps of a call -/

/-- The stages of a round of `on_read`: what the call returns, or the session the next round begins
with. -/
def roundStages (kind : SenderKind ι σ) (fs : FileSystem) (buffSize : Nat) (s : Session ι σ)
    (message : Message ι σ) : Option (Read ι σ ⊕ Session ι σ) :=
  (sendStages fs buffSize s.sendStatus.status message s.sendStatus.cache).map fun
    | .bytes bytes status => .inl ⟨bytes, false, { s with sendStatus := status }⟩
    | .bodyEnd =>
      if kind.returnsAtEnd then .inl ⟨[], false, messageEnd s⟩ else .inr (messageEnd s)

/-- A round of the loop of `on_read`. -/
def round (kind : SenderKind ι σ) (fs : FileSystem) (buffSize : Nat) (s : Session ι σ) :
    Option (Read ι σ ⊕ Session ι σ) := do
  match ← Session.takeNext (kind.preSend s.sessionHead) kind.string s with
  | none => pure (.inl (readDrained s))
  | some (s, message) => roundStages kind fs buffSize s message

/-- What a round leaves of the only chain. -/
def Rounded (s : Concurrent ι σ) (buffSize : Nat) : Read ι σ ⊕ Session ι σ → Prop
  | .inl read => s.session = read.session ∧
      s.chains = if read.bytes = [] then [] else [.writing (s.taken, read.bytes)]
  | .inr session => s.session = session ∧ s.chains = [.top buffSize]

/-- The stages are a step of the only chain. -/
theorem roundStages_step {buffSize : Nat} (only : s.chains = [.stages buffSize])
    {message : Message ι σ} (current : s.session.sendStatus.message = some message)
    {result : Read ι σ ⊕ Session ι σ}
    (rounds : roundStages kind fs buffSize s.session message = some result) :
    ∃ later, s.next kind fs (.stages 0) = some later ∧ Rounded later buffSize result := by
  obtain ⟨emitted, stages, same⟩ := Option.map_eq_some_iff.mp rounds
  have step : s.next kind fs (.stages 0) = s.stageBlock kind fs 0 buffSize := by
    simp only [Concurrent.next, only, List.getElem?_cons_zero]
  rw [step]
  unfold Concurrent.stageBlock
  simp only [current, stages]
  cases emitted with
  | bytes bytes status =>
    cases same
    refine ⟨_, rfl, ?_⟩
    by_cases empty : bytes = []
    · rw [if_pos empty]
      exact ⟨rfl, by simp [endChain, only, empty]⟩
    · rw [if_neg empty]
      exact ⟨rfl, by simp [setChain, only, empty, taken]⟩
  | bodyEnd =>
    refine ⟨_, rfl, ?_⟩
    by_cases returns : kind.returnsAtEnd = true
    · simp only [if_pos returns] at same ⊢
      cases same
      exact ⟨rfl, by simp [endChain, only]⟩
    · simp only [if_neg returns] at same ⊢
      cases same
      exact ⟨rfl, by simp [setChain, only]⟩

/-- A round that faults nowhere is a run of steps of the only chain. -/
theorem round_steps {buffSize : Nat} (only : s.chains = [.top buffSize])
    {result : Read ι σ ⊕ Session ι σ} (rounds : round kind fs buffSize s.session = some result)
    (connected : Bool) :
    ∃ labels later, (system kind fs sessionHead connected).Run s labels later ∧
      Rounded later buffSize result := by
  have takes : s.next kind fs (.takeNext 0) = s.lockBlock kind 0 buffSize := by
    simp only [Concurrent.next, only, List.getElem?_cons_zero]
  unfold round at rounds
  cases found : Session.takeNext (kind.preSend s.session.sessionHead) kind.string s.session with
  | none => simp [found] at rounds
  | some next =>
    cases next with
    | none =>
      have same : .inl (readDrained s.session) = result := by simpa [found] using rounds
      have step : s.next kind fs (.takeNext 0) =
          some ({ s with session := (readDrained s.session).session }.endChain 0) := by
        simp only [takes, Concurrent.lockBlock, found]
      rw [← same]
      exact ⟨_, _, .cons trivial step (.nil _), rfl, by simp [endChain, only, readDrained]⟩
    | some next =>
      obtain ⟨session, message⟩ := next
      let middle := { s with session }.setChain 0 (.stages buffSize)
      have first : s.next kind fs (.takeNext 0) = some middle := by
        simp only [takes, Concurrent.lockBlock, found, middle]
      have stage : middle.chains = [.stages buffSize] := by simp [middle, setChain, only]
      have goesOn : roundStages kind fs buffSize session message = some result := by
        simpa [found] using rounds
      obtain ⟨later, second, rounded⟩ := roundStages_step stage (takeNext_keeps found).2.2 goesOn
      exact ⟨_, later, .cons trivial first (.cons trivial second (.nil later)), rounded⟩

/-- `on_read_request` is one round. -/
theorem onReadRequest_round (buffSize : Nat) (s : Session RequestLine σ) :
    round clientKind fs buffSize s = (onReadRequest fs buffSize s).map .inl := by
  unfold round onReadRequest
  cases found : Session.takeNext (clientKind.preSend s.sessionHead) RequestLine.string s with
  | none => simp_all [clientKind]
  | some next =>
    cases next with
    | none => simp_all [clientKind]
    | some next =>
      simp only [clientKind] at found
      simp only [clientKind, found, roundStages, Option.bind_eq_bind, Option.bind_some]
      cases sendStages fs buffSize next.1.sendStatus.status next.2 next.1.sendStatus.cache with
      | none => rfl
      | some emitted => cases emitted <;> rfl

/-- The loop of `on_read_response` is rounds. -/
theorem onReadResponseFrom_succ (buffSize rounds : Nat) (s : Session ResponseLine σ) :
    onReadResponseFrom fs buffSize (rounds + 1) s =
      (round serverKind fs buffSize s).bind fun result =>
        result.elim some (onReadResponseFrom fs buffSize rounds) := by
  rw [onReadResponseFrom, round]
  simp only [serverKind]
  cases Session.takeNext (preSendResponse s.sessionHead) ResponseLine.string s with
  | none => rfl
  | some next =>
    cases next with
    | none => rfl
    | some next =>
      simp only [roundStages, Option.bind_eq_bind, Option.bind_some]
      cases sendStages fs buffSize next.1.sendStatus.status next.2 next.1.sendStatus.cache with
      | none => rfl
      | some emitted => cases emitted <;> rfl

/-- A call that `on_read_request` answers is a run of steps of the only chain. -/
theorem onReadRequest_steps {s : Concurrent RequestLine σ} {buffSize : Nat}
    (only : s.chains = [.top buffSize]) {read : Read RequestLine σ}
    (returns : onReadRequest fs buffSize s.session = some read) (connected : Bool) :
    ∃ labels later, (system clientKind fs sessionHead connected).Run s labels later ∧
      Rounded later buffSize (.inl read) := by
  apply round_steps only
  rw [onReadRequest_round, returns]
  rfl

/-- A call that `on_read_response` answers is a run of steps of the only chain. -/
theorem onReadResponse_steps {s : Concurrent ResponseLine σ} {buffSize rounds : Nat}
    (only : s.chains = [.top buffSize]) {read : Read ResponseLine σ}
    (returns : onReadResponseFrom fs buffSize rounds s.session = some read) (connected : Bool) :
    ∃ labels later, (system serverKind fs sessionHead connected).Run s labels later ∧
      Rounded later buffSize (.inl read) := by
  induction rounds generalizing s with
  | zero => exact absurd returns (Option.some_ne_none _).symm
  | succ rounds ih =>
    rw [onReadResponseFrom_succ] at returns
    obtain ⟨result, round, last⟩ := Option.bind_eq_some_iff.mp returns
    obtain ⟨labels, middle, run, rounded⟩ := round_steps only round connected
    cases result with
    | inl other =>
      cases last
      exact ⟨labels, middle, run, rounded⟩
    | inr next =>
      obtain ⟨same, top⟩ := rounded
      rw [← same] at last
      obtain ⟨more, later, goesOn, rounded⟩ := ih top last
      exact ⟨labels ++ more, later, run.append goesOn, rounded⟩

/-! ## Runs -/

/-- A message that was sent stays sent. -/
theorem sent_next {label : ThreadLabel ι σ} (step : s.next kind fs label = some later) :
    s.sent <+: later.sent := by
  cases move_of_next step with
  | push => exact List.prefix_append _ _
  | connect | readSendFlag | readConnectFlag | writeSendFlag | sendCb | call | written =>
    exact List.prefix_refl _
  | takeNext here step =>
    rcases lockBlock_cases step with rfl | ⟨_, _, _, rfl⟩
    · exact List.prefix_refl _
    · exact List.prefix_refl _
  | stages here step =>
    obtain ⟨_, _, _, rfl | ⟨_, rfl⟩ | rfl⟩ := stageBlock_cases step
    · exact List.prefix_refl _
    · exact List.prefix_refl _
    · exact List.prefix_refl _

/-- What a session whose threads set the flag once keeps. -/
structure Sends (kind : SenderKind ι σ) (fs : FileSystem) (sessionHead : σ)
    (s : Concurrent ι σ) : Prop where
  /-- One chain at most. -/
  serial : Serial s
  /-- One message after the other. -/
  inTurn : InTurn s
  /-- All of each message. -/
  ordered : AllFresh fs s.sent → Ordered kind fs sessionHead s

/-- A new session has sent nothing. -/
theorem sends_fresh (connected : Bool) :
    Sends kind fs sessionHead (fresh sessionHead connected) where
  serial := serial_fresh sessionHead connected
  inTurn := ⟨Nat.le_refl 0, by simp [pieces, fresh], by simp [pieces, fresh]⟩
  ordered _ := ⟨rfl, ⟨by simp [fresh, generate], by simp [fresh, generate]⟩, by simp [fresh], rfl⟩

/-- Every step keeps that, as long as threads set the flag only while it is not set. -/
theorem Sends.next (sends : Sends kind fs sessionHead s)
    (prepares : Prepares (kind.preSend sessionHead)) {label : ThreadLabel ι σ}
    (once : SetsOnce s label) (step : s.next kind fs label = some later) :
    Sends kind fs sessionHead later where
  serial := sends.serial.next once step
  inTurn := sends.inTurn.next sends.serial step
  ordered fresh := by
    have before : AllFresh fs s.sent := fun message member =>
      fresh message ((sent_next step).subset member)
    exact (sends.ordered before).next sends.serial prepares fresh step

/-- One chain at most is active, what is on the wire is in the order of the messages, and with
bodies that can be read it is the beginning of the messages. -/
def SendsInTurn (kind : SenderKind ι σ) (fs : FileSystem) (sessionHead : σ)
    (s : Concurrent ι σ) : Prop :=
  s.chains.length ≤ 1 ∧ (s.wire.Pairwise fun first second => first.1 ≤ second.1) ∧
    (AllFresh fs s.sent → s.wire.flatMap Prod.snd <+:
      s.sent.flatMap (queuedWire fs (kind.preSend sessionHead) kind.string))

/-- What a session keeps is that it sends in turn. -/
theorem Sends.sendsInTurn (sends : Sends kind fs sessionHead s) :
    SendsInTurn kind fs sessionHead s := by
  refine ⟨sends.serial.one, ?_, fun fresh => ?_⟩
  · have turns := sends.inTurn.turns
    exact (List.pairwise_append.mp turns).1
  · have balance := (sends.ordered fresh).balance
    rw [pieces, List.flatMap_append, List.append_assoc] at balance
    exact balance ▸ List.prefix_append _ _

/-- Threads that set the flag only while it is not set start one chain at a time. -/
theorem sendsInTurn_of_reachable {connected : Bool} (prepares : Prepares (kind.preSend sessionHead))
    (reached : (system kind fs sessionHead connected).ReachableWith SetsOnce s) :
    SendsInTurn kind fs sessionHead s := by
  have sends : Sends kind fs sessionHead s := by
    apply reached.invariant
    · intro first begins
      rw [begins]
      exact sends_fresh connected
    · intro first label last sends once step
      exact sends.next prepares once step
  exact sends.sendsInTurn

/-- Sessions of both types send in turn, connected from the beginning or later, whatever threads
and their transport do, as long as no thread sets `send_flag_` after another did. -/
theorem sessions_sendInTurn (fs : FileSystem) (sessionHead : σ) (connected : Bool) :
    (∀ s, (system serverKind fs sessionHead connected).ReachableWith SetsOnce s →
      SendsInTurn serverKind fs sessionHead s) ∧
    ∀ s, (system clientKind fs sessionHead connected).ReachableWith SetsOnce s →
      SendsInTurn clientKind fs sessionHead s := by
  refine ⟨fun s reached => ?_, fun s reached => ?_⟩
  · exact sendsInTurn_of_reachable (preSendResponse_prepares sessionHead) reached
  · exact sendsInTurn_of_reachable (preSendRequest_prepares sessionHead) reached

/-- Two threads send a response each; the second finds the flag set. -/
theorem sessions_sendInTurn_once :
    ∃ s : Concurrent ResponseLine ListMultimap,
      (system serverKind (fun _ => none) serverHead true).ReachableWith SetsOnce s ∧
      s.wire = [(1, ascii "HTTP/1.1 200 OK" ++ crlf)] ∧ s.sent.length = 2 ∧
      SendsInTurn serverKind (fun _ => none) serverHead s := by
  have reached : ∃ s : Concurrent ResponseLine ListMultimap,
      (system serverKind (fun _ => none) serverHead true).ReachableWith SetsOnce s ∧
      s.wire = [(1, ascii "HTTP/1.1 200 OK" ++ crlf)] ∧ s.sent.length = 2 := by
    refine ⟨_, ⟨_, [.push 0 plainResponse, .readSendFlag 0, .readConnectFlag 0, .writeSendFlag 0,
      .push 1 plainResponse, .readSendFlag 1, .sendCb 0, .call 0 100, .takeNext 0, .stages 0,
      .written 0], rfl,
      .cons trivial rfl (.cons trivial rfl (.cons trivial rfl (.cons rfl rfl (.cons trivial rfl
        (.cons trivial rfl (.cons trivial rfl (.cons trivial rfl (.cons trivial rfl
          (.cons trivial rfl (.cons trivial rfl (.nil _)))))))))))⟩, by decide, by decide⟩
  obtain ⟨s, reached, wire, sent⟩ := reached
  have both := sessions_sendInTurn (fun _ => none) (serverHead : ListMultimap) true
  exact ⟨s, reached, wire, sent, both.1 s reached⟩

/-- Two threads that both read the flag before one sets it start two chains. -/
theorem doubleStart (first second : Message ι σ) :
    ∃ s, (system kind fs sessionHead true).Reachable s ∧ s.chains = [.idle, .idle] :=
  ⟨_, ⟨_, [.push 0 first, .push 1 second, .readSendFlag 0, .readSendFlag 1, .readConnectFlag 0,
    .readConnectFlag 1, .writeSendFlag 0, .writeSendFlag 1, .sendCb 0, .sendCb 1], rfl,
    .cons trivial rfl (.cons trivial rfl (.cons trivial rfl (.cons trivial rfl (.cons trivial rfl
      (.cons trivial rfl (.cons trivial rfl (.cons trivial rfl (.cons trivial rfl
        (.cons trivial rfl (.nil _))))))))))⟩, rfl⟩

/-- Two chains of a connected session. -/
theorem sessions_doubleStart :
    ¬ ∀ s : Concurrent ResponseLine ListMultimap,
      (system serverKind (fun _ => none) serverHead true).Reachable s → s.chains.length ≤ 1 := by
  intro alone
  obtain ⟨s, reached, two⟩ := @doubleStart _ _ _ serverKind (fun _ => none) serverHead
    plainResponse plainResponse
  have one := alone s reached
  rw [two] at one
  exact absurd one (by decide)

end Hnw.Http.Concurrent
