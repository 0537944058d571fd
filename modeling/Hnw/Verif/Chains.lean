import Hnw.Session.Threads

/-!
# One read chain at a time

`start_send` reads `send_flag_` and sets it in two steps, outside of the lock. As long as no other
thread sets the flag in between there is one chain at most, and the messages are on the wire one
after the other.
-/

namespace Hnw.Http.Concurrent

open Hnw.Util Hnw.Util.UnorderedMultimap Hnw.Theory Hnw.Http.Session

variable {ι σ : Type}

/-- A thread only sets the flag while it is not set. -/
def SetsOnce (s : Concurrent ι σ) : ThreadLabel ι σ → Prop
  | .writeSendFlag _ => s.session.sendFlag = false
  | _ => True

/-- There is one chain at most, or one thread that will start it, and then the flag is set. -/
structure Serial (s : Concurrent ι σ) : Prop where
  /-- While the flag is not set no chain is active, and none is started. -/
  down : s.session.sendFlag = false → s.chains = [] ∧ ∀ thread, s.threads thread ≠ .raised
  /-- One thread starts a chain while none is active. -/
  alone : ∀ thread, s.threads thread = .raised →
    s.chains = [] ∧ ∀ other, s.threads other = .raised → other = thread
  /-- One chain is active. -/
  one : s.chains.length ≤ 1

variable {s later : Concurrent ι σ}

/-- A new session is serial. -/
theorem serial_fresh (sessionHead : σ) (connected : Bool) :
    Serial (fresh sessionHead connected : Concurrent ι σ) := by
  refine ⟨fun _ => ⟨rfl, fun _ => ?_⟩, fun thread raised => ?_, Nat.zero_le 1⟩
  · simp [fresh]
  · simp [fresh] at raised

/-- A thread that moves on to something else than `raised` is not one that raised the flag. -/
theorem raised_of_setThread {thread other : Nat} {phase : ThreadPhase} (moves : phase ≠ .raised)
    (raised : (s.setThread thread phase).threads other = .raised) :
    s.threads other = .raised := by
  simp only [setThread] at raised
  split at raised
  · exact absurd raised moves
  · exact raised

/-- Steps of a thread that neither set the flag nor start a chain. -/
theorem Serial.of_threads (serial : Serial s) (flag : later.session.sendFlag = s.session.sendFlag)
    (chains : later.chains = s.chains)
    (raised : ∀ other, later.threads other = .raised → s.threads other = .raised) :
    Serial later := by
  refine ⟨fun down => ?_, fun thread up => ?_, ?_⟩
  · obtain ⟨none, still⟩ := serial.down (flag ▸ down)
    exact ⟨chains.trans none, fun thread up => still thread (raised thread up)⟩
  · obtain ⟨none, unique⟩ := serial.alone thread (raised thread up)
    exact ⟨chains.trans none, fun other up => unique other (raised other up)⟩
  · rw [chains]
    exact serial.one

/-- While a chain is active no thread starts one. -/
theorem Serial.not_raised (serial : Serial s) {chain : Nat} {phase : ChainPhase}
    (active : s.chains[chain]? = some phase) (thread : Nat) : s.threads thread ≠ .raised := by
  intro raised
  rw [(serial.alone thread raised).1] at active
  cases active

/-- Steps of a chain, which keep the flag set or end the chain. -/
theorem Serial.of_chain (serial : Serial s) {chain : Nat} {phase : ChainPhase}
    (active : s.chains[chain]? = some phase) (threads : later.threads = s.threads)
    (fewer : later.chains.length ≤ s.chains.length)
    (flag : later.session.sendFlag = s.session.sendFlag ∨ later.chains = []) : Serial later := by
  have still := serial.not_raised active
  refine ⟨fun down => ?_, fun thread up => ?_, Nat.le_trans fewer serial.one⟩
  · rcases flag with same | none
    · rw [(serial.down (same ▸ down)).1] at active
      cases active
    · exact ⟨none, fun thread => threads ▸ still thread⟩
  · rw [threads] at up
    exact absurd up (still thread)

/-- The only chain. -/
theorem Serial.only (serial : Serial s) {chain : Nat} {phase : ChainPhase}
    (active : s.chains[chain]? = some phase) : chain = 0 ∧ s.chains = [phase] := by
  have one := serial.one
  have inside : chain < s.chains.length := (List.getElem?_eq_some_iff.mp active).1
  have first : chain = 0 := by omega
  have single : s.chains.length = 1 := by omega
  obtain ⟨other, only⟩ := List.length_eq_one_iff.mp single
  rw [first, only] at active
  refine ⟨first, ?_⟩
  rw [only, Option.some.inj active]

/-- Taking the next message leaves the flag alone, at most takes a message off the queue, and makes
it the current one. -/
theorem takeNext_keeps {preSend : Message ι σ → Option (Message ι σ × Bool)}
    {string : ι → Bytes} {s next : Session ι σ} {message : Message ι σ}
    (taken : Session.takeNext preSend string s = some (some (next, message))) :
    next.sendFlag = s.sendFlag ∧ next.queue.length ≤ s.queue.length ∧
      next.sendStatus.message = some message := by
  unfold Session.takeNext at taken
  split at taken
  · next current =>
    cases taken
    exact ⟨rfl, Nat.le_refl _, current⟩
  · split at taken
    · cases taken
    · next waiting =>
      obtain ⟨_, _, same⟩ := Option.map_eq_some_iff.mp taken
      cases same
      refine ⟨rfl, ?_, rfl⟩
      rw [waiting]
      exact Nat.le_succ _

variable {kind : SenderKind ι σ} {fs : FileSystem}

/-- What the block under the lock in `on_read` does: the chain ends, or it goes on to the stages of
a message that at most leaves the queue. -/
theorem lockBlock_cases {chain buffSize : Nat}
    (step : s.lockBlock kind chain buffSize = some later) :
    later = { s with session := (Session.readDrained s.session).session }.endChain chain ∨
      ∃ session : Session ι σ, session.sendFlag = s.session.sendFlag ∧
        session.queue.length ≤ s.session.queue.length ∧
        later = { s with session }.setChain chain (.stages buffSize) := by
  unfold Concurrent.lockBlock at step
  split at step
  · cases step
  · cases step
    exact .inl rfl
  · next session _ taken =>
    cases step
    obtain ⟨flag, shorter, _⟩ := takeNext_keeps taken
    exact .inr ⟨session, flag, shorter, rfl⟩

/-- The block under the lock in `on_read` keeps a session serial. -/
theorem Serial.lockBlock (serial : Serial s) {chain buffSize : Nat} {phase : ChainPhase}
    (active : s.chains[chain]? = some phase)
    (step : s.lockBlock kind chain buffSize = some later) : Serial later := by
  rcases lockBlock_cases step with rfl | ⟨session, flag, _, rfl⟩
  · obtain ⟨rfl, only⟩ := serial.only active
    have ended : s.chains.eraseIdx 0 = [] := by rw [only, List.eraseIdx_cons_zero]
    exact serial.of_chain active rfl (by simp [endChain, ended]) (.inr ended)
  · exact serial.of_chain active rfl (by simp [setChain]) (.inl flag)

/-! ## The order of the messages -/

/-- What a chain is writing. -/
def inFlight : ChainPhase → List (Nat × Bytes)
  | .writing piece => [piece]
  | _ => []

/-- What is on the wire or in flight. -/
def pieces (s : Concurrent ι σ) : List (Nat × Bytes) := s.wire ++ s.chains.flatMap inFlight

/-- The messages are on the wire one after the other, up to the one that was taken last. -/
structure InTurn (s : Concurrent ι σ) : Prop where
  /-- Only messages that were sent are waiting. -/
  waiting : s.session.queue.length ≤ s.sent.length
  /-- No message is there before it was taken. -/
  begun : ∀ piece ∈ s.pieces, piece.1 ≤ s.taken
  /-- No message is there before one that was queued earlier. -/
  turns : s.pieces.Pairwise fun first second => first.1 ≤ second.1

/-- A step that returns no bytes. -/
theorem InTurn.of_same (inTurn : InTurn s)
    (waiting : later.session.queue.length ≤ later.sent.length) (taken : s.taken ≤ later.taken)
    (same : later.pieces = s.pieces) : InTurn later := by
  refine ⟨waiting, fun piece member => ?_, ?_⟩
  · rw [same] at member
    exact Nat.le_trans (inTurn.begun piece member) taken
  · rw [same]
    exact inTurn.turns

/-- A step that returns bytes of the message that was taken last. -/
theorem InTurn.of_piece (inTurn : InTurn s) (bytes : Bytes)
    (waiting : later.session.queue.length ≤ later.sent.length) (taken : later.taken = s.taken)
    (more : later.pieces = s.pieces ++ [(s.taken, bytes)]) : InTurn later := by
  refine ⟨waiting, fun piece member => ?_, ?_⟩
  · rw [more] at member
    rcases List.mem_append.mp member with old | new
    · rw [taken]
      exact inTurn.begun piece old
    · rw [List.mem_singleton.mp new, taken]
  · rw [more, List.pairwise_append]
    refine ⟨inTurn.turns, List.pairwise_singleton _ _, fun piece member other last => ?_⟩
    rw [List.mem_singleton.mp last]
    exact inTurn.begun piece member

/-- What a step of the only chain does to the pieces. -/
theorem pieces_setChain {phase next : ChainPhase} (only : s.chains = [phase])
    (session : Session ι σ) (wire : List (Nat × Bytes)) :
    ({ s with session, wire }.setChain 0 next).pieces = wire ++ inFlight next := by
  rw [pieces, setChain, only, List.set_cons_zero, List.flatMap_singleton]

/-- What the end of the only chain does to the pieces. -/
theorem pieces_endChain {phase : ChainPhase} (only : s.chains = [phase])
    (session : Session ι σ) : ({ s with session }.endChain 0).pieces = s.wire := by
  rw [pieces, endChain, only, List.eraseIdx_cons_zero, List.flatMap_nil, List.append_nil]

/-- The block under the lock in `on_read` leaves the wire alone. -/
theorem InTurn.lockBlock (inTurn : InTurn s) {buffSize : Nat} (only : s.chains = [.top buffSize])
    (step : s.lockBlock kind 0 buffSize = some later) : InTurn later := by
  have silent : s.pieces = s.wire := by
    rw [pieces, only, List.flatMap_singleton]
    exact List.append_nil _
  rcases lockBlock_cases step with rfl | ⟨session, _, shorter, rfl⟩
  · exact inTurn.of_same inTurn.waiting (Nat.le_refl _)
      ((pieces_endChain only _).trans silent.symm)
  · have taken : s.taken ≤ ({ s with session }.setChain 0 (.stages buffSize)).taken :=
      Nat.sub_le_sub_left shorter _
    refine inTurn.of_same (Nat.le_trans shorter inTurn.waiting) taken ?_
    rw [pieces_setChain only session s.wire, silent]
    exact List.append_nil _

/-! ## The steps -/

variable [UnorderedMultimap σ]

/-- What a step is: where its thread or chain was, and what it leaves behind. -/
inductive Move (kind : SenderKind ι σ) (fs : FileSystem) (s : Concurrent ι σ) :
    ThreadLabel ι σ → Concurrent ι σ → Prop where
  | push {thread : Nat} {message : Message ι σ} (here : s.threads thread = .idle) :
      Move kind fs s (.push thread message)
        ({ s with session := { s.session with queue := s.session.queue ++ [message] },
                  sent := s.sent ++ [message] }.setThread thread .starting)
  | connect {thread : Nat} (here : s.threads thread = .idle) :
      Move kind fs s (.connect thread)
        ({ s with session := { s.session with connectFlag := true } }.setThread thread .starting)
  | readSendFlag {thread : Nat} (here : s.threads thread = .starting) :
      Move kind fs s (.readSendFlag thread)
        (s.setThread thread (if s.session.sendFlag then .idle else .sawIdle))
  | readConnectFlag {thread : Nat} (here : s.threads thread = .sawIdle) :
      Move kind fs s (.readConnectFlag thread)
        (s.setThread thread (if s.session.connectFlag then .sawConnected else .idle))
  | writeSendFlag {thread : Nat} (here : s.threads thread = .sawConnected) :
      Move kind fs s (.writeSendFlag thread)
        ({ s with session := { s.session with sendFlag := true } }.setThread thread .raised)
  | sendCb {thread : Nat} (here : s.threads thread = .raised) :
      Move kind fs s (.sendCb thread)
        ({ s with chains := s.chains ++ [ChainPhase.idle] }.setThread thread .idle)
  | call {chain buffSize : Nat} (here : s.chains[chain]? = some .idle) (room : 0 < buffSize) :
      Move kind fs s (.call chain buffSize) (s.setChain chain (.top buffSize))
  | takeNext {chain buffSize : Nat} {later : Concurrent ι σ}
      (here : s.chains[chain]? = some (.top buffSize))
      (step : s.lockBlock kind chain buffSize = some later) :
      Move kind fs s (.takeNext chain) later
  | stages {chain buffSize : Nat} {later : Concurrent ι σ}
      (here : s.chains[chain]? = some (.stages buffSize))
      (step : s.stageBlock kind fs chain buffSize = some later) :
      Move kind fs s (.stages chain) later
  | written {chain : Nat} {piece : Nat × Bytes}
      (here : s.chains[chain]? = some (.writing piece)) :
      Move kind fs s (.written chain)
        ({ s with wire := s.wire ++ [piece] }.setChain chain .idle)

/-- Every step is such a move. -/
theorem move_of_next {label : ThreadLabel ι σ} (step : s.next kind fs label = some later) :
    Move kind fs s label later := by
  cases label with
  | push thread message =>
    obtain ⟨here, same⟩ := Option.ite_none_right_eq_some.mp step
    cases same
    exact .push here
  | connect thread =>
    obtain ⟨here, same⟩ := Option.ite_none_right_eq_some.mp step
    cases same
    exact .connect here
  | readSendFlag thread =>
    obtain ⟨here, same⟩ := Option.ite_none_right_eq_some.mp step
    cases same
    exact .readSendFlag here
  | readConnectFlag thread =>
    obtain ⟨here, same⟩ := Option.ite_none_right_eq_some.mp step
    cases same
    exact .readConnectFlag here
  | writeSendFlag thread =>
    obtain ⟨here, same⟩ := Option.ite_none_right_eq_some.mp step
    cases same
    exact .writeSendFlag here
  | sendCb thread =>
    obtain ⟨here, same⟩ := Option.ite_none_right_eq_some.mp step
    cases same
    exact .sendCb here
  | call chain buffSize =>
    obtain ⟨here, same⟩ := Option.ite_none_right_eq_some.mp step
    cases same
    exact .call here.1 here.2
  | takeNext chain =>
    simp only [Concurrent.next] at step
    split at step
    · next buffSize here => exact .takeNext here step
    · cases step
  | stages chain =>
    simp only [Concurrent.next] at step
    split at step
    · next buffSize here => exact .stages here step
    · cases step
  | written chain =>
    simp only [Concurrent.next] at step
    split at step
    · next piece here =>
      cases step
      exact .written here
    · cases step

/-- What the stages of `on_read` do: the chain ends, or it writes bytes of the message that was
taken last, or it begins again. -/
theorem stageBlock_cases {chain buffSize : Nat}
    (step : s.stageBlock kind fs chain buffSize = some later) :
    ∃ session : Session ι σ, session.sendFlag = s.session.sendFlag ∧
      session.queue = s.session.queue ∧
      (later = { s with session }.endChain chain ∨
        (∃ bytes, later = { s with session }.setChain chain (.writing (s.taken, bytes))) ∨
        later = { s with session }.setChain chain (.top buffSize)) := by
  unfold Concurrent.stageBlock at step
  split at step
  · cases step
  · split at step
    · cases step
    · next bytes status _ =>
      cases step
      refine ⟨{ s.session with sendStatus := status }, rfl, rfl, ?_⟩
      split
      · exact .inl rfl
      · exact .inr (.inl ⟨bytes, rfl⟩)
    · cases step
      refine ⟨Session.messageEnd s.session, rfl, rfl, ?_⟩
      split
      · exact .inl rfl
      · exact .inr (.inr rfl)

/-- The stages of `on_read` keep a session serial. -/
theorem Serial.stageBlock (serial : Serial s) {chain buffSize : Nat} {phase : ChainPhase}
    (active : s.chains[chain]? = some phase)
    (step : s.stageBlock kind fs chain buffSize = some later) : Serial later := by
  have fewer : (s.chains.eraseIdx chain).length ≤ s.chains.length := List.length_eraseIdx_le _ _
  obtain ⟨session, flag, _, rfl | ⟨bytes, rfl⟩ | rfl⟩ := stageBlock_cases step
  · exact serial.of_chain active rfl fewer (.inl flag)
  · exact serial.of_chain active rfl (by simp [setChain]) (.inl flag)
  · exact serial.of_chain active rfl (by simp [setChain]) (.inl flag)

/-- The stages add a piece of the message that was taken last, or nothing. -/
theorem InTurn.stageBlock (inTurn : InTurn s) {buffSize : Nat}
    (only : s.chains = [.stages buffSize])
    (step : s.stageBlock kind fs 0 buffSize = some later) : InTurn later := by
  have silent : s.pieces = s.wire := by
    rw [pieces, only, List.flatMap_singleton]
    exact List.append_nil _
  obtain ⟨session, _, queue, rfl | ⟨bytes, rfl⟩ | rfl⟩ := stageBlock_cases step
  all_goals
    have waiting : session.queue.length ≤ s.sent.length := queue ▸ inTurn.waiting
    have taken : s.taken = s.sent.length - session.queue.length := by rw [queue, Concurrent.taken]
  · exact inTurn.of_same waiting (Nat.le_of_eq taken) ((pieces_endChain only _).trans silent.symm)
  · refine inTurn.of_piece bytes waiting taken.symm ?_
    rw [pieces_setChain only session s.wire, silent]
    rfl
  · refine inTurn.of_same waiting (Nat.le_of_eq taken) ?_
    rw [pieces_setChain only session s.wire, silent]
    exact List.append_nil _

/-- Every step keeps a session serial, as long as threads set the flag only while it is not
set. -/
theorem Serial.next (serial : Serial s) {label : ThreadLabel ι σ} (once : SetsOnce s label)
    (step : s.next kind fs label = some later) : Serial later := by
  cases move_of_next step with
  | push | connect =>
    exact serial.of_threads rfl rfl fun _ => raised_of_setThread (by decide)
  | readSendFlag | readConnectFlag =>
    exact serial.of_threads rfl rfl fun _ => raised_of_setThread (by split <;> decide)
  | @writeSendFlag thread here =>
    obtain ⟨none, still⟩ := serial.down once
    have only : ∀ other, ({ s with session := { s.session with sendFlag := true } }.setThread
        thread .raised).threads other = .raised → other = thread := by
      intro other raised
      by_contra elsewhere
      simp only [setThread, if_neg elsewhere] at raised
      exact still other raised
    refine ⟨nofun, fun first raised => ⟨none, fun other up => ?_⟩, ?_⟩
    · rw [only first raised, only other up]
    · show s.chains.length ≤ 1
      rw [none]
      exact Nat.zero_le 1
  | @sendCb thread raised =>
    obtain ⟨none, unique⟩ := serial.alone thread raised
    have still : ∀ other, ({ s with chains := s.chains ++ [ChainPhase.idle] }.setThread thread
        .idle).threads other ≠ .raised := by
      intro other up
      by_cases same : other = thread
      · simp [setThread, same] at up
      · simp only [setThread, if_neg same] at up
        exact same (unique other up)
    refine ⟨fun down => ?_, fun other up => absurd up (still other), ?_⟩
    · exact absurd raised ((serial.down down).2 thread)
    · show (s.chains ++ [ChainPhase.idle]).length ≤ 1
      rw [none]
      exact Nat.le_refl 1
  | call here _ => exact serial.of_chain here rfl (by simp [setChain]) (.inl rfl)
  | takeNext here step => exact serial.lockBlock here step
  | stages here step => exact serial.stageBlock here step
  | written here => exact serial.of_chain here rfl (by simp [setChain]) (.inl rfl)

/-- Every step of a serial session keeps the messages in turn. -/
theorem InTurn.next (inTurn : InTurn s) (serial : Serial s) {label : ThreadLabel ι σ}
    (step : s.next kind fs label = some later) : InTurn later := by
  have waiting := inTurn.waiting
  cases move_of_next step with
  | push =>
    refine inTurn.of_same ?_ ?_ rfl
    · simpa [setThread] using waiting
    · simp [setThread, taken]
  | connect | readSendFlag | readConnectFlag | writeSendFlag =>
    exact inTurn.of_same waiting (Nat.le_refl _) rfl
  | sendCb =>
    refine inTurn.of_same waiting (Nat.le_refl _) ?_
    simp [pieces, setThread, inFlight]
  | call here _ =>
    obtain ⟨rfl, only⟩ := serial.only here
    refine inTurn.of_same waiting (Nat.le_refl _) ?_
    rw [pieces_setChain only s.session s.wire, pieces, only, List.flatMap_singleton]
    rfl
  | takeNext here step =>
    obtain ⟨rfl, only⟩ := serial.only here
    exact inTurn.lockBlock only step
  | stages here step =>
    obtain ⟨rfl, only⟩ := serial.only here
    exact inTurn.stageBlock only step
  | @written chain piece here =>
    obtain ⟨rfl, only⟩ := serial.only here
    refine inTurn.of_same waiting (Nat.le_refl _) ?_
    rw [pieces_setChain only s.session (s.wire ++ [piece]), pieces, only, List.flatMap_singleton]
    exact List.append_nil _

end Hnw.Http.Concurrent
