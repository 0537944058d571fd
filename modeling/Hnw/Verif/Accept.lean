import Hnw.Base.Accept
import Hnw.Verif.Channel

/-!
# No accept loop is lost

Every move of a server keeps its accept loops, but an accept that fails, which ends one. Each client
goes through its handler in one order, and a closed server announces no client but those whose
accept had completed.
-/

namespace Hnw.Base

open Hnw.Theory

namespace Accepting

/-- What can happen, by what it does to the clients. -/
inductive Moves (s : Accepting) : Accepting → Prop where
  /-- The server or its calls of `accept` change. -/
  | server (server : AcceptServer) (callers : List Nat)
      (opens : server.isOpen = true → s.server.isOpen = true)
      (keeps : s.server.options.sendBuffSize ≠ 0 → server.options.sendBuffSize ≠ 0)
      (same : server.eventCb = s.server.eventCb ∧ server.ssl = s.server.ssl) :
      Moves s { s with server, callers }
  /-- A loop begins. -/
  | begins (callers : List Nat) :
      Moves s { s.asyncOneAccept with callers, begun := s.begun + 1 }
  /-- An accept completes. -/
  | completes (index : Nat) (client : AcceptClient) (result : AcceptResult)
      (found : s.clients[index]? = some client) (waits : client.phase = .waiting)
      (opens : result = .failed ∨ s.server.isOpen = true) :
      Moves s (s.setClient index { client with phase := .completed result })
  /-- The handler of an accept begins. -/
  | handles (index : Nat) (client : AcceptClient) (result : AcceptResult)
      (found : s.clients[index]? = some client) (completed : client.phase = .completed result) :
      Moves s (s.handle index client result)
  /-- The handler of an accept goes on. -/
  | goes (index : Nat) (client : AcceptClient) (todo : List AcceptAction)
      (found : s.clients[index]? = some client) (running : client.phase = .running todo) :
      Moves s (s.goOn index client todo)

/-- No call of `config` sets an option to zero that may not be. -/
theorem config_nonzero {option : ChannelOption} (may : option.nonzero = true) {channel : Channel}
    (some_ : option.field channel ≠ 0) (type : Int) (data : Option Nat) :
    option.field (channel.config type data).channel ≠ 0 := by
  have written := field_apply option channel ⟨type, data⟩
  rw [ConfigCall.apply] at written
  rw [written, givenBy]
  split
  · cases data with
    | none => exact some_
    | some value =>
      simp only [ChannelOption.accepts, may, true_and]
      split
      · exact some_
      · next value => exact value
  · exact some_

variable {s : Accepting}

/-- Whatever can happen is a move. -/
theorem moves_of_enabled {label : AcceptLabel} (enabled : s.Enabled label) :
    s.Moves (s.after label) := by
  cases label with
  | called => exact .server s.server (0 :: s.callers) id id ⟨rfl, rfl⟩
  | looped caller =>
    have inside : caller < s.callers.length := enabled
    simp only [after, List.getElem?_eq_getElem inside, loopOnce]
    split
    · exact .begins _
    · exact .server s.server _ id id ⟨rfl, rfl⟩
  | completed index result =>
    obtain ⟨⟨client, found, waits⟩, opens⟩ := enabled
    simp only [after, found]
    exact .completes index client result found waits (opens.imp_right And.left)
  | handled index =>
    obtain ⟨⟨options, phase, done⟩, result, found, completed⟩ := enabled
    obtain rfl : phase = .completed result := completed
    simp only [after, found]
    exact .handles index _ result found rfl
  | wentOn index =>
    obtain ⟨⟨options, phase, done⟩, todo, found, running⟩ := enabled
    obtain rfl : phase = .running todo := running
    simp only [after, found]
    exact .goes index _ todo found rfl
  | closed => exact .server { s.server with isOpen := false } s.callers nofun id ⟨rfl, rfl⟩
  | setAcceptNum num =>
    simp only [after]
    split
    · exact .server s.server s.callers id id ⟨rfl, rfl⟩
    · exact .server { s.server with acceptNum := num } s.callers id id ⟨rfl, rfl⟩
  | configured type data =>
    exact .server { s.server with options := (s.server.options.config type data).channel }
      s.callers id (fun some_ => @config_nonzero .sendBuffSize rfl _ some_ type data) ⟨rfl, rfl⟩

/-! ## The loops -/

/-- A client whose accept is under way. -/
def underWay (client : AcceptClient) : Bool := client.phase != .ended

/-- The loops that are under way. -/
def alive (s : Accepting) : Nat := s.clients.countP underWay

/-- One client is put in the place of another. -/
theorem countP_setClient {index : Nat} {client : AcceptClient}
    (found : s.clients[index]? = some client) (p : AcceptClient → Bool) (changed : AcceptClient) :
    (s.setClient index changed).clients.countP p + (if p client then 1 else 0) =
      s.clients.countP p + (if p changed then 1 else 0) := by
  obtain ⟨inside, rfl⟩ := List.getElem?_eq_some_iff.mp found
  have some_ : (if p s.clients[index] then 1 else 0) ≤ s.clients.countP p := by
    split
    · next holds => exact List.countP_pos_iff.mpr ⟨_, List.getElem_mem inside, holds⟩
    · exact Nat.zero_le _
  simp only [setClient, List.countP_set inside]
  omega

/-- A new client is under way. -/
theorem alive_asyncOneAccept (s : Accepting) : s.asyncOneAccept.alive = s.alive + 1 := by
  simp only [alive, asyncOneAccept, List.countP_append]
  rfl

/-- A client whose accept goes on. -/
theorem alive_goes {index : Nat} {client changed : AcceptClient}
    (found : s.clients[index]? = some client) (was : client.phase ≠ .ended)
    (still : changed.phase ≠ .ended) : (s.setClient index changed).alive = s.alive := by
  have counted := countP_setClient found underWay changed
  have before : underWay client = true := by simpa [underWay] using was
  have after : underWay changed = true := by simpa [underWay] using still
  rw [before, after] at counted
  exact Nat.add_right_cancel counted

/-- A client whose accept ends. -/
theorem alive_ends {index : Nat} {client changed : AcceptClient}
    (found : s.clients[index]? = some client) (was : client.phase ≠ .ended)
    (ends : changed.phase = .ended) : (s.setClient index changed).alive + 1 = s.alive := by
  have counted := countP_setClient found underWay changed
  have before : underWay client = true := by simpa [underWay] using was
  have after : underWay changed = false := by simp [underWay, ends]
  rw [before, after] at counted
  exact counted

/-- What is begun is under way, but for what failed. -/
def Balanced (s : Accepting) : Prop := s.alive + s.errors.count .acceptFail = s.begun

/-- A move keeps the balance. -/
theorem Balanced.moves (balanced : s.Balanced) {next : Accepting} (moves : s.Moves next) :
    next.Balanced := by
  have before : s.alive + s.errors.count .acceptFail = s.begun := balanced
  cases moves with
  | server => exact balanced
  | begins callers =>
    have one : s.asyncOneAccept.alive = s.alive + 1 := alive_asyncOneAccept s
    show s.asyncOneAccept.alive + s.errors.count .acceptFail = s.begun + 1
    omega
  | completes index client result found waits =>
    have kept := @alive_goes s index client { client with phase := .completed result } found
      (by simp [waits]) (by simp)
    show (s.setClient index _).alive + s.errors.count .acceptFail = s.begun
    omega
  | handles index client result found completed =>
    have was : client.phase ≠ .ended := by simp [completed]
    cases result with
    | failed =>
      have fewer := @alive_ends s index client { client with phase := .ended } found was rfl
      have counted : (s.errors ++ [AcceptError.acceptFail]).count .acceptFail =
          s.errors.count .acceptFail + 1 := List.count_append
      show (s.setClient index _).alive + (s.errors ++ [AcceptError.acceptFail]).count .acceptFail =
        s.begun
      omega
    | notOpen =>
      have kept := @alive_goes s index client { client with phase := .running [] } found was
        (by simp)
      have counted : (s.errors ++ [AcceptError.acceptCliIsNotOpen]).count .acceptFail =
          s.errors.count .acceptFail := List.count_append
      show (s.setClient index _).alive +
        (s.errors ++ [AcceptError.acceptCliIsNotOpen]).count .acceptFail = s.begun
      omega
    | opened ready =>
      have kept := @alive_goes s index client { client with phase := .running (acceptTodo ready) }
        found was (by simp)
      show (s.setClient index _).alive + s.errors.count .acceptFail = s.begun
      omega
  | goes index client todo found running =>
    have was : client.phase ≠ .ended := by simp [running]
    cases todo with
    | nil =>
      have fewer := @alive_ends s index client { client with phase := .ended } found was rfl
      have one := alive_asyncOneAccept (s.setClient index { client with phase := .ended })
      show (s.setClient index _).asyncOneAccept.alive + s.errors.count .acceptFail = s.begun
      omega
    | cons action todo =>
      have kept := @alive_goes s index client
        { client with phase := .running todo, done := client.done ++ [action] } found was (by simp)
      simp only [goOn]
      split
      · show (s.setClient index _).alive + s.errors.count .acceptFail = s.begun
        omega
      · show (s.setClient index _).alive + s.errors.count .acceptFail = s.begun
        omega

/-! ## The clients -/

/-- What is still to be done for a client. -/
def toDo : AcceptPhase → List AcceptAction
  | .running todo => todo
  | _ => []

/-- A client: what was done for it and what is still to be done are what its handler does, and
nothing was done before its accept completed. -/
structure Handled (client : AcceptClient) : Prop where
  /-- Its handler does one thing after another. -/
  order : client.done = [] ∧ toDo client.phase = [] ∨
    ∃ ready, client.done ++ toDo client.phase = acceptTodo ready
  /-- Before that there is nothing. -/
  waits : client.phase = .waiting ∨ (∃ result, client.phase = .completed result) →
    client.done = []

/-- Every client of a server is handled in order. -/
def Orderly (s : Accepting) : Prop := ∀ client ∈ s.clients, Handled client

/-- A new client is handled in order. -/
theorem Orderly.asyncOneAccept (orderly : s.Orderly) : s.asyncOneAccept.Orderly := by
  intro client member
  rcases List.mem_append.mp member with old | new
  · exact orderly client old
  · rw [List.mem_singleton.mp new]
    exact ⟨.inl ⟨rfl, rfl⟩, fun _ => rfl⟩

/-- A client that changes is handled in order. -/
theorem Orderly.setClient (orderly : s.Orderly) {index : Nat} {changed : AcceptClient}
    (handled : Handled changed) : (s.setClient index changed).Orderly := by
  intro client member
  rcases List.mem_or_eq_of_mem_set member with old | rfl
  · exact orderly client old
  · exact handled

/-- A move keeps the order. -/
theorem Orderly.moves (orderly : s.Orderly) {next : Accepting} (moves : s.Moves next) :
    next.Orderly := by
  have known : ∀ {index client}, s.clients[index]? = some client → Handled client :=
    fun found => orderly _ (List.mem_of_getElem? found)
  cases moves with
  | server => exact orderly
  | begins callers => exact orderly.asyncOneAccept
  | completes index client result found waits =>
    have nothing := (known found).waits (.inl waits)
    exact orderly.setClient ⟨.inl ⟨nothing, rfl⟩, fun _ => nothing⟩
  | handles index client result found completed =>
    have nothing := (known found).waits (.inr ⟨result, completed⟩)
    cases result with
    | failed =>
      have ends : Handled { client with phase := .ended } :=
        ⟨.inl ⟨nothing, rfl⟩, fun _ => nothing⟩
      exact orderly.setClient ends
    | notOpen =>
      have goes : Handled { client with phase := .running [] } :=
        ⟨.inl ⟨nothing, rfl⟩, fun _ => nothing⟩
      exact orderly.setClient goes
    | opened ready =>
      refine orderly.setClient ⟨.inr ⟨ready, ?_⟩, fun _ => nothing⟩
      show client.done ++ acceptTodo ready = acceptTodo ready
      rw [nothing, List.nil_append]
  | goes index client todo found running =>
    obtain ⟨order, _⟩ := known found
    rw [running] at order
    cases todo with
    | nil =>
      have ends : Handled { client with phase := .ended } := by
        refine ⟨order, fun before => ?_⟩
        rcases before with waits | ⟨_, completed⟩
        · cases waits
        · cases completed
      exact (orderly.setClient ends).asyncOneAccept
    | cons action todo =>
      have goes : Handled
          { client with phase := .running todo, done := client.done ++ [action] } := by
        refine ⟨?_, fun before => ?_⟩
        · rcases order with ⟨_, nothing⟩ | ⟨ready, whole⟩
          · cases nothing
          · refine .inr ⟨ready, ?_⟩
            simpa [toDo] using whole
        · rcases before with waits | ⟨_, completed⟩
          · cases waits
          · cases completed
      have changed := @Orderly.setClient s orderly index _ goes
      simp only [goOn]
      split
      · exact changed
      · exact changed

/-- A move takes no size from the server's send buffer. -/
theorem Moves.sendBuffSize {next : Accepting} (moves : s.Moves next)
    (size : s.server.options.sendBuffSize ≠ 0) : next.server.options.sendBuffSize ≠ 0 := by
  cases moves with
  | server server callers _ keeps => exact keeps size
  | begins callers => exact size
  | completes index client result found waits => exact size
  | handles index client result found completed => cases result <;> exact size
  | goes index client todo found running =>
    cases todo with
    | nil => exact size
    | cons action todo =>
      simp only [goOn]
      split <;> exact size

/-- The clients of a server that changed one of them, without its options. -/
theorem setClient_options {index : Nat} {client changed : AcceptClient}
    (found : s.clients[index]? = some client) {other : Nat} {there : AcceptClient}
    (here : (s.setClient index changed).clients[other]? = some there)
    (same : client.options = changed.options) :
    ∃ old, s.clients[other]? = some old ∧ old.options = there.options := by
  simp only [setClient] at here
  by_cases at_ : index = other
  · subst at_
    rw [List.getElem?_set_self (List.getElem?_eq_some_iff.mp found).1] at here
    cases here
    exact ⟨client, found, same⟩
  · rw [List.getElem?_set_ne at_] at here
    exact ⟨there, here, rfl⟩

/-- A client is one of those there were, or the new one. -/
theorem asyncOneAccept_client {index : Nat} {client : AcceptClient}
    (here : s.asyncOneAccept.clients[index]? = some client) :
    s.clients[index]? = some client ∨
      index = s.clients.length ∧
        client.options = (Channel.initAccept {} (some s.server.options)).1 := by
  simp only [asyncOneAccept, List.getElem?_append] at here
  split at here
  · exact .inl here
  · next behind =>
    obtain ⟨inside, rfl⟩ := List.getElem?_eq_some_iff.mp here
    rw [List.length_singleton] at inside
    refine .inr ⟨by omega, ?_⟩
    simp

/-- A move keeps the options of the clients; one that makes a client gives it those of
`init_accept`. -/
theorem Moves.clients {next : Accepting} (moves : s.Moves next) {index : Nat}
    {client : AcceptClient} (here : next.clients[index]? = some client) :
    (∃ old, s.clients[index]? = some old ∧ old.options = client.options) ∨
      index = s.clients.length ∧ next.clients.length = index + 1 ∧
        client.options = (Channel.initAccept {} (some s.server.options)).1 := by
  cases moves with
  | server => exact .inl ⟨client, here, rfl⟩
  | begins callers =>
    rcases asyncOneAccept_client here with old | ⟨last, options⟩
    · exact .inl ⟨client, old, rfl⟩
    · refine .inr ⟨last, ?_, options⟩
      rw [last]
      exact List.length_append
  | completes at_ other result found waits => exact .inl (setClient_options found here rfl)
  | handles at_ other result found completed =>
    cases result with
    | failed => exact .inl (setClient_options found here rfl)
    | notOpen => exact .inl (setClient_options found here rfl)
    | opened ready => exact .inl (setClient_options found here rfl)
  | goes at_ other todo found running =>
    cases todo with
    | nil =>
      rcases asyncOneAccept_client here with old | ⟨last, options⟩
      · exact .inl (setClient_options found old rfl)
      · have same : (s.setClient at_ { other with phase := .ended }).clients.length =
            s.clients.length := List.length_set
        rw [same] at last
        refine .inr ⟨last, ?_, options⟩
        rw [last, ← same]
        exact List.length_append
    | cons action todo =>
      have set_ : (s.setClient at_
          { other with phase := .running todo, done := other.done ++ [action] }).clients[index]? =
            some client := by
        simp only [goOn] at here
        split at here <;> exact here
      exact .inl (setClient_options found set_ rfl)

/-- How often a client was announced, by what was done for it. -/
def Announced (s : Accepting) : Prop :=
  ∀ index, s.accepted.count index =
    (s.clients[index]?).elim 0 fun client => client.done.count .accept

/-- A new client was not announced. -/
theorem Announced.asyncOneAccept (announced : s.Announced) : s.asyncOneAccept.Announced := by
  intro index
  have before := announced index
  simp only [Accepting.asyncOneAccept]
  rw [before]
  by_cases inside : index < s.clients.length
  · rw [List.getElem?_append_left inside]
  · have missing : s.clients[index]? = none := List.getElem?_eq_none (by omega)
    rw [List.getElem?_append_right (by omega), missing]
    cases index - s.clients.length with
    | zero => rfl
    | succ => rfl

/-- A client for which nothing is done. -/
theorem Announced.setClient (announced : s.Announced) {index : Nat} {client changed : AcceptClient}
    (found : s.clients[index]? = some client) (same : changed.done = client.done) :
    (s.setClient index changed).Announced := by
  intro other
  have before := announced other
  have inside := (List.getElem?_eq_some_iff.mp found).1
  simp only [Accepting.setClient]
  rw [before]
  by_cases here : index = other
  · subst here
    rw [List.getElem?_set_self inside, found]
    simp only [Option.elim_some, same]
  · rw [List.getElem?_set_ne here]

/-- A client for which something is done. -/
theorem Announced.act (announced : s.Announced) {index : Nat} {client : AcceptClient}
    (found : s.clients[index]? = some client) (phase : AcceptPhase) (action : AcceptAction)
    {next : Accepting}
    (clients : next.clients =
      s.clients.set index { client with phase, done := client.done ++ [action] })
    (accepted : next.accepted = if action = .accept then s.accepted ++ [index] else s.accepted) :
    next.Announced := by
  intro other
  have before := announced other
  have inside := (List.getElem?_eq_some_iff.mp found).1
  rw [clients, accepted]
  by_cases here : index = other
  · subst here
    rw [found] at before
    simp only [Option.elim_some] at before
    rw [List.getElem?_set_self inside]
    simp only [Option.elim_some, List.count_append]
    by_cases announces : action = .accept
    · rw [if_pos announces, announces, List.count_append, before]
      simp
    · rw [if_neg announces, before, List.count_singleton]
      simp [announces]
  · have apart : ∀ list : List Nat, (list ++ [index]).count other = list.count other := by
      intro list
      rw [List.count_append, List.count_singleton]
      simp [here]
    rw [List.getElem?_set_ne here]
    split
    · rw [apart, before]
    · exact before

/-- A move announces what it says. -/
theorem Announced.moves (announced : s.Announced) {next : Accepting} (moves : s.Moves next) :
    next.Announced := by
  cases moves with
  | server => exact announced
  | begins callers => exact announced.asyncOneAccept
  | completes index client result found waits => exact announced.setClient found rfl
  | handles index client result found completed =>
    cases result with
    | failed => exact announced.setClient found rfl
    | notOpen => exact announced.setClient found rfl
    | opened ready => exact announced.setClient found rfl
  | goes index client todo found running =>
    cases todo with
    | nil =>
      have ends := @Announced.setClient s announced index client
        { client with phase := .ended } found rfl
      exact ends.asyncOneAccept
    | cons action todo =>
      refine announced.act found (.running todo) action ?_ ?_
      · simp only [goOn]
        split <;> rfl
      · simp only [goOn]
        split
        · rfl
        · rfl

/-! ## A closed server -/

/-- A client that is going to be announced: its accept completed with it, or its handler has not
come so far. -/
def due (client : AcceptClient) : Bool :=
  client.phase = .completed (.opened true) || client.phase = .completed (.opened false) ||
    (toDo client.phase).contains .accept

/-- The clients that are going to be announced whatever happens to the server. -/
def pending (s : Accepting) : Nat := s.clients.countP due

/-- A client that is not due any more than it was. -/
theorem pending_le {index : Nat} {client changed : AcceptClient}
    (found : s.clients[index]? = some client) (less : due changed = true → due client = true) :
    (s.setClient index changed).pending ≤ s.pending := by
  have counted := countP_setClient found due changed
  simp only [pending]
  split at counted
  · split at counted <;> omega
  · next never =>
    rw [if_neg fun late => never (less late)] at counted
    omega

/-- A client that is not due any more. -/
theorem pending_lt {index : Nat} {client changed : AcceptClient}
    (found : s.clients[index]? = some client) (was : due client = true)
    (never : due changed = false) : (s.setClient index changed).pending + 1 = s.pending := by
  have counted := countP_setClient found due changed
  rw [was, never] at counted
  exact counted

/-- A new client is not due. -/
theorem pending_asyncOneAccept (s : Accepting) : s.asyncOneAccept.pending = s.pending := by
  simp only [pending, asyncOneAccept, List.countP_append]
  rfl

/-- A client is announced once. -/
theorem accept_not_mem {client : AcceptClient} {todo : List AcceptAction}
    (handled : Handled client) (running : client.phase = .running (.accept :: todo)) :
    AcceptAction.accept ∉ todo := by
  have order := handled.order
  rw [running] at order
  rcases order with ⟨_, nothing⟩ | ⟨ready, whole⟩
  · cases nothing
  · have once : (acceptTodo ready).count .accept = 1 := by cases ready <;> rfl
    rw [← whole, List.count_append] at once
    simp only [toDo, List.count_cons_self] at once
    exact List.count_eq_zero.mp (by omega)

/-- A closed server stays closed, and a move announces no client but those that are due. -/
theorem closed_moves (closed : s.server.isOpen = false) (orderly : s.Orderly)
    {next : Accepting} (moves : s.Moves next) :
    next.server.isOpen = false ∧
      next.accepted.length + next.pending ≤ s.accepted.length + s.pending := by
  cases moves with
  | server server callers opens =>
    refine ⟨?_, Nat.le_refl _⟩
    by_contra still
    exact absurd (opens (by simpa using still)) (by simp [closed])
  | begins callers =>
    have same := pending_asyncOneAccept s
    exact ⟨closed, Nat.add_le_add_left (Nat.le_of_eq same) _⟩
  | completes index client result found waits opens =>
    obtain rfl : result = .failed := opens.resolve_right (by simp [closed])
    have less := @pending_le s index client { client with phase := .completed .failed } found
      (by simp [due, toDo])
    exact ⟨closed, Nat.add_le_add_left less _⟩
  | handles index client result found completed =>
    have shuts : (s.server.isOpen && !s.server.eventCb) = false := by rw [closed, Bool.false_and]
    cases result with
    | failed =>
      have less := @pending_le s index client { client with phase := .ended } found
        (by simp [due, toDo])
      exact ⟨shuts, Nat.add_le_add_left less _⟩
    | notOpen =>
      have less := @pending_le s index client { client with phase := .running [] } found
        (by simp [due, toDo])
      exact ⟨shuts, Nat.add_le_add_left less _⟩
    | opened ready =>
      have was : due client = true := by cases ready <;> simp [due, completed]
      have less := @pending_le s index client { client with phase := .running (acceptTodo ready) }
        found fun _ => was
      exact ⟨closed, Nat.add_le_add_left less _⟩
  | goes index client todo found running =>
    cases todo with
    | nil =>
      have less := @pending_le s index client { client with phase := .ended } found
        (by simp [due, toDo])
      have same := pending_asyncOneAccept (s.setClient index { client with phase := .ended })
      exact ⟨closed, Nat.add_le_add_left (same ▸ less) _⟩
    | cons action todo =>
      have handled := orderly client (List.mem_of_getElem? found)
      by_cases announces : action = .accept
      · subst announces
        have never : due { client with phase := .running todo, done := client.done ++ [.accept] } =
            false := by
          simpa [due, toDo] using accept_not_mem handled running
        have fewer := pending_lt found (by simp [due, toDo, running]) never
        simp only [goOn, if_true, List.length_append, List.length_singleton]
        refine ⟨closed, ?_⟩
        show s.accepted.length + 1 + (s.setClient index _).pending ≤ _
        omega
      · have less := @pending_le s index client
          { client with phase := .running todo, done := client.done ++ [action] } found (by
            simp only [due, toDo, running]
            simp +contextual)
        simp only [goOn, if_neg announces]
        exact ⟨closed, Nat.add_le_add_left less _⟩

/-- What an error leaves behind: a server with a callback is closed. -/
structure Shuts (server : AcceptServer) (s : Accepting) : Prop where
  /-- Nothing installs a callback or takes it away. -/
  eventCb : s.server.eventCb = server.eventCb
  /-- An error closes the server. -/
  shut : s.errors ≠ [] → server.eventCb = true → s.server.isOpen = false

/-- A move keeps a server shut. -/
theorem Shuts.moves {server : AcceptServer} (shuts : Shuts server s) {next : Accepting}
    (moves : s.Moves next) : Shuts server next := by
  have raised : server.eventCb = true → (s.server.isOpen && !s.server.eventCb) = false := by
    intro installed
    rw [shuts.eventCb, installed, Bool.not_true, Bool.and_false]
  cases moves with
  | server changed callers opens _ same =>
    refine ⟨same.1.trans shuts.eventCb, fun some_ installed => ?_⟩
    by_contra still
    have opened := opens (by simpa using still)
    rw [shuts.shut some_ installed] at opened
    cases opened
  | begins callers => exact ⟨shuts.eventCb, shuts.shut⟩
  | completes index client result => exact ⟨shuts.eventCb, shuts.shut⟩
  | handles index client result =>
    cases result with
    | failed => exact ⟨shuts.eventCb, fun _ => raised⟩
    | notOpen => exact ⟨shuts.eventCb, fun _ => raised⟩
    | opened ready => exact ⟨shuts.eventCb, shuts.shut⟩
  | goes index client todo =>
    cases todo with
    | nil => exact ⟨shuts.eventCb, shuts.shut⟩
    | cons action todo =>
      simp only [goOn]
      split
      · exact ⟨shuts.eventCb, shuts.shut⟩
      · exact ⟨shuts.eventCb, shuts.shut⟩

end Accepting

/-! ## Every run -/

open Accepting

/-- An SSL server with two loops. -/
def sslServer : AcceptServer where
  acceptNum := 2
  eventCb := true
  ssl := true

/-- A client that is not open closes the server, and then a client is announced whose handshake
fails. -/
theorem sslServer_shuts :
    ∃ s next labels, (accepting sslServer).Reachable s ∧ s.errors = [.acceptCliIsNotOpen] ∧
      s.accepted = [] ∧ s.pending = 1 ∧ (accepting sslServer).Run s labels next ∧
      next.errors = [.acceptCliIsNotOpen, .acceptFail] ∧ next.alive = 1 ∧ next.begun = 2 ∧
      next.accepted = [0] ∧
      next.clients.head?.map AcceptClient.done =
        some [.handshakeFails, .acceptCb, .accept] := by
  have begins : (accepting sslServer).Reachable { server := sslServer } := .start rfl
  have called := begins.step .called ⟨trivial, rfl⟩
  have loops := (called.step (.looped 0) ⟨Nat.one_pos, rfl⟩).step (.looped 0) ⟨Nat.one_pos, rfl⟩
  have connected := loops.step (.completed 0 (.opened false))
    ⟨⟨⟨_, rfl, rfl⟩, .inr ⟨rfl, fun _ => rfl⟩⟩, rfl⟩
  have broken := connected.step (.completed 1 .notOpen) ⟨⟨⟨_, rfl, rfl⟩, .inr ⟨rfl, nofun⟩⟩, rfl⟩
  have handled := (broken.step (.handled 0) ⟨⟨_, _, rfl, rfl⟩, rfl⟩).step (.handled 1)
    ⟨⟨_, _, rfl, rfl⟩, rfl⟩
  exact ⟨_, _, [.wentOn 0, .wentOn 0, .wentOn 0, .wentOn 1, .completed 2 .failed, .handled 2],
    handled, rfl, rfl, rfl,
    .cons trivial ⟨⟨_, _, rfl, rfl⟩, rfl⟩ <| .cons trivial ⟨⟨_, _, rfl, rfl⟩, rfl⟩ <|
      .cons trivial ⟨⟨_, _, rfl, rfl⟩, rfl⟩ <| .cons trivial ⟨⟨_, _, rfl, rfl⟩, rfl⟩ <|
        .cons trivial ⟨⟨⟨_, rfl, rfl⟩, .inl rfl⟩, rfl⟩ <|
          .cons trivial ⟨⟨_, _, rfl, rfl⟩, rfl⟩ (.nil _),
    rfl, rfl, rfl, rfl, rfl⟩

variable {server : AcceptServer} {s : Accepting}

/-- In every reachable state the loops that are under way and the accepts that failed are the loops
that began: only a failed accept ends a loop, and a client that is not open or whose handshake
fails does not. -/
theorem accepting_alive (reached : (accepting server).Reachable s) :
    s.alive + s.errors.count .acceptFail = s.begun := by
  have balanced : s.Balanced := by
    apply reached.invariant
    · rintro _ rfl
      rfl
    · rintro first label _ balanced ⟨enabled, rfl⟩
      exact balanced.moves (moves_of_enabled enabled)
  exact balanced

/-- Of two loops of that server one is left. -/
theorem accepting_alive_ssl :
    ∃ s, (accepting sslServer).Reachable s ∧ s.alive = 1 ∧
      s.alive + s.errors.count .acceptFail = s.begun := by
  obtain ⟨s, next, labels, ⟨first, before, begins, run⟩, _, _, _, later, _, alive, _⟩ :=
    sslServer_shuts
  have reached : (accepting sslServer).Reachable next := ⟨first, _, begins, run.append later⟩
  exact ⟨next, reached, alive, accepting_alive reached⟩

/-- Each client of a server is handled in order. -/
theorem orderly_reachable (reached : (accepting server).Reachable s) : s.Orderly := by
  apply reached.invariant
  · rintro _ rfl
    exact nofun
  · rintro first label _ orderly ⟨enabled, rfl⟩
    exact orderly.moves (moves_of_enabled enabled)

/-- A send buffer that has a size keeps one. -/
theorem sendBuffSize_nonzero (some_ : server.options.sendBuffSize ≠ 0)
    (reached : (accepting server).Reachable s) : s.server.options.sendBuffSize ≠ 0 := by
  apply reached.invariant (P := fun s => s.server.options.sendBuffSize ≠ 0)
  · rintro _ rfl
    exact some_
  · rintro first label _ size ⟨enabled, rfl⟩
    exact (moves_of_enabled enabled).sendBuffSize size

/-- A client was made by a step of a run that leads to this state, with the options that
`init_accept` gave it then. -/
def MadeIn (server : AcceptServer) (s : Accepting) (index : Nat) (client : AcceptClient) : Prop :=
  ∃ before label made more, (accepting server).Reachable before ∧
    (accepting server).step before label made ∧ (accepting server).Run made more s ∧
    before.clients.length = index ∧ made.clients.length = index + 1 ∧
    client.options = (Channel.initAccept {} (some before.server.options)).1

/-- Every client was made. -/
theorem madeIn_reachable (reached : (accepting server).Reachable s) {index : Nat}
    {client : AcceptClient} (found : s.clients[index]? = some client) :
    MadeIn server s index client := by
  have kept : (accepting server).Reachable s ∧ ∀ {index : Nat} {client : AcceptClient},
      s.clients[index]? = some client → MadeIn server s index client := by
    apply reached.invariant (P := fun s => (accepting server).Reachable s ∧
      ∀ {index : Nat} {client : AcceptClient}, s.clients[index]? = some client →
        MadeIn server s index client)
    · rintro _ rfl
      exact ⟨.start rfl, nofun⟩
    · rintro first label next ⟨reached, known⟩ step
      refine ⟨reached.step label step, fun {index client} found => ?_⟩
      obtain ⟨enabled, rfl⟩ := step
      rcases (moves_of_enabled enabled).clients found with ⟨old, there, same⟩ | ⟨here, more, new⟩
      · obtain ⟨before, by_, made, later, begins, makes, run, rest⟩ := known there
        exact ⟨before, by_, made, later ++ [label], begins, makes,
          run.append (.cons trivial ⟨enabled, rfl⟩ (.nil _)), same ▸ rest⟩
      · exact ⟨first, label, _, [], reached, ⟨enabled, rfl⟩, .nil _, here.symm, more, new⟩
  exact kept.2 found

/-- In every reachable state each client went a part of one way: added to the service, announced
once, having it receive, in this order, also where its handshake failed. Both of its buffers have
the size that the server's send buffer had when the client was made, which is never zero. -/
theorem accepting_clients (some_ : server.options.sendBuffSize ≠ 0)
    (reached : (accepting server).Reachable s) {index : Nat} {client : AcceptClient}
    (found : s.clients[index]? = some client) :
    (∃ ready, client.done <+: acceptTodo ready) ∧
      s.accepted.count index = client.done.count .accept ∧
      ∃ before label made more, (accepting server).Reachable before ∧
        (accepting server).step before label made ∧ (accepting server).Run made more s ∧
        before.clients.length = index ∧ made.clients.length = index + 1 ∧
        client.options.recvBuffSize = before.server.options.sendBuffSize ∧
        client.options.sendBuffSize = before.server.options.sendBuffSize ∧
        before.server.options.sendBuffSize ≠ 0 := by
  have announced : s.Announced := by
    apply reached.invariant
    · rintro _ rfl
      exact fun _ => rfl
    · rintro first label _ announced ⟨enabled, rfl⟩
      exact announced.moves (moves_of_enabled enabled)
  obtain ⟨order, _⟩ := orderly_reachable reached client (List.mem_of_getElem? found)
  obtain ⟨before, label, made, more, begins, step, run, first, next, options⟩ :=
    madeIn_reachable reached found
  refine ⟨?_, ?_, before, label, made, more, begins, step, run, first, next, ?_, ?_,
    sendBuffSize_nonzero some_ begins⟩
  · rcases order with ⟨nothing, _⟩ | ⟨ready, whole⟩
    · exact ⟨true, nothing ▸ List.nil_prefix⟩
    · exact ⟨ready, _, whole⟩
  · rw [announced index, found, Option.elim_some]
  · rw [options]
    rfl
  · rw [options]
    rfl

/-- The client whose handshake failed was announced, and was made before. -/
theorem accepting_clients_ssl :
    ∃ s client, (accepting sslServer).Reachable s ∧ s.clients[0]? = some client ∧
      s.accepted = [0] ∧ client.done = [.handshakeFails, .acceptCb, .accept] ∧
      s.accepted.count 0 = client.done.count .accept ∧
      ∃ before, (accepting sslServer).Reachable before ∧ before.clients.length = 0 ∧
        client.options.recvBuffSize = before.server.options.sendBuffSize := by
  obtain ⟨s, next, labels, ⟨first, before, begins, run⟩, _, _, _, later, shown⟩ := sslServer_shuts
  obtain ⟨_, _, _, announced, done⟩ := shown
  have reached : (accepting sslServer).Reachable next := ⟨first, _, begins, run.append later⟩
  obtain ⟨client, found, order⟩ := Option.map_eq_some_iff.mp done
  rw [List.head?_eq_getElem?] at found
  obtain ⟨_, once, made, _, _, _, there, _, _, none, _, recv, _⟩ :=
    accepting_clients (by decide) reached found
  exact ⟨next, client, reached, found, announced, order, once, made, there, none, recv⟩

/-- A server that was closed, or that raised an error where a callback is installed, announces from
then on no more clients than those whose accept had completed by then. -/
theorem accepting_closed (reached : (accepting server).Reachable s)
    (stopped : s.server.isOpen = false ∨ server.eventCb = true ∧ s.errors ≠ []) {next : Accepting}
    {labels : List AcceptLabel} (run : (accepting server).Run s labels next) :
    next.server.isOpen = false ∧ next.accepted.length ≤ s.accepted.length + s.pending := by
  have orderly := orderly_reachable reached
  have shuts : Shuts server s := by
    apply reached.invariant
    · rintro _ rfl
      exact ⟨rfl, fun some_ => absurd rfl some_⟩
    · rintro first label _ shuts ⟨enabled, rfl⟩
      exact shuts.moves (moves_of_enabled enabled)
  have closed : s.server.isOpen = false :=
    stopped.elim id fun ⟨installed, some_⟩ => shuts.shut some_ installed
  have kept : next.server.isOpen = false ∧ next.Orderly ∧
      next.accepted.length + next.pending ≤ s.accepted.length + s.pending := by
    apply run.invariant ?_ ⟨closed, orderly, Nat.le_refl _⟩
    rintro first label _ ⟨closed, orderly, less⟩ _ ⟨enabled, rfl⟩
    have moves := moves_of_enabled enabled
    have step := closed_moves closed orderly moves
    exact ⟨step.1, orderly.moves moves, Nat.le_trans step.2 less⟩
  exact ⟨kept.1, Nat.le_of_add_right_le kept.2.2⟩

/-- An SSL server that is closed during a handshake announces that client, and stays closed. -/
theorem accepting_closed_ssl :
    ∃ s next labels, (accepting sslServer).Run s labels next ∧ s.accepted.length + s.pending = 1 ∧
      next.accepted = [0] ∧ next.server.isOpen = false := by
  obtain ⟨s, next, labels, reached, errors, nothing, one, run, _, _, _, announced, _⟩ :=
    sslServer_shuts
  have stopped : s.server.isOpen = false ∨ sslServer.eventCb = true ∧ s.errors ≠ [] :=
    .inr ⟨rfl, by simp [errors]⟩
  refine ⟨s, next, labels, run, ?_, announced, (accepting_closed reached stopped run).1⟩
  rw [nothing, one]
  rfl

end Hnw.Base
