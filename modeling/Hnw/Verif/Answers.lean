import Hnw.Service.Answer
import Hnw.Verif.Connections
import Hnw.Verif.BodyLimit

/-!
# One answer a request

The first answer closes the channel, and no step opens it again. Where every event that reaches
the callback finds the channel open, there is one answer at most.
-/

namespace Hnw.Service

open Hnw.Http Hnw.Util Hnw.Util.UnorderedMultimap Hnw.Theory Hnw.Parser

/-! ## Handles and the channel map -/

/-- Installing a callback makes no handle. -/
theorem setEventCb_next (s : State) (handle : Handle) (cb : EventCb) :
    (setEventCb s handle cb).next = s.next := by
  obtain ⟨_, same, _⟩ := setEventCb_frame s handle cb
  rw [same]

/-- Closing makes no handle. -/
theorem close_next (s : State) (handle : Handle) : (close s handle).next = s.next := by
  obtain ⟨_, _, same, _⟩ := close_frame s handle
  rw [same]

/-- An operation that puts a channel into the map. -/
def Op.Adds (handle : Handle) : Op → Prop
  | .addChannel other _ => other = handle
  | _ => False

/-- What one operation does to a channel: its handle stays made, and it does not get into the map,
where the operation does not put it there. -/
theorem perform_gone {s : State} {op : Op} {handle : Handle} (others : ¬ op.Adds handle) :
    s.next ≤ (perform s op).next ∧
      (handle ∉ s.channelMap → handle ∉ (perform s op).channelMap) := by
  cases op with
  | addChannel other channel =>
    refine ⟨Nat.le_succ _, fun absent present => ?_⟩
    rcases List.mem_cons.mp present with same | old
    · exact others same.symm
    · exact absent old
  | setEventCb other cb =>
    simp only [perform]
    rw [setEventCb_next, (setEventCb_maps s other cb).1]
    exact ⟨Nat.le_refl _, id⟩
  | addSession other => exact ⟨Nat.le_refl _, id⟩
  | delSession other => exact ⟨Nat.le_refl _, id⟩
  | setConn other =>
    simp only [perform]
    split <;> exact ⟨Nat.le_refl _, id⟩
  | close other =>
    simp only [perform]
    rw [close_next, close_channelMap]
    exact ⟨Nat.le_refl _, fun absent present => absent (List.mem_filter.mp present).1⟩
  | unpost event => exact ⟨Nat.le_refl _, id⟩
  | release other => exact ⟨Nat.le_refl _, id⟩

/-- What operations do to a channel that none of them puts into the map. -/
theorem performAll_gone {s : State} {ops : List Op} {handle : Handle}
    (others : ∀ op ∈ ops, ¬ op.Adds handle) :
    s.next ≤ (performAll s ops).next ∧
      (handle ∉ s.channelMap → handle ∉ (performAll s ops).channelMap) := by
  induction ops generalizing s with
  | nil => exact ⟨Nat.le_refl _, id⟩
  | cons op ops ih =>
    have first := @perform_gone s op handle (others op List.mem_cons_self)
    have rest := @ih (perform s op) fun other member => others other (List.mem_cons_of_mem _ member)
    exact ⟨Nat.le_trans first.1 rest.1, fun absent => rest.2 (first.2 absent)⟩

/-- A close among the operations takes its channel out of the map. -/
theorem performAll_closes {s : State} {ops : List Op} {handle : Handle}
    (others : ∀ op ∈ ops, ¬ op.Adds handle) (closes : .close handle ∈ ops) :
    handle ∉ (performAll s ops).channelMap := by
  induction ops generalizing s with
  | nil => cases closes
  | cons op ops ih =>
    have later : ∀ other ∈ ops, ¬ other.Adds handle := fun other member =>
      others other (List.mem_cons_of_mem _ member)
    rcases List.mem_cons.mp closes with now | after
    · rw [← now]
      apply (performAll_gone later).2
      show handle ∉ (close s handle).channelMap
      rw [close_channelMap]
      simp
    · exact ih later after

/-- Calls put no channel into the map. -/
theorem calls_add (calls : List Call) (handle : Handle) :
    ∀ op ∈ calls.map Call.op, ¬ op.Adds handle := by
  intro op member
  obtain ⟨call, _, rfl⟩ := List.mem_map.mp member
  cases call <;> exact id

/-- What an unknown handle leads to puts no channel into the map. -/
theorem unknownHandle_add (other handle : Handle) :
    ∀ op ∈ unknownHandle other, ¬ op.Adds handle := by
  simp [unknownHandle, Op.Adds]

/-- The operations that the handler of an event performs: a new channel and its session get the
next handle, a session is deleted where it is not there or its `CLOSED` event runs, and the others
are of the event itself. -/
def Planned (s : State) (label : Label) : Op → Prop
  | .addChannel handle _ | .addSession handle => handle = s.next
  | .delSession handle =>
    handle ∉ s.sessionMap ∨ ∃ calls, label = .runPosted (handle, .http) calls
  | .setConn handle => ∃ calls, label = .connected handle calls
  | .unpost event => ∃ calls, label = .runPosted event calls
  | .release handle => label = .released handle
  | .setEventCb _ _ | .close _ => True

/-- Calls are performed by any handler. -/
theorem calls_planned {s : State} {label : Label} (calls : List Call) :
    ∀ op ∈ calls.map Call.op, Planned s label op := by
  intro op member
  obtain ⟨call, _, rfl⟩ := List.mem_map.mp member
  cases call with
  | close handle => trivial
  | dropCb handle => trivial

/-- An event performs what is done for its session, or ends a session that is not there. -/
theorem raise_planned {s : State} {label : Label} {handle : Handle} {known : List Op}
    (planned : ∀ op ∈ known, Planned s label op) :
    ∀ op ∈ raise s handle known, Planned s label op := by
  unfold raise
  split
  · rw [eventCb]
    split
    · exact planned
    · next absent =>
      rw [unknownHandle, List.forall_mem_cons, List.forall_mem_singleton]
      exact ⟨trivial, .inl absent⟩
  · exact List.forall_mem_nil _

/-- Every handler performs such operations only. -/
theorem plan_planned (s : State) (label : Label) : ∀ op ∈ plan s label, Planned s label op := by
  cases label with
  | start type outcome =>
    cases outcome with
    | addFails stale => simp [plan, Planned]
    | sessionFails => simp [plan, Planned]
    | refused => simp [plan, Planned]
    | started => simp [plan, Planned]
  | connected handle calls =>
    rw [plan, List.forall_mem_cons]
    exact ⟨⟨calls, rfl⟩, raise_planned (calls_planned calls)⟩
  | accept server snapshot ready added calls =>
    rw [plan, List.forall_mem_cons]
    refine ⟨rfl, raise_planned ?_⟩
    rw [List.forall_mem_append]
    refine ⟨?_, calls_planned calls⟩
    split <;> simp [Planned]
  | receive handle calls => exact raise_planned (calls_planned calls)
  | fail handle calls =>
    rw [plan, List.forall_mem_append]
    refine ⟨raise_planned (calls_planned calls), ?_⟩
    unfold errorTail
    split <;> simp [Planned]
  | close handle => simp [plan, Planned]
  | runPosted event calls =>
    obtain ⟨handle, cb⟩ := event
    cases cb with
    | unset => simp [plan, Planned]
    | base => simp [plan, Planned]
    | http =>
      simp only [plan]
      split
      · rw [List.forall_mem_cons, List.forall_mem_cons]
        exact ⟨.inr ⟨calls, rfl⟩, ⟨calls, rfl⟩, calls_planned calls⟩
      · next absent =>
        rw [unknownHandle, List.forall_mem_cons, List.forall_mem_cons, List.forall_mem_singleton]
        exact ⟨⟨calls, rfl⟩, trivial, .inl absent⟩
  | released handle => simp [plan, Planned]

/-- The only channel an event handler puts into the map is a new one. -/
theorem plan_add {s : State} {label : Label} {handle : Handle} (made : handle < s.next) :
    ∀ op ∈ plan s label, ¬ op.Adds handle := by
  intro op member adds
  have planned := plan_planned s label op member
  cases op with
  | addChannel other channel => exact Nat.ne_of_lt made (adds.symm.trans planned)
  | _ => exact adds

/-! ## The events of the parser -/

section Events

variable {ι σ : Type} {setting : Setting ι σ}

/-- The events of one call of the parser: those of a head, then one more of the message or of its
failure, or that of a body. -/
inductive CallEvents : List CallbackEvent → Prop where
  | none : CallEvents []
  | head : CallEvents [.recvHead]
  | whole : CallEvents [.recvHead, .recv]
  | fails : CallEvents [.recvHead, .error]
  | body : CallEvents [.recv]

/-- `on_start_line` raises no event. -/
theorem onStartLine_events (s : ParserState ι σ) (ch : UInt8) :
    (onStartLine setting s ch).out = [] := by
  rcases onStartLine_cases setting s ch with ⟨_, call, _⟩ | call | ⟨_, call⟩
  · rw [call]
  · rw [call]
  · rw [call]

/-- The events of the end of a head. -/
theorem endOfHead_events (s : ParserState ι σ) :
    CallEvents ((endOfHead setting s).out.map .ofParser) := by
  unfold endOfHead
  split
  · exact .head
  · split
    · exact .fails
    · unfold enterBody
      split
      · split
        · exact .head
        · exact .fails
      · split
        · exact .whole
        · exact .head

/-- The events of `on_body`. -/
theorem onBody_events (s : ParserState ι σ) (data : Bytes) :
    CallEvents ((onBody setting s data).out.map .ofParser) := by
  unfold onBody
  split
  · exact .none
  · simp only
    split
    · exact .body
    · exact .none

variable [UnorderedMultimap σ]

/-- The events of `on_head`. -/
theorem onHead_events (s : ParserState ι σ) (ch : UInt8) :
    CallEvents ((onHead setting s ch).out.map .ofParser) := by
  rcases onHead_cases setting s ch with ⟨_, _, call⟩ | ⟨_, call, _⟩ | call | ⟨_, call⟩
  · rw [call]
    exact endOfHead_events s
  · rw [call]
    exact .none
  · rw [call]
    exact .none
  · rw [call]
    exact .none

/-- The events of a call. -/
theorem callParserCb_events (s : ParserState ι σ) (data : Bytes) :
    CallEvents ((callParserCb setting s data).out.map .ofParser) := by
  cases data with
  | nil => exact .none
  | cons ch rest =>
    unfold callParserCb
    simp only
    split
    · rw [onStartLine_events]
      exact .none
    · exact onHead_events s ch
    · exact onBody_events s (ch :: rest)
    · exact .none

end Events

/-- `on_request_once` answers one of these events at most, and `resource_status_cb` where the body
of the head can be made. -/
theorem CallEvents.answers_le {events : List CallbackEvent} (raised : CallEvents events)
    {callback : Callback} (makes : callback = .resourceStatusCb → .error ∉ events)
    (handle : Handle) : callback.answers handle events ≤ 1 := by
  cases callback with
  | onRequestOnce => cases raised <;> simp [Callback.answers, Callback.react, onRequestOnce]
  | resourceStatusCb =>
    cases raised with
    | fails => exact absurd (makes rfl) (by decide)
    | none | head | whole | body =>
      simp [Callback.answers, Callback.react, resourceStatusCb]

/-! ## The callbacks -/

/-- A callback that answers closes the channel. -/
theorem react_closes {callback : Callback} {handle : Handle} {event : CallbackEvent}
    (answers : (callback.react handle event).1 = true) :
    .close handle ∈ (callback.react handle event).2 := by
  cases callback <;> cases event with
  | connect sent => cases sent <;> simp_all [Callback.react, onRequestOnce, resourceStatusCb]
  | _ => simp_all [Callback.react, onRequestOnce, resourceStatusCb]

/-- Among what a callback does to channels, where one of the events is answered, is a close. -/
theorem answers_closes {callback : Callback} {handle : Handle} {events : List CallbackEvent}
    (some_ : 0 < callback.answers handle events) :
    ∃ event ∈ events, .close handle ∈ (callback.react handle event).2 := by
  obtain ⟨event, member, answers⟩ := List.countP_pos_iff.mp some_
  exact ⟨event, member, react_closes answers⟩

namespace Requesting

variable {σ : Type}

/-- The channel was made, and the first answer took it out of the map for good. -/
structure Once (s : Requesting σ) : Prop where
  /-- The handle was given. -/
  made : s.handle < s.services.next
  /-- One answer at most. -/
  most : s.answers ≤ 1
  /-- After it the channel is not in the map. -/
  gone : 0 < s.answers → s.handle ∉ s.services.channelMap

variable {s : Requesting σ}

/-- Operations with so many answers, one at most and then while the channel is in the map and with
its close among them. -/
theorem Once.perform (once : Once s) {ops : List Op} (others : ∀ op ∈ ops, ¬ op.Adds s.handle)
    {answers : Nat}
    (answered : 0 < answers →
      answers ≤ 1 ∧ s.handle ∈ s.services.channelMap ∧ .close s.handle ∈ ops)
    (reading : Reading (ParserState ResponseLine σ) UInt8) (alive : Bool) :
    Once { s with services := performAll s.services ops, reading,
                  answers := s.answers + answers, alive } := by
  have gone := performAll_gone (s := s.services) others
  have made : s.handle < (performAll s.services ops).next := Nat.lt_of_lt_of_le once.made gone.1
  by_cases none : answers = 0
  · rw [none]
    exact ⟨made, once.most, fun some_ => gone.2 (once.gone some_)⟩
  · obtain ⟨one, open_, closes⟩ := answered (Nat.pos_of_ne_zero none)
    have before : s.answers = 0 := by
      by_contra some_
      exact once.gone (Nat.pos_of_ne_zero some_) open_
    have most : s.answers + answers ≤ 1 := by omega
    exact ⟨made, most, fun _ => performAll_closes others closes⟩

/-- An event that reaches the callback is handled for its session. -/
theorem Reaches.raise (reaches : s.Reaches) (known : List Op) :
    raise s.services s.handle known = known := by
  rw [Service.raise, reaches.1]
  simp only [eventCb, if_pos reaches.2]

/-- A new channel has no answer. -/
theorem once_opened {setting : Setting ResponseLine σ} (opened : Opened setting s) : Once s := by
  obtain ⟨before, type, files, _, _, rfl⟩ := opened
  refine ⟨?_, Nat.zero_le 1, fun some_ => absurd some_ (Nat.lt_irrefl 0)⟩
  show before.next < (setEventCb (perform before _) before.next .http).next
  rw [setEventCb_next]
  exact Nat.lt_succ_self _

variable [UnorderedMultimap σ] {setting : Setting ResponseLine σ} {callback : Callback}

/-- The events of the parser's next call. -/
def readEvents (setting : Setting ResponseLine σ) (s : Requesting σ) : List CallbackEvent :=
  (callParserCb setting s.reading.state s.reading.unread).out.map .ofParser

/-- The condition on a step. A connect or an error that reaches the callback finds the channel in
the map, and so does an event of the parser that is answered; the channel raises no error while
the request is sent, or the request can be sent still; and `resource_status_cb` gets no head whose
body cannot be made. -/
def InTime (setting : Setting ResponseLine σ) (callback : Callback) (s : Requesting σ) :
    RequestLabel → Prop
  | .connected drains request => s.Reaches →
      s.handle ∈ s.services.channelMap ∧ request ≠ .raises ∧ (drains = false → request = .sent)
  | .read => s.handle ∈ s.services.sessionMap →
      0 < callback.answers s.handle (s.readEvents setting) →
      s.handle ∈ s.services.channelMap ∧
        (callback = .resourceStatusCb → .error ∉ s.readEvents setting)
  | .fail => s.Reaches → s.handle ∈ s.services.channelMap
  | _ => True

/-- The events of a connect in time have one answer at most. -/
theorem connectEvents_answers_le {drains : Bool} {request : RawRequest} (raises : request ≠ .raises)
    (still : drains = false → request = .sent) (handle : Handle) :
    callback.answers handle ((connectEvents handle drains request).map Prod.fst) ≤ 1 := by
  cases callback <;> cases request with
  | raises => exact absurd rfl raises
  | sent =>
    cases drains <;>
      simp [connectEvents, Callback.answers, Callback.react, onRequestOnce, resourceStatusCb]
  | refused =>
    cases drains with
    | false => exact absurd (still rfl) (by decide)
    | true =>
      simp [connectEvents, Callback.answers, Callback.react, onRequestOnce, resourceStatusCb]

/-- A connect in time keeps to one answer. -/
theorem Once.connected (once : Once s) {drains : Bool} {request : RawRequest}
    (inTime : InTime setting callback s (.connected drains request)) :
    Once (s.connected callback drains request) := by
  refine once.perform (plan_add once.made) (fun some_ => ?_) s.reading s.alive
  by_cases reaches : s.Reaches
  · obtain ⟨open_, raises, still⟩ := inTime reaches
    rw [if_pos reaches] at some_ ⊢
    refine ⟨connectEvents_answers_le raises still s.handle, open_, ?_⟩
    obtain ⟨event, member, closes⟩ := answers_closes some_
    obtain ⟨pair, inside, rfl⟩ := List.mem_map.mp member
    rw [plan, reaches.raise]
    refine List.mem_cons_of_mem _ (List.mem_map.mpr ⟨.close s.handle, ?_, rfl⟩)
    exact List.mem_flatMap.mpr ⟨pair, inside, List.mem_append_left _ closes⟩
  · rw [if_neg reaches] at some_
    exact absurd some_ (Nat.lt_irrefl 0)

/-- An error in time keeps to one answer. -/
theorem Once.fail (once : Once s) (inTime : InTime setting callback s .fail) :
    Once (s.fail callback) := by
  refine once.perform (plan_add once.made) (fun some_ => ?_) s.reading s.alive
  by_cases reaches : s.Reaches
  · rw [if_pos reaches] at some_ ⊢
    refine ⟨List.countP_le_length, inTime reaches, ?_⟩
    obtain ⟨event, member, closes⟩ := answers_closes some_
    rw [plan, reaches.raise]
    refine List.mem_append_left _ (List.mem_map.mpr ⟨.close s.handle, ?_, rfl⟩)
    exact List.mem_flatMap.mpr ⟨event, member, closes⟩
  · rw [if_neg reaches] at some_
    exact absurd some_ (Nat.lt_irrefl 0)

/-- A call of the parser in time keeps to one answer. -/
theorem Once.read (once : Once s) (inTime : InTime setting callback s .read) :
    Once (s.read setting callback) := by
  let known := (callback.calls s.handle (s.readEvents setting)).map Call.op
  have others : ∀ op ∈ (if s.readEvents setting = [] then []
      else eventCb s.services s.handle known), ¬ op.Adds s.handle := by
    split
    · simp
    · unfold eventCb
      split
      · exact calls_add _ s.handle
      · exact unknownHandle_add s.handle s.handle
  refine once.perform others (fun some_ => ?_) _ _
  by_cases session : s.handle ∈ s.services.sessionMap
  · rw [if_pos session] at some_ ⊢
    obtain ⟨open_, makes⟩ := inTime session some_
    refine ⟨(callParserCb_events _ _).answers_le makes s.handle, open_, ?_⟩
    obtain ⟨event, member, closes⟩ := answers_closes some_
    have raised : s.readEvents setting ≠ [] := List.ne_nil_of_mem member
    rw [if_neg raised, eventCb, if_pos session]
    refine List.mem_map.mpr ⟨.close s.handle, ?_, rfl⟩
    exact List.mem_flatMap.mpr ⟨event, member, closes⟩
  · rw [if_neg session] at some_
    exact absurd some_ (Nat.lt_irrefl 0)

/-- Every step in time keeps to one answer. -/
theorem Once.next (once : Once s) {label : RequestLabel}
    (inTime : InTime setting callback s label) : Once (s.next setting callback label) := by
  have none : ∀ {ops : List Op}, 0 < 0 →
      0 ≤ 1 ∧ s.handle ∈ s.services.channelMap ∧ .close s.handle ∈ ops :=
    fun some_ => absurd some_ (Nat.lt_irrefl 0)
  cases label with
  | other label => exact once.perform (plan_add once.made) none s.reading s.alive
  | connected drains request => exact once.connected inTime
  | receive chunk => exact once.perform (plan_add once.made) none _ s.alive
  | read => exact once.read inTime
  | fail => exact once.fail inTime
  | closed cb => exact once.perform (plan_add once.made) none s.reading s.alive

/-! ## A chunk -/

/-- Calls leave the sessions alone. -/
theorem calls_sessionMap (calls : List Call) (services : State) :
    (performAll services (calls.map Call.op)).sessionMap = services.sessionMap := by
  induction calls generalizing services with
  | nil => rfl
  | cons call calls ih =>
    have rest := ih (perform services call.op)
    have one : (perform services call.op).sessionMap = services.sessionMap := by
      cases call with
      | close handle => exact (close_maps services handle).2.1
      | dropCb handle => exact (setEventCb_maps services handle .base).2.1
    exact rest.trans one

/-- A call of the parser for a known session: the session stays known, and each event is answered
that the callback answers. -/
theorem read_known (session : s.handle ∈ s.services.sessionMap) :
    (s.read setting callback).handle ∈ (s.read setting callback).services.sessionMap ∧
      (s.read setting callback).answers =
        s.answers + callback.answers s.handle (s.readEvents setting) := by
  refine ⟨?_, ?_⟩
  · show s.handle ∈ (performAll s.services _).sessionMap
    split
    · exact session
    · rw [eventCb, if_pos session, calls_sessionMap]
      exact session
  · show s.answers + _ = _
    rw [if_pos session]
    rfl

/-- A call of the parser that does not stop leaves the rest of the chunk to the next one. -/
theorem read_goes (goes : (callParserCb setting s.reading.state s.reading.unread).stop = none) :
    (s.read setting callback).reading =
        ⟨(callParserCb setting s.reading.state s.reading.unread).state,
          s.reading.unread.drop (callParserCb setting s.reading.state s.reading.unread).used⟩ ∧
      (s.read setting callback).alive = true := by
  refine ⟨?_, ?_⟩
  · simp [Requesting.read, Reading.call, goes]
  · simp [Requesting.read, goes]

variable {guard : Requesting σ → RequestLabel → Prop} {fuel : Nat}
  {o : Theory.Outcome (ParserState ResponseLine σ) (Event ResponseLine σ) Stop}

/-- A chunk that `input_data` returns from, without an exception, is a run of calls, and the
callback answers its events. The calls meet a guard that follows from what holds of the state and
the events that are still to come. -/
theorem reads_of_returns {P : Requesting σ → List CallbackEvent → Prop}
    (meets : ∀ s rest, s.handle ∈ s.services.sessionMap → P s (s.readEvents setting ++ rest) →
      guard s .read ∧ P (s.read setting callback) rest)
    (holds : P s (o.out.map .ofParser)) (session : s.handle ∈ s.services.sessionMap)
    (alive : s.alive = true) {state : ParserState ResponseLine σ} {data : Bytes}
    (here : s.reading.state = state) (given : s.reading.unread = data)
    (read : Returns (callParserCb setting) state data o)
    (harmless : o.stop.any Stop.fatal = false) :
    ∃ labels later, (system setting callback).RunWith guard s labels later ∧
      later.reading = ⟨o.state, []⟩ ∧
      later.answers = s.answers + callback.answers s.handle (o.out.map .ofParser) := by
  induction read using Returns.induction_on generalizing s with
  | nothing state =>
    subst here
    refine ⟨[], s, .nil s, ?_, rfl⟩
    rw [← given]
  | stopped state data reason unread stops =>
    subst here given
    obtain ⟨_, answered⟩ := @read_known _ s _ setting callback session
    have now : P s (s.readEvents setting ++ []) := by
      rw [List.append_nil]
      exact holds
    have step : (system setting callback).step s .read (s.read setting callback) :=
      ⟨alive, unread, rfl⟩
    refine ⟨[.read], s.read setting callback, .cons (meets s [] session now).1 step (.nil _), ?_,
      answered⟩
    simp [Requesting.read, Reading.call, stops]
  | next state data rest unread goes _ ih =>
    subst here given
    obtain ⟨stays, answered⟩ := @read_known _ s _ setting callback session
    obtain ⟨reading, survives⟩ := @read_goes _ s _ setting callback goes
    rw [Theory.Outcome.after_out, List.map_append] at holds
    obtain ⟨first, holds⟩ := meets s _ session holds
    obtain ⟨labels, later, run, last, answers⟩ := ih holds stays survives
      (congrArg Reading.state reading) (congrArg Reading.unread reading) harmless
    refine ⟨.read :: labels, later, .cons first ⟨alive, unread, rfl⟩ run, last, ?_⟩
    rw [answers, answered, Theory.Outcome.after_out, List.map_append, Nat.add_assoc]
    exact congrArg _ (List.countP_append ..).symm

/-- A chunk that `input_data` returns from is a run of calls, whatever is answered. -/
theorem reads_run (callback : Callback) (session : s.handle ∈ s.services.sessionMap)
    (alive : s.alive = true)
    (found : feed (callParserCb setting) fuel s.reading.state s.reading.unread = some o)
    (harmless : o.stop.any Stop.fatal = false) :
    ∃ labels later, (system setting callback).Run s labels later ∧
      later.reading = ⟨o.state, []⟩ ∧
      later.answers = s.answers + callback.answers s.handle (o.out.map .ofParser) :=
  @reads_of_returns _ s _ setting callback (fun _ _ => True) o (fun _ _ => True)
    (fun _ _ _ _ => ⟨trivial, trivial⟩) trivial session alive _ _ rfl rfl ⟨fuel, found⟩ harmless

/-- A chunk with one answering event at most, which finds the channel in the map, and for
`resource_status_cb` with no head whose body cannot be made. -/
structure Single (callback : Callback) (s : Requesting σ) (events : List CallbackEvent) : Prop where
  /-- One is answered at most. -/
  single : callback.answers s.handle events ≤ 1
  /-- The channel is open for it. -/
  open_ : 0 < callback.answers s.handle events → s.handle ∈ s.services.channelMap
  /-- The bodies can be made. -/
  makes : callback = .resourceStatusCb → .error ∉ events

/-- Events that are not answered lead to no calls. -/
theorem calls_of_silent {handle : Handle} {events : List CallbackEvent}
    (silent : callback.answers handle events = 0) : callback.calls handle events = [] := by
  apply List.flatMap_eq_nil_iff.mpr
  intro event member
  have none := List.countP_eq_zero.mp silent event member
  cases callback <;> cases event with
  | connect sent => cases sent <;> simp_all [Callback.react, onRequestOnce, resourceStatusCb]
  | _ => simp_all [Callback.react, onRequestOnce, resourceStatusCb]

/-- A call of the parser with such events is in time, and leaves such events. -/
theorem Single.read {rest : List CallbackEvent} (session : s.handle ∈ s.services.sessionMap)
    (events : Single callback s (s.readEvents setting ++ rest)) :
    InTime setting callback s .read ∧ Single callback (s.read setting callback) rest := by
  have sum : callback.answers s.handle (s.readEvents setting ++ rest) =
      callback.answers s.handle (s.readEvents setting) + callback.answers s.handle rest :=
    List.countP_append ..
  obtain ⟨single, open_, makes⟩ := events
  rw [sum] at single open_
  refine ⟨fun _ some_ => ⟨open_ (by omega), fun status member => ?_⟩, ?_, fun some_ => ?_, ?_⟩
  · exact makes status (List.mem_append_left _ member)
  · show callback.answers s.handle rest ≤ 1
    omega
  · have later : 0 < callback.answers s.handle rest := some_
    have silent : callback.answers s.handle (s.readEvents setting) = 0 := by omega
    show s.handle ∈ (performAll s.services (if s.readEvents setting = [] then []
      else eventCb s.services s.handle ((callback.calls s.handle (s.readEvents setting)).map
        Call.op))).channelMap
    rw [eventCb, if_pos session, calls_of_silent silent, List.map_nil, ite_self]
    exact open_ (by omega)
  · exact fun status member => makes status (List.mem_append_right _ member)

/-- A chunk with one answering event at most, which is in time, is a run in time. -/
theorem reads_inTime (events : Single callback s (o.out.map .ofParser))
    (session : s.handle ∈ s.services.sessionMap) (alive : s.alive = true)
    (found : feed (callParserCb setting) fuel s.reading.state s.reading.unread = some o)
    (harmless : o.stop.any Stop.fatal = false) :
    ∃ labels later, (system setting callback).RunWith (InTime setting callback) s labels later ∧
      later.reading = ⟨o.state, []⟩ ∧
      later.answers = s.answers + callback.answers s.handle (o.out.map .ofParser) :=
  reads_of_returns (fun _ _ known events => events.read known) events session alive rfl rfl
    ⟨fuel, found⟩ harmless

/-! ## Runs -/

/-- Where every event that reaches the callback is in time, the application is called back once at
most, by `on_request_once` as by `resource_status_cb`, whatever the server sends, however it is
cut, and in whatever order the events come. -/
theorem answers_le_one (surroundings : Surroundings) (holds : Bool) (callback : Callback)
    {s : Requesting σ}
    (reached : (system ⟨httpResponseParser, surroundings, holds⟩ callback).ReachableWith
      (InTime ⟨httpResponseParser, surroundings, holds⟩ callback) s) :
    s.answers ≤ 1 := by
  have once : Once s := by
    apply reached.invariant
    · intro first opened
      exact once_opened opened
    · intro first label last once inTime step
      rw [step.2.2]
      exact once.next inTime
  exact once.most

/-- A channel that was just opened, with a parser that is new. -/
def opened : Requesting ListMultimap where
  services := after {} (.start .tcpClient .started)
  handle := 0
  reading := ⟨Parser.fresh memorySetting ⟨fun _ => none, 0⟩ [], []⟩
  answers := 0
  alive := true

/-- The channel that was just opened is one a run begins with. -/
theorem opened_opened : Opened memorySetting opened :=
  ⟨{}, .tcpClient, ⟨fun _ => none, 0⟩, ⟨{}, [], ⟨_, rfl⟩, .nil _⟩, .inl rfl, rfl⟩

/-- A response without a body. -/
def emptyResponse : Bytes := ascii "HTTP/1.1 200 OK" ++ crlf ++ crlf

/-- The channel after it was connected and received a chunk. -/
def got (callback : Callback) (chunk : Bytes) : Requesting ListMultimap :=
  (opened.connected callback true .sent).receive chunk

/-- Connecting and receiving a chunk is a run in time. -/
theorem got_reached (callback : Callback) (chunk : Bytes) :
    ∃ labels, (system memorySetting callback).RunWith (InTime memorySetting callback) opened labels
      (got callback chunk) := by
  have connects : (system memorySetting callback).step opened (.connected true .sent)
      (opened.connected callback true .sent) :=
    ⟨rfl, ⟨⟨_, rfl, .inl rfl⟩, by decide⟩, rfl⟩
  have inTime : InTime memorySetting callback opened (.connected true .sent) :=
    fun _ => ⟨by decide, by decide, fun _ => rfl⟩
  have receives : (system memorySetting callback).step (opened.connected callback true .sent)
      (.receive chunk) (got callback chunk) := by
    refine ⟨rfl, ⟨?_, rfl⟩, rfl⟩
    cases callback <;> rfl
  have free : InTime memorySetting callback (opened.connected callback true .sent)
      (.receive chunk) := trivial
  exact ⟨_, .cons inTime connects (.cons free receives (.nil _))⟩

/-- After connecting and receiving a chunk the session is known and the channel in the map. -/
theorem got_state (callback : Callback) (chunk : Bytes) :
    (got callback chunk).handle ∈ (got callback chunk).services.sessionMap ∧
      (got callback chunk).handle ∈ (got callback chunk).services.channelMap := by
  cases callback <;> exact ⟨List.mem_cons_self, List.mem_cons_self⟩

/-- Why the parser stops reading what the channel got, and the events it raises. -/
def gotEvents (callback : Callback) (chunk : Bytes) : Option (Option Stop × List CallbackEvent) :=
  (feed (callParserCb memorySetting) 60 (got callback chunk).reading.state
    (got callback chunk).reading.unread).map fun o => (o.stop, o.out.map .ofParser)

/-- After one response the callback was called, and once. -/
theorem answers_le_one_response :
    ∃ s : Requesting ListMultimap,
      (system memorySetting .onRequestOnce).ReachableWith (InTime memorySetting .onRequestOnce) s ∧
      0 < s.answers ∧ s.answers ≤ 1 := by
  have made : gotEvents .onRequestOnce emptyResponse = some (none, [.recvHead, .recv]) := by
    decide +kernel
  obtain ⟨o, found, events⟩ := Option.map_eq_some_iff.mp made
  rw [Prod.mk.injEq] at events
  obtain ⟨session, open_⟩ := got_state .onRequestOnce emptyResponse
  obtain ⟨first, run⟩ := got_reached .onRequestOnce emptyResponse
  have single : Single .onRequestOnce (got .onRequestOnce emptyResponse)
      (o.out.map .ofParser) := by
    rw [events.2]
    exact ⟨by decide, fun _ => open_, fun status => absurd status (by decide)⟩
  obtain ⟨labels, later, goesOn, _, answers⟩ :=
    reads_inTime single session rfl found (by rw [events.1]; rfl)
  rw [events.2] at answers
  have reached : (system memorySetting .onRequestOnce).ReachableWith
      (InTime memorySetting .onRequestOnce) later :=
    ⟨opened, _, opened_opened, run.append goesOn⟩
  have once : 0 < later.answers := by
    rw [answers]
    decide
  exact ⟨later, reached, once, answers_le_one ⟨linux, fun _ => []⟩ false .onRequestOnce reached⟩

/-- Two responses in one chunk are two answers, of either callback. -/
theorem gotTwo_answers (callback : Callback) :
    ∃ s : Requesting ListMultimap,
      (system memorySetting callback).Reachable s ∧ s.answers = 2 := by
  have made : gotEvents callback (emptyResponse ++ emptyResponse) =
      some (none, [.recvHead, .recv, .recvHead, .recv]) := by
    cases callback <;> decide +kernel
  obtain ⟨o, found, events⟩ := Option.map_eq_some_iff.mp made
  rw [Prod.mk.injEq] at events
  obtain ⟨session, _⟩ := got_state callback (emptyResponse ++ emptyResponse)
  obtain ⟨first, run⟩ := got_reached callback (emptyResponse ++ emptyResponse)
  obtain ⟨labels, later, goesOn, _, answers⟩ :=
    reads_run callback session rfl found (by rw [events.1]; rfl)
  refine ⟨later, ⟨opened, _, opened_opened, run.free.append goesOn⟩, ?_⟩
  rw [answers, events.2]
  cases callback <;> decide

/-- Neither `on_request_once` nor `resource_status_cb` keeps to one answer. -/
theorem two_answers :
    (¬ ∀ s : Requesting ListMultimap,
      (system memorySetting .onRequestOnce).Reachable s → s.answers ≤ 1) ∧
    ¬ ∀ s : Requesting ListMultimap,
      (system memorySetting .resourceStatusCb).Reachable s → s.answers ≤ 1 := by
  refine ⟨fun always => ?_, fun always => ?_⟩
  · obtain ⟨s, reached, two⟩ := gotTwo_answers .onRequestOnce
    have one := always s reached
    omega
  · obtain ⟨s, reached, two⟩ := gotTwo_answers .resourceStatusCb
    have one := always s reached
    omega

end Requesting

end Hnw.Service
