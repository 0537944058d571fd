import Hnw.Service.Connections

/-!
# Sessions and their channels

A session is erased by the `CLOSED` event of its channel, so every close of a channel that has a
session must post one and post it with the session's callback still installed. Runs in which
every close does keep the two maps together; an error that the application does not answer by
closing the channel itself is a step that does not.
-/

namespace Hnw.Service

open Hnw.Theory

/-- Closing this channel now posts a `CLOSED` event that reaches the HTTP service. -/
def Delivers (s : State) (handle : Handle) : Prop :=
  ∃ channel, s.channels handle = some channel ∧ channel.conn = true ∧
    channel.type ≠ .sslClient ∧ channel.eventCb = .http

/-- Closing this channel now leaves no session behind. -/
def CleanClose (s : State) (handle : Handle) : Prop :=
  handle ∈ s.channelMap → handle ∈ s.sessionMap → Delivers s handle

/-- Every close among the operations leaves no session behind. -/
def CleanOps : State → List Op → Prop
  | _, [] => True
  | s, op :: ops =>
    (∀ handle, op = .close handle → CleanClose s handle) ∧ CleanOps (perform s op) ops

/-- The condition on a step: whatever its handler closes while the channel has a session is a
connected TCP channel or a listening acceptor that still has the session's callback. -/
def CleanStep (s : State) (label : Label) : Prop := CleanOps s (plan s label)

/-- Every session's channel is in the map, or its `CLOSED` event is on the way. -/
def Paired (s : State) : Prop :=
  ∀ handle ∈ s.sessionMap, handle ∈ s.channelMap ∨ (handle, .http) ∈ s.posted

/-- No session has lost its channel. -/
def NoOrphans (s : State) : Prop := ∀ handle ∈ s.sessionMap, handle ∈ s.channelMap

/-- What an operation needs to keep sessions and channels paired. -/
def Keeps (s : State) : Op → Prop
  | .addSession handle => handle ∈ s.channelMap
  | .close handle => CleanClose s handle
  | .unpost event => event.2 = .http → event.1 ∉ s.sessionMap
  | _ => True

@[simp] theorem setChannel_channelMap (s : State) (handle : Handle) (channel : Channel) :
    (s.setChannel handle channel).channelMap = s.channelMap := rfl

@[simp] theorem setChannel_sessionMap (s : State) (handle : Handle) (channel : Channel) :
    (s.setChannel handle channel).sessionMap = s.sessionMap := rfl

@[simp] theorem setChannel_posted (s : State) (handle : Handle) (channel : Channel) :
    (s.setChannel handle channel).posted = s.posted := rfl

/-- Making or replacing one channel leaves the others. -/
theorem setChannel_other {s : State} {handle other : Handle} (different : other ≠ handle)
    (channel : Channel) : (s.setChannel other channel).channels handle = s.channels handle :=
  if_neg (Ne.symm different)

/-- Installing a callback changes one channel object at most. -/
theorem setEventCb_frame (s : State) (handle : Handle) (cb : EventCb) :
    ∃ channels, setEventCb s handle cb = { s with channels } ∧
      ∀ other, handle ≠ other → channels other = s.channels other := by
  unfold setEventCb
  split
  · split
    · exact ⟨s.channels, rfl, fun _ _ => rfl⟩
    · exact ⟨_, rfl, fun _ different => setChannel_other different _⟩
  · exact ⟨s.channels, rfl, fun _ _ => rfl⟩

/-- Installing a callback changes no map. -/
theorem setEventCb_maps (s : State) (handle : Handle) (cb : EventCb) :
    (setEventCb s handle cb).channelMap = s.channelMap ∧
      (setEventCb s handle cb).sessionMap = s.sessionMap ∧
      (setEventCb s handle cb).posted = s.posted := by
  obtain ⟨_, same, _⟩ := setEventCb_frame s handle cb
  rw [same]
  exact ⟨rfl, rfl, rfl⟩

/-- Installing a callback leaves the other channels. -/
theorem setEventCb_other {s : State} {handle other : Handle} (different : other ≠ handle)
    (cb : EventCb) : (setEventCb s other cb).channels handle = s.channels handle := by
  obtain ⟨_, same, others⟩ := setEventCb_frame s other cb
  rw [same]
  exact others handle different

/-- What closing a channel object does: nothing where it is not connected or its shutdown throws; it
is not connected any more, and posts its event where it is no SSL connection. -/
theorem channelClose_cases (s : State) (handle : Handle) (channel : Channel) :
    channelClose s handle channel = s ∧
        (channel.conn = false ∨ channel.type = .sslClient ∧ s.shutdownThrows handle = true) ∨
      channelClose s handle channel = s.setChannel handle { channel with conn := false } ∧
        channel.conn = true ∧ channel.type = .sslClient ∧ s.shutdownThrows handle = false ∨
      channelClose s handle channel =
          { s.setChannel handle { channel with conn := false } with
            posted := s.posted ++ [(handle, channel.eventCb)] } ∧
        channel.conn = true ∧ channel.type ≠ .sslClient := by
  unfold channelClose
  by_cases down : channel.conn = false
  · rw [if_pos down]
    exact .inl ⟨rfl, .inl down⟩
  rw [if_neg down]
  have up : channel.conn = true := Bool.of_not_eq_false down
  cases type : channel.type with
  | sslClient =>
    by_cases throws : s.shutdownThrows handle = true
    · exact .inl ⟨if_pos throws, .inr ⟨rfl, throws⟩⟩
    · exact .inr (.inl ⟨if_neg throws, up, rfl, Bool.eq_false_iff.mpr throws⟩)
  | tcpClient => exact .inr (.inr ⟨rfl, up, nofun⟩)
  | tcpServer => exact .inr (.inr ⟨rfl, up, nofun⟩)
  | sslServer => exact .inr (.inr ⟨rfl, up, nofun⟩)

/-- Closing takes a channel out of the map, changes that channel object only and posts its event, if
anything. -/
theorem close_frame (s : State) (handle : Handle) :
    ∃ channels posted, close s handle =
        { s with channelMap := s.channelMap.filter (· != handle), channels, posted } ∧
      (∀ other, handle ≠ other → channels other = s.channels other) ∧
      (posted = s.posted ∨ ∃ cb, posted = s.posted ++ [(handle, cb)]) := by
  by_cases present : handle ∈ s.channelMap
  · rw [close, if_pos present]
    cases s.channels handle with
    | none => exact ⟨s.channels, s.posted, rfl, fun _ _ => rfl, .inl rfl⟩
    | some channel =>
      simp only
      rcases channelClose_cases { s with channelMap := s.channelMap.filter (· != handle) } handle
        channel with ⟨same, _⟩ | ⟨same, _⟩ | ⟨same, _⟩ <;> rw [same]
      · exact ⟨s.channels, s.posted, rfl, fun _ _ => rfl, .inl rfl⟩
      · exact ⟨_, s.posted, rfl, fun _ different => setChannel_other different _, .inl rfl⟩
      · exact ⟨_, _, rfl, fun _ different => setChannel_other different _, .inr ⟨_, rfl⟩⟩
  · have whole : s.channelMap.filter (· != handle) = s.channelMap := by
      rw [List.filter_eq_self]
      intro other member
      simpa using fun same : other = handle => present (same ▸ member)
    rw [close, if_neg present, whole]
    exact ⟨s.channels, s.posted, rfl, fun _ _ => rfl, .inl rfl⟩

/-- A close takes its own channel out of the map, and no other one. -/
theorem close_channelMap (s : State) (handle : Handle) :
    (close s handle).channelMap = s.channelMap.filter (· != handle) := by
  obtain ⟨_, _, same, _⟩ := close_frame s handle
  rw [same]

/-- Closing another channel leaves this one. -/
theorem close_other {s : State} {handle other : Handle} (different : other ≠ handle) :
    (close s other).channels handle = s.channels handle := by
  obtain ⟨_, _, same, others, _⟩ := close_frame s other
  rw [same]
  exact others handle different

/-- A close that is delivered posts its event. -/
theorem channelClose_posts {s : State} {handle : Handle} {channel : Channel}
    (conn : channel.conn = true) (type : channel.type ≠ .sslClient)
    (cb : channel.eventCb = .http) :
    (handle, EventCb.http) ∈ (channelClose s handle channel).posted := by
  rcases channelClose_cases s handle channel with
    ⟨_, down | ssl⟩ | ⟨_, _, ssl, _⟩ | ⟨same, _⟩
  · rw [conn] at down
    cases down
  · exact absurd ssl.1 type
  · exact absurd ssl type
  · rw [same, ← cb]
    exact List.mem_append_right _ (List.mem_singleton_self _)

/-- A close takes its own channel out of the map, keeps the sessions and drops no event. -/
theorem close_maps (s : State) (handle : Handle) :
    (∀ other ∈ s.channelMap, other ≠ handle → other ∈ (close s handle).channelMap) ∧
      (close s handle).sessionMap = s.sessionMap ∧
      ∀ event ∈ s.posted, event ∈ (close s handle).posted := by
  obtain ⟨_, _, same, _, posts⟩ := close_frame s handle
  rw [same]
  refine ⟨fun other member different => ?_, rfl, fun event member => ?_⟩
  · exact List.mem_filter.mpr ⟨member, bne_iff_ne.mpr different⟩
  · rcases posts with rfl | ⟨_, rfl⟩
    · exact member
    · exact List.mem_append_left _ member

/-- A clean close keeps sessions and channels paired. -/
theorem Paired.close {s : State} {handle : Handle} (paired : Paired s)
    (clean : CleanClose s handle) : Paired (close s handle) := by
  obtain ⟨map, sessions, posted⟩ := close_maps s handle
  intro other member
  rw [sessions] at member
  rcases paired other member with present | event
  · by_cases same : other = handle
    · subst same
      obtain ⟨channel, found, conn, type, cb⟩ := clean present member
      right
      simp only [Service.close, present, if_true, found]
      exact channelClose_posts conn type cb
    · exact .inl (map other present same)
  · exact .inr (posted _ event)

/-- One operation keeps sessions and channels paired. -/
theorem Paired.perform {s : State} {op : Op} (paired : Paired s) (keeps : Keeps s op) :
    Paired (perform s op) := by
  cases op with
  | addChannel handle channel =>
    intro other member
    rcases paired other member with present | event
    · exact .inl (List.mem_cons_of_mem _ present)
    · exact .inr event
  | setEventCb handle cb =>
    obtain ⟨map, sessions, posted⟩ := setEventCb_maps s handle cb
    simpa only [Service.perform, Paired, map, sessions, posted] using paired
  | addSession handle =>
    intro other member
    rcases List.mem_cons.mp member with rfl | member
    · exact .inl keeps
    · exact paired other member
  | delSession handle =>
    intro other member
    exact paired other (List.mem_filter.mp member).1
  | setConn handle =>
    simp only [Service.perform]
    split
    · exact paired
    · exact paired
  | close handle => exact paired.close keeps
  | unpost event =>
    intro other member
    rcases paired other member with present | posted
    · exact .inl present
    · refine .inr ((List.mem_erase_of_ne ?_).mpr posted)
      rintro rfl
      exact keeps rfl member
  | release handle => exact paired

/-- What a list of operations needs, each where it is performed. -/
def KeepsAll : State → List Op → Prop
  | _, [] => True
  | s, op :: ops => Keeps s op ∧ KeepsAll (perform s op) ops

/-- Operations in order keep sessions and channels paired. -/
theorem Paired.performAll {s : State} {ops : List Op} (paired : Paired s)
    (keeps : KeepsAll s ops) : Paired (performAll s ops) := by
  induction ops generalizing s with
  | nil => exact paired
  | cons op ops ih => exact ih (paired.perform keeps.1) keeps.2

/-- Operations that add no session and take no posted event. -/
def Op.Plain : Op → Prop
  | .addSession _ | .unpost _ => False
  | _ => True

/-- Plain operations need nothing but clean closes. -/
theorem keepsAll_of_plain {s : State} {ops : List Op} (plain : ∀ op ∈ ops, op.Plain)
    (clean : CleanOps s ops) : KeepsAll s ops := by
  induction ops generalizing s with
  | nil => trivial
  | cons op ops ih =>
    refine ⟨?_, ih (fun other member => plain other (List.mem_cons_of_mem _ member)) clean.2⟩
    have first := plain op List.mem_cons_self
    cases op with
    | close handle => exact clean.1 handle rfl
    | addSession handle => exact first.elim
    | unpost event => exact first.elim
    | _ => trivial

/-- The calls of a callback are plain. -/
theorem calls_plain (calls : List Call) : ∀ op ∈ calls.map Call.op, op.Plain := by
  intro op member
  obtain ⟨call, _, rfl⟩ := List.mem_map.mp member
  cases call <;> trivial

/-- What an unknown handle leads to is plain. -/
theorem unknownHandle_plain (handle : Handle) : ∀ op ∈ unknownHandle handle, op.Plain := by
  simp [unknownHandle, Op.Plain]

/-- An event is ignored, handled for its session, or finds none. -/
theorem raise_cases (s : State) (handle : Handle) (known : List Op) :
    raise s handle known = [] ∨ raise s handle known = known ∨
      raise s handle known = unknownHandle handle := by
  unfold raise eventCb
  split
  · split <;> simp
  · simp

/-- An event whose known handling is plain is plain. -/
theorem raise_plain {s : State} {handle : Handle} {known : List Op}
    (plain : ∀ op ∈ known, op.Plain) : ∀ op ∈ raise s handle known, op.Plain := by
  rcases raise_cases s handle known with same | same | same <;> rw [same]
  · simp
  · exact plain
  · exact unknownHandle_plain handle

/-- What follows an error is plain. -/
theorem errorTail_plain (s : State) (handle : Handle) : ∀ op ∈ errorTail s handle, op.Plain := by
  unfold errorTail
  split <;> simp [Op.Plain]

/-- A new channel and its session keep the maps paired whatever plain operations follow. -/
theorem keepsAll_session {s : State} {handle : Handle} {cb : EventCb} {ops : List Op}
    (present : handle ∈ s.channelMap) (plain : ∀ op ∈ ops, op.Plain)
    (clean : CleanOps s (.setEventCb handle cb :: .addSession handle :: ops)) :
    KeepsAll s (.setEventCb handle cb :: .addSession handle :: ops) := by
  refine ⟨trivial, ?_, keepsAll_of_plain plain clean.2.2⟩
  show handle ∈ (setEventCb s handle cb).channelMap
  rw [(setEventCb_maps s handle cb).1]
  exact present

/-- A clean step needs nothing more. -/
theorem plan_keeps {s : State} {label : Label} (clean : CleanStep s label) :
    KeepsAll s (plan s label) := by
  unfold CleanStep at clean
  cases label with
  | start type outcome =>
    cases outcome with
    | addFails stale => exact keepsAll_of_plain (by simp [plan, Op.Plain]) clean
    | sessionFails => exact keepsAll_of_plain (by simp [plan, Op.Plain]) clean
    | refused =>
      exact ⟨trivial, keepsAll_session List.mem_cons_self (by simp [Op.Plain]) clean.2⟩
    | started => exact ⟨trivial, keepsAll_session List.mem_cons_self (by simp) clean.2⟩
  | connected handle calls =>
    exact ⟨trivial, keepsAll_of_plain (raise_plain (calls_plain calls)) clean.2⟩
  | accept server snapshot ready added calls =>
    refine ⟨trivial, ?_⟩
    obtain ⟨_, clean⟩ := clean
    rcases raise_cases s server ((if added then [.setEventCb s.next .http, .addSession s.next]
        else [.close server]) ++ calls.map Call.op) with same | same | same <;>
      rw [same] at clean ⊢
    · trivial
    · cases added with
      | true => exact keepsAll_session List.mem_cons_self (calls_plain calls) clean
      | false =>
        refine keepsAll_of_plain (fun op member => ?_) clean
        rcases List.mem_append.mp member with early | late
        · simp only [Bool.false_eq_true, if_false, List.mem_singleton] at early
          subst early
          trivial
        · exact calls_plain calls op late
    · exact keepsAll_of_plain (unknownHandle_plain server) clean
  | receive handle calls => exact keepsAll_of_plain (raise_plain (calls_plain calls)) clean
  | fail handle calls =>
    refine keepsAll_of_plain (fun op member => ?_) clean
    rcases List.mem_append.mp member with early | late
    · exact raise_plain (calls_plain calls) op early
    · exact errorTail_plain s handle op late
  | close handle => exact keepsAll_of_plain (by simp [plan, Op.Plain]) clean
  | released handle => exact keepsAll_of_plain (by simp [plan, Op.Plain]) clean
  | runPosted event calls =>
    obtain ⟨handle, cb⟩ := event
    cases cb with
    | unset => exact ⟨nofun, trivial⟩
    | base => exact ⟨nofun, trivial⟩
    | http =>
      simp only [plan] at clean ⊢
      by_cases known : handle ∈ s.sessionMap
      · rw [if_pos known] at clean ⊢
        refine ⟨trivial, ?_, keepsAll_of_plain (calls_plain calls) clean.2.2⟩
        simp [Keeps, perform]
      · rw [if_neg known] at clean ⊢
        exact ⟨fun _ => known, keepsAll_of_plain (unknownHandle_plain handle) clean.2⟩

/-- In every run whose closes are all clean, a state without posted events has no session whose
channel is gone. -/
theorem noOrphans_of_clean (s : State) (reached : services.ReachableWith CleanStep s)
    (quiet : s.posted = []) : NoOrphans s := by
  have paired : Paired s := by
    refine reached.invariant ?_ ?_
    · rintro _ ⟨_, rfl⟩
      simp [Paired]
    · rintro first label _ paired clean ⟨_, rfl⟩
      exact paired.performAll (plan_keeps clean)
  intro handle member
  rcases paired handle member with present | event
  · exact present
  · rw [quiet] at event
    cases event

/-- The state some events leave behind. -/
def afterAll (labels : List Label) : State := labels.foldl after {}

/-- A connection the application closes while it is open, and its `CLOSED` event. -/
def closedByApplication : List Label :=
  [.start .tcpClient .started, .connected 0 [], .receive 0 [.close 0], .runPosted (0, .http) []]

/-- A connection that the application closed leaves no session. -/
theorem noOrphans_closedByApplication : NoOrphans (afterAll closedByApplication) := by
  refine noOrphans_of_clean _ ⟨{}, closedByApplication, ⟨_, rfl⟩, ?_⟩ (by decide)
  refine .cons ?_ ⟨trivial, rfl⟩ (.cons ?_ ⟨⟨_, rfl, .inl rfl⟩, rfl⟩
    (.cons ?_ ⟨rfl, rfl⟩ (.cons ?_ ⟨List.mem_cons_self, rfl⟩ (.nil _))))
  · exact ⟨nofun, nofun, nofun, trivial⟩
  · exact ⟨nofun, trivial⟩
  · refine ⟨fun handle same _ _ => ?_, trivial⟩
    cases same
    exact ⟨_, rfl, rfl, by decide, rfl⟩
  · exact ⟨nofun, nofun, trivial⟩

/-- A connection that fails while the application does nothing. -/
def failedConnection : List Label :=
  [.start .tcpClient .started, .connected 0 [], .fail 0 [], .runPosted (0, .base) []]

/-- The session of a connection that failed stays for good: nothing is posted any more, and its
channel is gone. -/
theorem orphan_of_failedConnection :
    services.Reachable (afterAll failedConnection) ∧ (afterAll failedConnection).posted = [] ∧
      ¬ NoOrphans (afterAll failedConnection) := by
  refine ⟨⟨{}, failedConnection, ⟨_, rfl⟩, ?_⟩, by decide, fun kept => ?_⟩
  · exact .cons trivial ⟨trivial, rfl⟩ (.cons trivial ⟨⟨_, rfl, .inl rfl⟩, rfl⟩
      (.cons trivial ⟨rfl, rfl⟩ (.cons trivial ⟨List.mem_cons_self, rfl⟩ (.nil _))))
  · exact absurd (kept 0 (by decide)) (by decide)

end Hnw.Service
