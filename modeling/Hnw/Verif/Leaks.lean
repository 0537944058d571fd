import Hnw.Verif.Lifecycle

/-!
# What is left behind

An error of a connection with a session leaves the session in `session_map_` for good, and a
connection that is established after its close is never closed. Where no connect completes too
late, every connected channel is in `channel_map_`, where a close finds it.
-/

namespace Hnw.Service

open Hnw.Theory

variable {s next last : State} {handle : Handle} {label : Label} {labels : List Label}

/-! ## Sessions that stay -/

/-- A session whose channel is gone, with nothing on the way that would end it. -/
structure Orphan (handle : Handle) (s : State) : Prop where
  /-- The session is in the session map. -/
  session : handle ∈ s.sessionMap
  /-- The channel is gone. -/
  gone : Gone handle s
  /-- The channel calls the HTTP service no more. -/
  silent : callback handle s ≠ some .http
  /-- No `CLOSED` that reaches the HTTP service is on the way. -/
  posted : (handle, .http) ∉ s.posted

/-- Operations without `del_session` of a handle keep its session. -/
theorem performAll_session {ops : List Op} (present : handle ∈ s.sessionMap)
    (kept : .delSession handle ∉ ops) : handle ∈ (performAll s ops).sessionMap := by
  induction ops generalizing s with
  | nil => exact present
  | cons op ops ih =>
    have rest := List.not_mem_of_not_mem_cons kept
    refine @ih (perform s op) ?_ rest
    cases op with
    | addChannel other channel => exact present
    | setEventCb other cb =>
      rw [perform, (setEventCb_maps s other cb).2.1]
      exact present
    | addSession other => exact List.mem_cons_of_mem _ present
    | delSession other =>
      have different : handle ≠ other := by
        rintro rfl
        exact kept List.mem_cons_self
      exact List.mem_filter.mpr ⟨present, by simpa using different⟩
    | setConn other =>
      rw [perform]
      split
      · exact present
      · exact present
    | close other =>
      rw [perform, (close_maps s other).2.1]
      exact present
    | unpost event => exact present
    | release other => exact present

/-- No handler deletes a session that is there, but that of a `CLOSED` event of it. -/
theorem plan_session (present : handle ∈ s.sessionMap)
    (other : ∀ calls, label ≠ .runPosted (handle, .http) calls) :
    .delSession handle ∉ plan s label := by
  intro member
  rcases plan_planned s label _ member with absent | ⟨calls, same⟩
  · exact absent present
  · exact other calls same

/-- A step keeps a session that nothing can end. -/
theorem Orphan.step (orphan : Orphan handle s) (step : services.step s label next) :
    Orphan handle next := by
  have stays := step_stays step orphan.gone
  obtain ⟨enabled, rfl⟩ := step
  refine ⟨performAll_session orphan.session (plan_session orphan.session ?_), stays.gone, ?_, ?_⟩
  · rintro calls rfl
    exact orphan.posted enabled
  · exact fun calls => orphan.silent (stays.callback calls)
  · intro member
    exact orphan.posted (stays.posted _ member rfl)

/-- A session that nothing can end stays in every run. -/
theorem Orphan.run {guard : State → Label → Prop} (orphan : Orphan handle s)
    (run : services.RunWith guard s labels last) : Orphan handle last :=
  run.invariant (fun _ _ _ orphan _ step => orphan.step step) orphan

/-- In a reachable state at most one `CLOSED` is left for a handle. -/
theorem reachable_stock (reached : services.Reachable s) (handle : Handle) :
    stock handle s ≤ 1 := by
  obtain ⟨_, labels, starts, run⟩ := reached
  exact Nat.le_of_add_left_le (run_stock starts run handle)

/-- A channel that is in the map was made, and no `CLOSED` of it is on the way. -/
theorem listed_made (reached : services.Reachable s) (listed : handle ∈ s.channelMap) :
    handle < s.next ∧ ∀ event ∈ s.posted, event.1 ≠ handle := by
  have small := reachable_stock reached handle
  rw [stock, if_pos listed] at small
  constructor
  · by_contra unmade
    rw [if_pos (Nat.le_of_not_lt unmade)] at small
    omega
  · rintro event member rfl
    have none : (s.posted.map Prod.fst).count event.1 = 0 := by omega
    exact List.count_eq_zero.mp none (List.mem_map_of_mem member)

/-- A session whose channel is in the map, with no `CLOSED` on the way. -/
structure Listed (handle : Handle) (s : State) : Prop where
  /-- The session is in the session map. -/
  session : handle ∈ s.sessionMap
  /-- The channel was made. -/
  made : handle < s.next
  /-- The channel is in the map. -/
  listed : handle ∈ s.channelMap
  /-- The object exists. -/
  found : ∃ channel, s.channels handle = some channel
  /-- No `CLOSED` that reaches the HTTP service is on the way. -/
  posted : (handle, .http) ∉ s.posted

/-- A new callback leaves a session's channel in the map. -/
theorem Listed.setEventCb (listed : Listed handle s) (other : Handle) (cb : EventCb) :
    Listed handle (setEventCb s other cb) := by
  obtain ⟨map, sessions, posted⟩ := setEventCb_maps s other cb
  refine ⟨by rw [sessions]; exact listed.session, by rw [setEventCb_next]; exact listed.made,
    by rw [map]; exact listed.listed, ?_, by rw [posted]; exact listed.posted⟩
  obtain ⟨channel, found⟩ := listed.found
  by_cases here : other = handle
  · subst here
    rw [Service.setEventCb, if_pos listed.listed, found]
    exact ⟨_, if_pos rfl⟩
  · exact ⟨channel, (setEventCb_other here cb).trans found⟩

/-- Closing another channel leaves a session's channel in the map. -/
theorem Listed.close (listed : Listed handle s) {other : Handle} (different : other ≠ handle) :
    Listed handle (close s other) := by
  obtain ⟨channel, found⟩ := listed.found
  have kept := (close_other (s := s) different).trans found
  rcases close_cases s other with same | ⟨_, posted⟩
  · rw [same]
    exact listed
  · refine ⟨by rw [(close_maps s other).2.1]; exact listed.session,
      by rw [close_next]; exact listed.made, ?_, ⟨channel, kept⟩, ?_⟩
    · rw [close_channelMap]
      exact List.mem_filter.mpr ⟨listed.listed, by simpa using Ne.symm different⟩
    · intro member
      rcases posted with posted | ⟨cb, posted⟩
      · rw [posted] at member
        exact listed.posted member
      · rw [posted] at member
        rcases List.mem_append.mp member with before | last
        · exact listed.posted before
        · exact different (Prod.mk.inj (List.mem_singleton.mp last)).1.symm

/-- The calls of an application that closes other channels leave a session's channel in the map. -/
theorem Listed.calls (listed : Listed handle s) {calls : List Call}
    (open_ : .close handle ∉ calls) : Listed handle (performAll s (calls.map Call.op)) := by
  induction calls generalizing s with
  | nil => exact listed
  | cons call calls ih =>
    have rest := List.not_mem_of_not_mem_cons open_
    refine @ih (perform s call.op) ?_ rest
    cases call with
    | close other =>
      apply listed.close
      rintro rfl
      exact open_ List.mem_cons_self
    | dropCb other => exact listed.setEventCb other .base

/-- After an error, a session's channel is gone and nothing can end the session. -/
theorem Listed.errorTail (listed : Listed handle s) :
    Orphan handle (performAll s [.setEventCb handle .base, .close handle]) := by
  have set := listed.setEventCb handle .base
  obtain ⟨channel, found⟩ := listed.found
  have cb : (Service.setEventCb s handle .base).channels handle =
      some { channel with eventCb := .base } := by
    rw [Service.setEventCb, if_pos listed.listed, found]
    exact if_pos rfl
  show Orphan handle (Service.close (Service.setEventCb s handle .base) handle)
  generalize Service.setEventCb s handle .base = later at set cb
  have out : handle ∉ later.channelMap.filter (· != handle) := by simp
  rw [Service.close, if_pos set.listed, cb]
  simp only
  rcases channelClose_cases
    { later with channelMap := later.channelMap.filter (· != handle) } handle
    { channel with eventCb := .base } with ⟨same, _⟩ | ⟨same, _⟩ | ⟨same, _⟩ <;> rw [same]
  · exact ⟨set.session, ⟨set.made, out⟩, by simp [callback, cb], set.posted⟩
  · exact ⟨set.session, ⟨set.made, out⟩, by simp [callback, State.setChannel], set.posted⟩
  · refine ⟨set.session, ⟨set.made, out⟩, by simp [callback, State.setChannel], ?_⟩
    intro member
    rcases List.mem_append.mp member with before | last
    · exact set.posted before
    · cases (Prod.mk.inj (List.mem_singleton.mp last)).2

/-- An error of a connection with a session leaves the session behind for good, unless the
application closes the connection while it is told: in every run from there, the session stays in
`session_map_` and the channel out of `channel_map_`. -/
theorem failed_leaks (reached : services.Reachable s) (listed : handle ∈ s.channelMap)
    (session : handle ∈ s.sessionMap) (cb : callback handle s = some .http) {calls : List Call}
    (open_ : .close handle ∉ calls)
    (run : services.Run (after s (.fail handle calls)) labels last) :
    handle ∈ last.sessionMap ∧ handle ∉ last.channelMap := by
  obtain ⟨made, apart⟩ := listed_made reached listed
  obtain ⟨channel, found, _⟩ := Option.map_eq_some_iff.mp cb
  have begins : Listed handle s :=
    ⟨session, made, listed, ⟨channel, found⟩, fun member => apart _ member rfl⟩
  have raised : raise s handle (calls.map Call.op) = calls.map Call.op := by
    have same : (s.channels handle).map Channel.eventCb = some .http := cb
    rw [raise, same]
    exact if_pos session
  have tail : errorTail s handle = [.setEventCb handle .base, .close handle] := by
    have same : (s.channels handle).map Channel.eventCb = some .http := cb
    rw [Service.errorTail, same]
  have orphan : Orphan handle (after s (.fail handle calls)) := by
    rw [after, plan, raised, tail, performAll, List.foldl_append]
    exact (begins.calls open_).errorTail
  have stays := orphan.run run
  exact ⟨stays.session, stays.gone.2⟩

/-- The connection that fails leaves its session. -/
theorem failed_leaks_failedConnection :
    0 ∈ (afterAll failedConnection).sessionMap ∧ 0 ∉ (afterAll failedConnection).channelMap := by
  have reached : services.Reachable (afterAll [.start .tcpClient .started, .connected 0 []]) :=
    ⟨{}, [.start .tcpClient .started, .connected 0 []], ⟨_, rfl⟩, .cons trivial ⟨trivial, rfl⟩
      (.cons trivial ⟨⟨_, rfl, .inl rfl⟩, rfl⟩ (.nil _))⟩
  have open_ : Call.close 0 ∉ ([] : List Call) := List.not_mem_nil
  have run : services.Run (after (afterAll [.start .tcpClient .started, .connected 0 []])
      (.fail 0 [])) [.runPosted (0, .base) []] (afterAll failedConnection) :=
    .cons trivial ⟨List.mem_cons_self, rfl⟩ (.nil _)
  exact failed_leaks reached (by decide) (by decide) (by decide) open_ run

/-! ## A connect that comes too late -/

/-- A connection that is established after its channel left the map is never closed: in every run
from there a close of its handle does nothing, and it is connected, unless it is an SSL connection
whose object was destroyed. The destructor of a TCP connection does not return then. -/
theorem late_connect_open {calls : List Call} (gone : Gone handle s)
    (step : services.step s (.connected handle calls) next)
    (run : services.Run next labels last) :
    close last handle = last ∧ ∃ channel, s.channels handle = some channel ∧
      (connected handle last = true ∨
        channel.type = .sslClient ∧ last.channels handle = none) := by
  obtain ⟨⟨channel, found, _⟩, rfl⟩ := step
  have set : perform s (.setConn handle) = s.setChannel handle { channel with conn := true } := by
    rw [perform, found]
  have first : Gone handle (perform s (.setConn handle)) := by
    rw [set]
    exact gone
  have lives : .release handle ∉ plan s (.connected handle calls) := by
    intro member
    cases plan_planned s (.connected handle calls) _ member
  have rest : Stays handle (perform s (.setConn handle)) (after s (.connected handle calls)) :=
    performAll_stays first
      (List.forall_mem_cons.mp (@plan_add s (.connected handle calls) handle gone.1)).2
      (List.not_mem_of_not_mem_cons lives)
  have later := rest.trans (run_stays run rest.gone)
  have up : (perform s (.setConn handle)).channels handle = some { channel with conn := true } := by
    rw [set]
    exact if_pos rfl
  refine ⟨by rw [close, if_neg later.gone.2], channel, found, ?_⟩
  cases lasts : last.channels handle with
  | none =>
    rcases later.released lasts _ up with down | ssl
    · cases down
    · exact .inr ⟨ssl, rfl⟩
  | some after =>
    obtain ⟨before, there, kept⟩ := later.kept after lasts
    rw [up] at there
    cases there
    left
    rw [connected, lasts]
    exact kept.conn rfl

/-- A connection that the application closes while it is being established, and once more. -/
theorem late_connect_open_closed :
    connected 0 (afterAll [.start .tcpClient .started, .close 0, .connected 0 [], .close 0]) =
      true := by
  have gone : Gone 0 (afterAll [.start .tcpClient .started, .close 0]) :=
    ⟨by decide, by decide⟩
  have step : services.step (afterAll [.start .tcpClient .started, .close 0]) (.connected 0 [])
      (afterAll [.start .tcpClient .started, .close 0, .connected 0 []]) :=
    ⟨⟨_, rfl, .inl rfl⟩, rfl⟩
  have run : services.Run (afterAll [.start .tcpClient .started, .close 0, .connected 0 []])
      [.close 0] (afterAll [.start .tcpClient .started, .close 0, .connected 0 [], .close 0]) :=
    .cons trivial ⟨trivial, rfl⟩ (.nil _)
  obtain ⟨_, channel, found, up | ⟨ssl, _⟩⟩ := late_connect_open gone step run
  · exact up
  · cases found
    cases ssl

/-- A connect completes while its channel is in the map. -/
def ConnectsListed (s : State) (label : Label) : Prop :=
  ∀ handle calls, label = .connected handle calls → handle ∈ s.channelMap

/-- The channel is an SSL connection whose shutdown throws. -/
def Stuck (handle : Handle) (s : State) : Prop :=
  s.shutdownThrows handle = true ∧
    (s.channels handle).map Channel.type = some .sslClient

/-- Every connected channel is in the map, where a close of its handle finds it, or is an SSL
connection whose shutdown throws. -/
def ConnectedListed (s : State) : Prop :=
  ∀ handle, connected handle s = true → handle ∈ s.channelMap ∨ Stuck handle s

/-- A closed channel is not connected, unless its shutdown throws. -/
theorem close_connected (s : State) (handle : Handle) (listed : handle ∈ s.channelMap)
    (up : connected handle (close s handle) = true) : Stuck handle (close s handle) := by
  rw [close, if_pos listed] at up ⊢
  cases found : s.channels handle with
  | none => simp [connected, found] at up
  | some channel =>
    simp only [found] at up ⊢
    rcases channelClose_cases { s with channelMap := s.channelMap.filter (· != handle) } handle
      channel with ⟨same, down | ⟨ssl, throws⟩⟩ | ⟨same, _⟩ | ⟨same, _⟩ <;> rw [same] at up ⊢
    · simp [connected, found, down] at up
    · exact ⟨throws, by rw [found, Option.map_some, ssl]⟩
    · simp [connected, State.setChannel] at up
    · simp [connected, State.setChannel] at up

/-- Installing a callback changes no shutdown. -/
theorem setEventCb_shutdownThrows (s : State) (other : Handle) (cb : EventCb) :
    (setEventCb s other cb).shutdownThrows = s.shutdownThrows := by
  obtain ⟨_, same, _⟩ := setEventCb_frame s other cb
  rw [same]

/-- Closing changes no shutdown. -/
theorem close_shutdownThrows (s : State) (other : Handle) :
    (close s other).shutdownThrows = s.shutdownThrows := by
  obtain ⟨_, _, same, _⟩ := close_frame s other
  rw [same]

/-- A channel whose object is not touched stays connected and in the map, or stuck. -/
theorem ConnectedListed.of_same (kept : ConnectedListed s)
    (same : next.channels handle = s.channels handle)
    (throws : next.shutdownThrows = s.shutdownThrows)
    (listed : handle ∈ s.channelMap → handle ∈ next.channelMap)
    (up : connected handle next = true) : handle ∈ next.channelMap ∨ Stuck handle next := by
  rw [connected, same] at up
  rw [Stuck, throws, same]
  exact (kept handle up).imp_left listed

/-- An operation keeps the connected channels in the map, where a connect finds its channel
there. -/
theorem ConnectedListed.perform {op : Op} (kept : ConnectedListed s)
    (listed : ∀ handle, op = .setConn handle → handle ∈ s.channelMap) :
    ConnectedListed (perform s op) := by
  intro handle up
  cases op with
  | addChannel other channel =>
    by_cases here : other = handle
    · exact .inl (List.mem_cons.mpr (.inl here.symm))
    · exact kept.of_same (@setChannel_other s handle other here channel) rfl
        (List.mem_cons_of_mem _) up
  | setEventCb other cb =>
    rw [Service.perform] at up ⊢
    have map := (setEventCb_maps s other cb).1
    by_cases here : other = handle
    · subst here
      by_cases present : other ∈ s.channelMap
      · exact .inl (map ▸ present)
      · have same : Service.setEventCb s other cb = s := if_neg present
        rw [same] at up ⊢
        exact kept other up
    · exact kept.of_same (setEventCb_other here cb) (setEventCb_shutdownThrows s other cb)
        (fun member => map ▸ member) up
  | addSession other => exact kept handle up
  | delSession other => exact kept handle up
  | setConn other =>
    rw [Service.perform] at up ⊢
    cases found : s.channels other with
    | none =>
      rw [found] at up
      exact kept handle up
    | some channel =>
      rw [found] at up
      by_cases here : other = handle
      · subst here
        exact .inl (listed other rfl)
      · exact kept.of_same (setChannel_other here _) rfl id up
  | close other =>
    rw [Service.perform] at up ⊢
    by_cases here : other = handle
    · subst here
      by_cases present : other ∈ s.channelMap
      · exact .inr (close_connected s other present up)
      · rw [close, if_neg present] at up ⊢
        exact kept other up
    · exact kept.of_same (close_other here) (close_shutdownThrows s other)
        (fun member => (close_maps s other).1 handle member (Ne.symm here)) up
  | unpost event => exact kept handle up
  | release other =>
    by_cases here : other = handle
    · simp [connected, Service.perform, here] at up
    · exact kept.of_same (if_neg (Ne.symm here)) rfl id up

/-- Operations in order keep the connected channels in the map, where they connect none. -/
theorem ConnectedListed.performAll {ops : List Op} (kept : ConnectedListed s)
    (none : ∀ handle, .setConn handle ∉ ops) : ConnectedListed (performAll s ops) := by
  induction ops generalizing s with
  | nil => exact kept
  | cons op ops ih =>
    refine ih (kept.perform ?_) fun handle member => none handle (List.mem_cons_of_mem _ member)
    rintro handle rfl
    exact absurd List.mem_cons_self (none handle)

/-- Only the handler of a connect connects a channel, and does so first. -/
theorem plan_connects (s : State) (label : Label) :
    (∀ handle, .setConn handle ∉ plan s label) ∨
      ∃ handle calls rest, label = .connected handle calls ∧
        plan s label = .setConn handle :: rest ∧ ∀ other, .setConn other ∉ rest := by
  have calls_none : ∀ (calls : List Call) handle, .setConn handle ∉ calls.map Call.op := by
    intro calls handle member
    obtain ⟨call, _, same⟩ := List.mem_map.mp member
    cases call with
    | close other => cases same
    | dropCb other => cases same
  have raise_none : ∀ (handle : Handle) (known : List Op), (∀ other, .setConn other ∉ known) →
      ∀ other, .setConn other ∉ raise s handle known := by
    intro handle known none other
    rcases raise_cases s handle known with same | same | same <;> rw [same]
    · simp
    · exact none other
    · simp [unknownHandle]
  cases label with
  | start type outcome => cases outcome <;> simp [plan]
  | connected handle calls =>
    exact .inr ⟨handle, calls, _, rfl, rfl, raise_none handle _ (calls_none calls)⟩
  | accept server snapshot ready added calls =>
    refine .inl fun handle => ?_
    have none := raise_none server ((if added then
      [.setEventCb s.next .http, .addSession s.next] else [.close server]) ++ calls.map Call.op)
      (by
        intro other
        rw [List.mem_append, not_or]
        refine ⟨?_, calls_none calls other⟩
        cases added <;> simp) handle
    simpa [plan] using none
  | receive handle calls => exact .inl (raise_none handle _ (calls_none calls))
  | fail handle calls =>
    refine .inl fun other => ?_
    rw [plan, List.mem_append, not_or]
    refine ⟨raise_none handle _ (calls_none calls) other, ?_⟩
    unfold errorTail
    split
    all_goals simp
  | close handle => exact .inl (by simp [plan])
  | released handle => exact .inl (by simp [plan])
  | runPosted event calls =>
    refine .inl fun other => ?_
    simp only [plan]
    split
    · split
      · simpa using calls_none calls other
      · simp [unknownHandle]
    · simp

/-- In every run whose connects complete while their channel is in the map, every connected
channel is in the map, or is an SSL connection whose shutdown throws. -/
theorem connected_listed (reached : services.ReachableWith ConnectsListed s) :
    ConnectedListed s := by
  apply reached.invariant
  · rintro _ ⟨_, rfl⟩ handle up
    cases up
  · rintro first label _ kept listed ⟨_, rfl⟩
    rcases plan_connects first label with none | ⟨handle, calls, rest, rfl, shape, none⟩
    · exact kept.performAll none
    · rw [after, shape]
      apply ConnectedListed.performAll _ none
      apply kept.perform
      rintro other ⟨⟩
      exact listed handle calls rfl

/-- A connection that was established and is in the map. -/
theorem connected_listed_established :
    connected 0 (afterAll [.start .tcpClient .started, .connected 0 []]) = true ∧
      0 ∈ (afterAll [.start .tcpClient .started, .connected 0 []]).channelMap := by
  have reached : services.ReachableWith ConnectsListed
      (afterAll [.start .tcpClient .started, .connected 0 []]) := by
    refine ⟨{}, [.start .tcpClient .started, .connected 0 []], ⟨_, rfl⟩,
      .cons nofun ⟨trivial, rfl⟩ (.cons ?_ ⟨⟨_, rfl, .inl rfl⟩, rfl⟩ (.nil _))⟩
    rintro handle calls ⟨⟩
    exact List.mem_cons_self
  exact ⟨by decide, (connected_listed reached 0 (by decide)).resolve_right fun stuck =>
    absurd stuck.1 (by decide)⟩

end Hnw.Service
