import Hnw.Verif.Answers

/-!
# The life of a handle

What every run of the two services makes of one handle. New channels get new handles, `CLOSED` is
told at most once for a handle, and a channel that has left `channel_map_` never comes back: its
callback stays, it stays connected, and nothing more is posted for it.
-/

namespace Hnw.Service

open Hnw.Theory

variable {s next last : State} {handle : Handle} {label : Label} {labels : List Label}

/-! ## New handles -/

/-- An operation that makes a channel uses the next handle. -/
def MakesNext (s : State) (op : Op) : Prop :=
  ∀ handle channel, op = .addChannel handle channel → handle = s.next

/-- Every operation that makes a channel uses the handle that is the next one then. -/
def MakesNextAll : State → List Op → Prop
  | _, [] => True
  | s, op :: ops => MakesNext s op ∧ MakesNextAll (perform s op) ops

/-- An operation that makes no channel. -/
def Op.MakesNone : Op → Prop
  | .addChannel _ _ => False
  | _ => True

/-- Operations that make no channel use no handle. -/
theorem makesNextAll_of {ops : List Op} (none : ∀ op ∈ ops, op.MakesNone) : MakesNextAll s ops := by
  induction ops generalizing s with
  | nil => trivial
  | cons op ops ih =>
    refine ⟨?_, ih fun other member => none other (List.mem_cons_of_mem _ member)⟩
    rintro handle channel rfl
    exact (none _ List.mem_cons_self).elim

/-- The calls of an application make no channel. -/
theorem calls_makes (calls : List Call) : ∀ op ∈ calls.map Call.op, op.MakesNone := by
  intro op member
  obtain ⟨call, _, rfl⟩ := List.mem_map.mp member
  cases call with
  | close handle => trivial
  | dropCb handle => trivial

/-- An event makes no channel where what it leads to makes none. -/
theorem raise_makes {known : List Op} (none : ∀ op ∈ known, op.MakesNone) :
    ∀ op ∈ raise s handle known, op.MakesNone := by
  rcases raise_cases s handle known with same | same | same <;> rw [same]
  · simp
  · exact none
  · simp [unknownHandle, Op.MakesNone]

/-- What follows an error makes no channel. -/
theorem errorTail_makes : ∀ op ∈ errorTail s handle, op.MakesNone := by
  unfold errorTail
  split
  all_goals simp [Op.MakesNone]

/-- Every handler makes its channels with the next handle. -/
theorem plan_makesNext (s : State) (label : Label) : MakesNextAll s (plan s label) := by
  have first : ∀ channel, MakesNext s (.addChannel s.next channel) := by
    rintro channel handle other ⟨⟩
    rfl
  cases label with
  | start type outcome =>
    cases outcome with
    | addFails stale => exact makesNextAll_of (by simp [plan, Op.MakesNone])
    | sessionFails => exact ⟨first _, makesNextAll_of (by simp [Op.MakesNone])⟩
    | refused => exact ⟨first _, makesNextAll_of (by simp [Op.MakesNone])⟩
    | started => exact ⟨first _, makesNextAll_of (by simp [Op.MakesNone])⟩
  | connected handle calls =>
    refine ⟨?_, makesNextAll_of (raise_makes (calls_makes calls))⟩
    intro other channel same
    cases same
  | accept server snapshot ready added calls =>
    refine ⟨first _, makesNextAll_of (raise_makes fun op member => ?_)⟩
    rcases List.mem_append.mp member with early | late
    · cases added with
      | false =>
        rw [if_neg Bool.false_ne_true, List.mem_singleton] at early
        rw [early]
        trivial
      | true =>
        rw [if_pos rfl, List.mem_cons, List.mem_singleton] at early
        rcases early with rfl | rfl
        · trivial
        · trivial
    · exact calls_makes calls op late
  | receive handle calls => exact makesNextAll_of (raise_makes (calls_makes calls))
  | fail handle calls =>
    refine makesNextAll_of fun op member => ?_
    rcases List.mem_append.mp member with early | late
    · exact raise_makes (calls_makes calls) op early
    · exact errorTail_makes op late
  | close handle => exact makesNextAll_of (by simp [plan, Op.MakesNone])
  | released handle => exact makesNextAll_of (by simp [plan, Op.MakesNone])
  | runPosted event calls =>
    apply makesNextAll_of
    intro op member
    simp only [plan] at member
    split at member
    · split at member
      · rcases List.mem_cons.mp member with rfl | member
        · trivial
        · rcases List.mem_cons.mp member with rfl | member
          · trivial
          · exact calls_makes calls op member
      · revert op
        simp [unknownHandle, Op.MakesNone]
    · revert op
      simp [Op.MakesNone]

/-! ## `CLOSED` is told once -/

/-- What can still be told of a handle: one `CLOSED` as long as its channel is not yet made or is
in the map, and those that are posted. -/
def stock (handle : Handle) (s : State) : Nat :=
  (if s.next ≤ handle then 1 else 0) + (if handle ∈ s.channelMap then 1 else 0) +
    (s.posted.map Prod.fst).count handle

/-- States with the same maps, posted events and next handle have the same stock. -/
theorem stock_congr (map : next.channelMap = s.channelMap) (posted : next.posted = s.posted)
    (same : next.next = s.next) : stock handle next = stock handle s := by
  rw [stock, stock, map, posted, same]

/-- `close` of a channel in the map posts at most one event; of another it does nothing. -/
theorem close_cases (s : State) (handle : Handle) :
    close s handle = s ∨
      handle ∈ s.channelMap ∧ ((close s handle).posted = s.posted ∨
        ∃ cb, (close s handle).posted = s.posted ++ [(handle, cb)]) := by
  by_cases present : handle ∈ s.channelMap
  · obtain ⟨_, _, same, _, posts⟩ := close_frame s handle
    rw [same]
    exact .inr ⟨present, posts⟩
  · exact .inl (by rw [close, if_neg present])

/-- Closing spends the stock of a handle, if anything. -/
theorem close_stock (s : State) (other : Handle) :
    stock handle (close s other) ≤ stock handle s := by
  rcases close_cases s other with same | ⟨present, posted⟩
  · exact Nat.le_of_eq (congrArg (stock handle) same)
  · have kept : handle ∈ (close s other).channelMap ↔ handle ∈ s.channelMap ∧ handle ≠ other := by
      rw [close_channelMap, List.mem_filter, bne_iff_ne]
    have count : ((close s other).posted.map Prod.fst).count handle ≤
        (s.posted.map Prod.fst).count handle + if handle = other then 1 else 0 := by
      rcases posted with same | ⟨cb, same⟩
      · rw [same]
        omega
      · rw [same, List.map_append, List.count_append]
        by_cases here : handle = other
        · simp [here]
        · simp [here, Ne.symm here]
    rw [stock, stock, close_next]
    by_cases here : handle = other
    · have gone : handle ∉ (close s other).channelMap := fun member => (kept.mp member).2 here
      have there : handle ∈ s.channelMap := here ▸ present
      rw [if_pos here] at count
      rw [if_neg gone, if_pos there]
      omega
    · rw [if_neg here] at count
      simp only [kept.trans (and_iff_left here)]
      omega

/-- An operation spends the stock of a handle, if anything. -/
theorem perform_stock {op : Op} (makes : MakesNext s op) :
    stock handle (perform s op) ≤ stock handle s := by
  cases op with
  | addChannel other channel =>
    obtain rfl := makes other channel rfl
    have next : (perform s (.addChannel s.next channel)).next = s.next + 1 := rfl
    have map : handle ∈ (perform s (.addChannel s.next channel)).channelMap ↔
        handle = s.next ∨ handle ∈ s.channelMap := List.mem_cons
    have posted : (perform s (.addChannel s.next channel)).posted = s.posted := rfl
    rw [stock, stock, next, posted]
    by_cases here : handle = s.next
    · have past : ¬ s.next + 1 ≤ handle := here ▸ Nat.not_succ_le_self s.next
      have now : s.next ≤ handle := Nat.le_of_eq here.symm
      rw [if_neg past, if_pos (map.mpr (.inl here)), if_pos now]
      omega
    · have same : s.next + 1 ≤ handle ↔ s.next ≤ handle :=
        ⟨Nat.le_of_succ_le, fun made => Nat.lt_of_le_of_ne made (Ne.symm here)⟩
      simp only [map.trans (or_iff_right here), same]
      omega
  | setEventCb other cb =>
    obtain ⟨map, _, posted⟩ := setEventCb_maps s other cb
    exact Nat.le_of_eq (stock_congr map posted (setEventCb_next s other cb))
  | addSession other => exact Nat.le_of_eq (stock_congr rfl rfl rfl)
  | delSession other => exact Nat.le_of_eq (stock_congr rfl rfl rfl)
  | setConn other =>
    rw [perform]
    split
    · exact Nat.le_refl _
    · exact Nat.le_of_eq (stock_congr rfl rfl rfl)
  | close other => exact close_stock s other
  | unpost event =>
    have count : ((s.posted.erase event).map Prod.fst).count handle ≤
        (s.posted.map Prod.fst).count handle :=
      (List.erase_sublist.map Prod.fst).count_le handle
    show (if s.next ≤ handle then 1 else 0) + (if handle ∈ s.channelMap then 1 else 0) +
      ((s.posted.erase event).map Prod.fst).count handle ≤ stock handle s
    rw [stock]
    omega
  | release other => exact Nat.le_of_eq (stock_congr rfl rfl rfl)

/-- Operations in order spend the stock of a handle, if anything. -/
theorem performAll_stock {ops : List Op} (makes : MakesNextAll s ops) :
    stock handle (performAll s ops) ≤ stock handle s := by
  induction ops generalizing s with
  | nil => exact Nat.le_refl _
  | cons op ops ih =>
    have first := @perform_stock s handle op makes.1
    have rest := ih makes.2
    rw [performAll, List.foldl_cons, ← performAll]
    omega

/-- A posted event that is taken spends the stock of its handle. -/
theorem unpost_stock {event : Handle × EventCb} (member : event ∈ s.posted) :
    1 + stock event.1 (perform s (.unpost event)) ≤ stock event.1 s := by
  have same := (List.perm_cons_erase member).map Prod.fst
  have count := same.count_eq event.1
  rw [List.map_cons, List.count_cons_self] at count
  show 1 + ((if s.next ≤ event.1 then 1 else 0) + (if event.1 ∈ s.channelMap then 1 else 0) +
    ((s.posted.erase event).map Prod.fst).count event.1) ≤ stock event.1 s
  rw [stock]
  omega

/-- A posted event is taken first, or after its session was deleted. -/
theorem runPosted_plan (s : State) (event : Handle × EventCb) (calls : List Call) :
    ∃ rest, (∀ op ∈ rest, op.MakesNone) ∧
      (plan s (.runPosted event calls) = .unpost event :: rest ∨
        plan s (.runPosted event calls) = .delSession event.1 :: .unpost event :: rest) := by
  simp only [plan]
  split
  · split
    · exact ⟨_, calls_makes calls, .inr rfl⟩
    · exact ⟨unknownHandle event.1, by simp [unknownHandle, Op.MakesNone], .inl rfl⟩
  · exact ⟨[], by simp, .inl rfl⟩

/-- An event that tells `CLOSED` of a handle. -/
def tellsClosed (handle : Handle) : Label → Bool
  | .runPosted event _ => event.1 = handle
  | _ => false

/-- Every event spends the stock of a handle, and telling `CLOSED` spends one of it. -/
theorem services_stock (step : services.step s label next) :
    (if tellsClosed handle label then 1 else 0) + stock handle next ≤ stock handle s := by
  obtain ⟨enabled, rfl⟩ := step
  have makes := plan_makesNext s label
  by_cases tells : tellsClosed handle label = true
  · rw [if_pos tells]
    cases label with
    | runPosted event calls =>
      obtain rfl : event.1 = handle := by simpa [tellsClosed] using tells
      obtain ⟨rest, none, shape | shape⟩ := runPosted_plan s event calls
      · rw [after, shape, performAll, List.foldl_cons, ← performAll]
        have taken := unpost_stock enabled
        have later := @performAll_stock _ event.1 rest
          (@makesNextAll_of (perform s (.unpost event)) rest none)
        omega
      · rw [after, shape, performAll, List.foldl_cons, List.foldl_cons, ← performAll]
        have taken := @unpost_stock (perform s (.delSession event.1)) event enabled
        have same : stock event.1 (perform s (.delSession event.1)) = stock event.1 s :=
          stock_congr rfl rfl rfl
        have later := @performAll_stock _ event.1 rest
          (@makesNextAll_of (perform (perform s (.delSession event.1)) (.unpost event)) rest none)
        omega
    | _ => cases tells
  · rw [if_neg tells, Nat.zero_add]
    exact performAll_stock makes

/-- A run begins with a stock of one `CLOSED` a handle. -/
theorem run_stock (starts : services.init s) (run : services.Run s labels last)
    (handle : Handle) : labels.countP (tellsClosed handle) + stock handle last ≤ 1 := by
  have paid := run.paid (stock handle) (tellsClosed handle)
    fun first label last step => services_stock step
  obtain ⟨throws, rfl⟩ := starts
  have begins : stock handle { shutdownThrows := throws } = 1 := by simp [stock]
  omega

/-- In every run of whole closes `CLOSED` is told at most once for a handle; where it was told, the
handle's channel is in the map no more and no other `CLOSED` of it is on the way. -/
theorem closed_once (starts : services.init s) (run : services.Run s labels last)
    (handle : Handle) :
    labels.countP (tellsClosed handle) ≤ 1 ∧
      (labels.countP (tellsClosed handle) = 1 →
        handle ∉ last.channelMap ∧ ∀ event ∈ last.posted, event.1 ≠ handle) := by
  have within := run_stock starts run handle
  refine ⟨by omega, fun told => ?_⟩
  have nothing : stock handle last = 0 := by omega
  rw [stock] at nothing
  constructor
  · intro present
    rw [if_pos present] at nothing
    omega
  · rintro event member rfl
    have none : (last.posted.map Prod.fst).count event.1 = 0 := by omega
    exact List.count_eq_zero.mp none (List.mem_map_of_mem member)

/-! ## A channel that left the map -/

/-- A channel that was made and is in the map no more. -/
def Gone (handle : Handle) (s : State) : Prop := handle < s.next ∧ handle ∉ s.channelMap

/-- Whether the channel of a handle is connected. -/
def connected (handle : Handle) (s : State) : Bool := (s.channels handle).any Channel.conn

/-- What the channel of a handle calls. -/
def callback (handle : Handle) (s : State) : Option EventCb :=
  (s.channels handle).map Channel.eventCb

/-- What a channel object keeps that no close reaches: its class and its callback, and it stays
connected. -/
structure Channel.Kept (before after : Channel) : Prop where
  /-- The class stays. -/
  type : after.type = before.type
  /-- The callback stays. -/
  eventCb : after.eventCb = before.eventCb
  /-- A connected channel stays connected. -/
  conn : before.conn = true → after.conn = true

/-- What no operation changes of a channel that is gone. -/
structure Stays (handle : Handle) (s next : State) : Prop where
  /-- The channel stays gone. -/
  gone : Gone handle next
  /-- The object is kept as long as it lives. -/
  kept : ∀ after, next.channels handle = some after →
    ∃ before, s.channels handle = some before ∧ before.Kept after
  /-- The object is destroyed only where the destructor returns. -/
  released : next.channels handle = none → ∀ before, s.channels handle = some before →
    before.Destructible
  /-- Nothing more is posted for it. -/
  posted : ∀ event ∈ next.posted, event.1 = handle → event ∈ s.posted

/-- A channel object that is not touched is kept. -/
theorem Stays.of_same (gone : Gone handle next) (same : next.channels handle = s.channels handle)
    (posted : ∀ event ∈ next.posted, event.1 = handle → event ∈ s.posted) :
    Stays handle s next where
  gone := gone
  kept after found := ⟨after, same ▸ found, rfl, rfl, id⟩
  released none before found := by
    rw [← same, none] at found
    cases found
  posted := posted

/-- A state keeps a channel that is gone. -/
theorem Stays.refl (gone : Gone handle s) : Stays handle s s :=
  .of_same gone rfl fun _ member _ => member

/-- Two runs that keep a channel keep it together. -/
theorem Stays.trans {middle : State} (first : Stays handle s middle)
    (second : Stays handle middle next) : Stays handle s next where
  gone := second.gone
  kept after found := by
    obtain ⟨between, here, later⟩ := second.kept after found
    obtain ⟨before, there, earlier⟩ := first.kept between here
    exact ⟨before, there, later.type.trans earlier.type, later.eventCb.trans earlier.eventCb,
      fun up => later.conn (earlier.conn up)⟩
  released none before found := by
    cases here : middle.channels handle with
    | none => exact first.released here before found
    | some between =>
      obtain ⟨other, there, kept⟩ := first.kept between here
      obtain rfl : before = other := Option.some.inj (found.symm.trans there)
      rcases second.released none between here with down | ssl
      · refine .inl (Bool.eq_false_iff.mpr fun up => ?_)
        rw [kept.conn up] at down
        cases down
      · exact .inr (kept.type.symm.trans ssl)
  posted event member same := first.posted event (second.posted event member same) same

/-- A channel that is out of reach calls the HTTP service only where it did before. -/
theorem Stays.callback (stays : Stays handle s next) {cb : EventCb}
    (calls : callback handle next = some cb) : Service.callback handle s = some cb := by
  obtain ⟨after, found, same⟩ := Option.map_eq_some_iff.mp calls
  obtain ⟨before, there, kept⟩ := stays.kept after found
  rw [Service.callback, there, Option.map_some, ← kept.eventCb, same]

/-- No operation but a connect and the destructor reaches a channel that is gone. -/
theorem perform_stays {op : Op} (gone : Gone handle s) (others : ¬ op.Adds handle)
    (ends : op = .release handle → ∀ channel, s.channels handle = some channel →
      channel.Destructible) :
    Stays handle s (perform s op) := by
  have kept := perform_gone (s := s) others
  have later : Gone handle (perform s op) := ⟨Nat.lt_of_lt_of_le gone.1 kept.1, kept.2 gone.2⟩
  cases op with
  | addChannel other channel =>
    exact .of_same later (@setChannel_other s handle other others channel) fun _ member _ => member
  | setEventCb other cb =>
    by_cases here : other = handle
    · subst here
      rw [perform, setEventCb, if_neg gone.2]
      exact .refl gone
    · refine .of_same later (setEventCb_other here cb) fun event member _ => ?_
      rw [perform, (setEventCb_maps s other cb).2.2] at member
      exact member
  | addSession other => exact .of_same later rfl fun _ member _ => member
  | delSession other => exact .of_same later rfl fun _ member _ => member
  | setConn other =>
    rw [perform] at later ⊢
    cases found : s.channels other with
    | none => exact .refl gone
    | some channel =>
      rw [found] at later
      by_cases here : other = handle
      · subst here
        refine ⟨later, fun after set => ?_, fun none => ?_, fun _ member _ => member⟩
        · obtain rfl : { channel with conn := true } = after :=
            Option.some.inj ((if_pos rfl).symm.trans set)
          exact ⟨channel, found, rfl, rfl, fun _ => rfl⟩
        · exact absurd ((if_pos rfl).symm.trans none) (Option.some_ne_none _)
      · exact .of_same later (setChannel_other here _) fun _ member _ => member
  | close other =>
    by_cases here : other = handle
    · subst here
      rw [perform, close, if_neg gone.2]
      exact .refl gone
    · refine .of_same later (close_other here) fun event member mine => ?_
      rw [perform] at member
      rcases close_cases s other with unchanged | ⟨_, posted | ⟨cb, posted⟩⟩
      · rw [unchanged] at member
        exact member
      · rw [posted] at member
        exact member
      · rw [posted] at member
        rcases List.mem_append.mp member with before | last
        · exact before
        · rw [List.mem_singleton.mp last] at mine
          exact absurd mine here
  | unpost event =>
    exact .of_same later rfl fun other member _ => List.mem_of_mem_erase member
  | release other =>
    by_cases here : other = handle
    · subst here
      refine ⟨later, fun after set => ?_, fun _ => ends rfl, fun _ member _ => member⟩
      exact absurd ((if_pos rfl).symm.trans set) (Option.some_ne_none _).symm
    · exact .of_same later (if_neg (Ne.symm here)) fun _ member _ => member

/-- Operations in order leave a channel that is gone as it is, where they neither add it nor destroy
its object. -/
theorem performAll_stays {ops : List Op} (gone : Gone handle s)
    (others : ∀ op ∈ ops, ¬ op.Adds handle) (lives : .release handle ∉ ops) :
    Stays handle s (performAll s ops) := by
  induction ops generalizing s with
  | nil => exact .refl gone
  | cons op ops ih =>
    have first := perform_stays gone (others op List.mem_cons_self) fun same =>
      absurd (same ▸ List.mem_cons_self) lives
    exact first.trans (ih first.gone
      (fun other member => others other (List.mem_cons_of_mem _ member))
      (List.not_mem_of_not_mem_cons lives))

/-- A step leaves a channel that is gone as it is, but for a connect and the destructor. -/
theorem step_stays (step : services.step s label next) (gone : Gone handle s) :
    Stays handle s next := by
  obtain ⟨enabled, rfl⟩ := step
  by_cases destroys : label = .released handle
  · subst destroys
    obtain ⟨_, _, channel, found, ends⟩ := enabled
    refine @perform_stays s handle (.release handle) gone id fun _ other same => ?_
    rw [found] at same
    cases same
    exact ends
  · exact performAll_stays gone (plan_add gone.1) fun member =>
      destroys (plan_planned s label _ member)

/-- A run leaves a channel that is gone as it is, but for a connect and the destructor. -/
theorem run_stays {guard : State → Label → Prop} (run : services.RunWith guard s labels last)
    (gone : Gone handle s) : Stays handle s last := by
  induction run with
  | nil state => exact .refl gone
  | @cons first middle last label labels _ step _ ih =>
    have here : Stays handle first middle := step_stays step gone
    exact here.trans (ih here.gone)

end Hnw.Service
