import Hnw.Service.Closers
import Hnw.Verif.Connections

/-!
# How often `CLOSED` is posted

A thread that finds the channel connected posts one `CLOSED`, unless it is an SSL connection. So
there is one at most where no thread finds the channel connected while another one is about to clear
that; threads that overlap there post one each. A thread that no other one overlaps does what the
`close` of the services does in one step.
-/

namespace Hnw.Service.Closers

open Hnw.Theory

variable {c next first last : Closers} {label : CloserLabel} {labels : List CloserLabel}
  {s : State} {handle : Handle}

/-- The condition on a step: a thread that finds the channel connected is the only one that has and
did not clear it yet. -/
def ReadsAlone (c : Closers) : CloserLabel → Prop
  | .goesOn thread => c.threads[thread]? = some .removed → c.channel.conn = true →
      .sawConnected ∉ c.threads
  | _ => True

/-- How many threads found the channel connected: those that will clear it, those that will post and
those that posted. -/
def reads (c : Closers) : Nat :=
  c.threads.count .sawConnected + c.threads.count .cleared + c.posts.length

/-! ## One step -/

/-- A thread that goes on. -/
theorem after_goesOn {thread : Nat} {place : ClosePlace} (here : c.threads[thread]? = some place) :
    c.after (.goesOn thread) =
      { (c.move place).1 with threads := c.threads.set thread (c.move place).2 } := by
  rw [after, here]

/-- How many threads are at a place after one of them went on. -/
theorem count_goesOn {thread : Nat} {place : ClosePlace}
    (here : c.threads[thread]? = some place) (there at_ : ClosePlace) :
    (c.threads.set thread there).count at_ + (if place = at_ then 1 else 0) =
      c.threads.count at_ + if there = at_ then 1 else 0 := by
  obtain ⟨inside, same⟩ := List.getElem?_eq_some_iff.mp here
  have some_ : place = at_ → 0 < c.threads.count at_ := by
    rintro rfl
    exact List.count_pos_iff.mpr (List.mem_of_getElem? here)
  rw [List.count_set inside, same]
  simp only [beq_iff_eq]
  split
  · next at_here =>
    have more := some_ at_here
    omega
  · omega

/-- What a thread that goes on leaves of the channel. -/
theorem move_cases (c : Closers) (place : ClosePlace) :
    (c.move place).1 = c ∧ place ≠ .cleared ∨
      place = .found ∧ (c.move place).1 = { c with listed := false } ∨
      place = .sawConnected ∧
        (c.move place).1 = { c with channel := { c.channel with conn := false } } ∨
      place = .cleared ∧ (c.move place).1 = { c with posts := c.posts ++ [c.channel.eventCb] } := by
  cases place with
  | called => exact .inl ⟨rfl, nofun⟩
  | found => exact .inr (.inl ⟨rfl, rfl⟩)
  | removed => exact .inl ⟨rfl, nofun⟩
  | sawConnected =>
    cases type : c.channel.type with
    | sslClient =>
      cases throws : c.shutdownThrows with
      | true => exact .inl ⟨by simp [move, type, throws], nofun⟩
      | false => exact .inr (.inr (.inl ⟨rfl, by simp [move, type, throws]⟩))
    | _ => exact .inr (.inr (.inl ⟨rfl, by simp [move, type]⟩))
  | cleared => exact .inr (.inr (.inr ⟨rfl, rfl⟩))
  | returned => exact .inl ⟨rfl, nofun⟩

/-- A thread changes the class of no channel. -/
theorem move_type (c : Closers) (place : ClosePlace) :
    (c.move place).1.channel.type = c.channel.type := by
  rcases move_cases c place with ⟨same, _⟩ | ⟨_, same⟩ | ⟨_, same⟩ | ⟨_, same⟩ <;> rw [same]

/-- A thread connects nothing. -/
theorem move_connecting (c : Closers) (place : ClosePlace) :
    (c.move place).1.connecting = c.connecting := by
  rcases move_cases c place with ⟨same, _⟩ | ⟨_, same⟩ | ⟨_, same⟩ | ⟨_, same⟩ <;> rw [same]

/-- A thread changes no other one. -/
theorem move_threads (c : Closers) (place : ClosePlace) :
    (c.move place).1.threads = c.threads := by
  rcases move_cases c place with ⟨same, _⟩ | ⟨_, same⟩ | ⟨_, same⟩ | ⟨_, same⟩ <;> rw [same]

/-- A thread puts no channel into the map. -/
theorem move_unlisted (place : ClosePlace) (gone : c.listed = false) :
    (c.move place).1.listed = false := by
  rcases move_cases c place with ⟨same, _⟩ | ⟨_, same⟩ | ⟨_, same⟩ | ⟨_, same⟩ <;> rw [same]
  · exact gone
  · exact gone
  · exact gone

/-- A thread posts only as its last move. -/
theorem move_posts (c : Closers) {place : ClosePlace} (other : place ≠ .cleared) :
    (c.move place).1.posts = c.posts := by
  rcases move_cases c place with ⟨same, _⟩ | ⟨_, same⟩ | ⟨_, same⟩ | ⟨here, _⟩
  · rw [same]
  · rw [same]
  · rw [same]
  · exact absurd here other

/-- A thread that will clear the flag of a channel that posts, clears it and will post. -/
theorem move_sawConnected (posting : c.channel.type ≠ .sslClient) :
    c.move .sawConnected = ({ c with channel := { c.channel with conn := false } }, .cleared) := by
  cases type : c.channel.type with
  | sslClient => exact absurd type posting
  | _ => simp [move, type]

/-- One more thread found the channel connected where one tested it and it was. -/
theorem reads_goesOn (posting : c.channel.type ≠ .sslClient) {thread : Nat} {place : ClosePlace}
    (here : c.threads[thread]? = some place) :
    (c.after (.goesOn thread)).reads =
      c.reads + if place = .removed ∧ c.channel.conn = true then 1 else 0 := by
  have saw := count_goesOn here (c.move place).2 .sawConnected
  have clearing := count_goesOn here (c.move place).2 .cleared
  rw [after_goesOn here, reads, reads]
  cases place with
  | called => cases listed : c.listed <;> simp [move, listed] at saw clearing ⊢ <;> omega
  | found => simp [move] at saw clearing ⊢; omega
  | removed => cases up : c.channel.conn <;> simp [move, up] at saw clearing ⊢ <;> omega
  | sawConnected =>
    simp only [move_sawConnected posting, reduceCtorEq, if_true, if_false] at saw clearing ⊢
    simp only [false_and, if_false]
    omega
  | cleared =>
    simp [move] at saw clearing ⊢
    omega
  | returned => simp [move] at saw clearing ⊢; omega

/-- A thread that goes on is somewhere. -/
theorem goesOn_here {thread : Nat} (enabled : c.Enabled (.goesOn thread)) :
    ∃ place, c.threads[thread]? = some place :=
  ⟨_, List.getElem?_eq_getElem enabled⟩

/-- No step changes the class of the channel. -/
theorem step_type (step : closing.step c label next) : next.channel.type = c.channel.type := by
  obtain ⟨enabled, rfl⟩ := step
  cases label with
  | goesOn thread =>
    obtain ⟨place, here⟩ := goesOn_here enabled
    rw [after_goesOn here]
    exact move_type c place
  | _ => rfl

/-- A thread that calls found nothing yet. -/
theorem reads_call (c : Closers) : (c.after .call).reads = c.reads := by
  simp [reads, after, List.count_append]

/-- No step forgets a thread that found the channel connected. -/
theorem reads_grows (posting : c.channel.type ≠ .sslClient) (step : closing.step c label next) :
    c.reads ≤ next.reads := by
  obtain ⟨enabled, rfl⟩ := step
  cases label with
  | goesOn thread =>
    obtain ⟨place, here⟩ := goesOn_here enabled
    rw [reads_goesOn posting here]
    exact Nat.le_add_right _ _
  | call => exact Nat.le_of_eq (reads_call c).symm
  | connected => exact Nat.le_refl _
  | setEventCb cb => exact Nat.le_refl _

/-- A thread that finds the channel connected while another one is about to clear that is a second
one. -/
theorem reads_twice (posting : c.channel.type ≠ .sslClient) (step : closing.step c label next)
    (overlaps : ¬ ReadsAlone c label) : 1 < next.reads := by
  obtain ⟨enabled, rfl⟩ := step
  cases label with
  | goesOn thread =>
    simp only [ReadsAlone, not_forall, not_not] at overlaps
    obtain ⟨here, up, other⟩ := overlaps
    have saw := List.count_pos_iff.mpr other
    have before : 0 < c.reads := by
      rw [reads]
      omega
    rw [reads_goesOn posting here, if_pos ⟨rfl, up⟩]
    omega
  | _ => exact absurd trivial overlaps

/-! ## One thread alone -/

/-- One more thread, at a place. -/
def withThread (c : Closers) (place : ClosePlace) : Closers :=
  { c with threads := c.threads ++ [place] }

/-- A thread goes on as it does without one more. -/
theorem move_withThread (c : Closers) (place other : ClosePlace) :
    (c.withThread other).move place = ((c.move place).1.withThread other, (c.move place).2) := by
  cases place with
  | sawConnected =>
    cases type : c.channel.type with
    | sslClient => cases throws : c.shutdownThrows <;> simp [move, withThread, type, throws]
    | _ => simp [move, withThread, type]
  | _ => rfl

/-- What a thread leaves behind that goes on so often, and where it is then. -/
def goOn (c : Closers) (place : ClosePlace) : Nat → Closers × ClosePlace
  | 0 => (c, place)
  | moves + 1 => (c.move place).1.goOn (c.move place).2 moves

/-- The last thread goes on while no other one does. -/
theorem goOn_run (c : Closers) (place : ClosePlace) (moves : Nat) :
    closing.Run (c.withThread place) (List.replicate moves (.goesOn c.threads.length))
      ((c.goOn place moves).1.withThread (c.goOn place moves).2) := by
  induction moves generalizing c place with
  | zero => exact .nil _
  | succ moves ih =>
    have here : (c.withThread place).threads[c.threads.length]? = some place := by
      simp [withThread]
    have rest := ih (c.move place).1 (c.move place).2
    rw [move_threads] at rest
    refine .cons trivial ⟨(List.getElem?_eq_some_iff.mp here).1, ?_⟩ rest
    rw [after_goesOn here, move_withThread]
    simp [withThread, move_threads]

/-- What the services know of the channel of a handle. -/
structure Shows (c : Closers) (s : State) (handle : Handle) : Prop where
  /-- The object. -/
  channel : s.channels handle = some c.channel
  /-- Whether it is in the map. -/
  listed : c.listed = true ↔ handle ∈ s.channelMap
  /-- What its shutdown does. -/
  throws : s.shutdownThrows handle = c.shutdownThrows

/-- A thread that closes the channel while no other one goes on does what `close` does, and posts
what `close` posts. -/
theorem close_alone (shows : Shows c s handle) :
    ∃ next posts,
      closing.Run c (.call :: List.replicate 5 (.goesOn c.threads.length))
          (next.withThread .returned) ∧
        Shows next (close s handle) handle ∧ next.threads = c.threads ∧
        next.posts = c.posts ++ posts ∧
        (close s handle).posted = s.posted ++ posts.map (Prod.mk handle) := by
  have run : closing.Run c (.call :: List.replicate 5 (.goesOn c.threads.length))
      ((c.goOn .called 5).1.withThread (c.goOn .called 5).2) :=
    .cons trivial ⟨trivial, rfl⟩ (goOn_run c .called 5)
  by_cases listed : c.listed = true
  · have removed : ∀ state : State, state.channelMap = s.channelMap.filter (· != handle) →
        (false = true ↔ handle ∈ state.channelMap) := by
      rintro state map
      simp [map]
    rw [close, if_pos (shows.listed.mp listed), shows.channel]
    simp only
    rcases channelClose_cases { s with channelMap := s.channelMap.filter (· != handle) } handle
      c.channel with ⟨same, why⟩ | ⟨same, up, ssl, returns⟩ | ⟨same, up, posting⟩ <;> rw [same]
    · have left : c.goOn .called 5 = ({ c with listed := false }, .returned) := by
        rcases why with down | ⟨ssl, throws⟩
        · simp [goOn, move, listed, down]
        · have raises : c.shutdownThrows = true := shows.throws.symm.trans throws
          cases up : c.channel.conn <;> simp [goOn, move, listed, up, ssl, raises]
      rw [left] at run
      exact ⟨_, [], run, ⟨shows.channel, removed _ rfl, shows.throws⟩, rfl,
        (List.append_nil _).symm, (List.append_nil _).symm⟩
    · have quiet : c.shutdownThrows = false := shows.throws.symm.trans returns
      have left : c.goOn .called 5 =
          ({ c with listed := false, channel := { c.channel with conn := false } }, .returned) := by
        simp [goOn, move, listed, up, ssl, quiet]
      rw [left] at run
      exact ⟨_, [], run, ⟨if_pos rfl, removed _ rfl, shows.throws⟩, rfl,
        (List.append_nil _).symm, (List.append_nil _).symm⟩
    · have left : c.goOn .called 5 =
          ({ c with
              listed := false
              channel := { c.channel with conn := false }
              posts := c.posts ++ [c.channel.eventCb] }, .returned) := by
        cases type : c.channel.type with
        | sslClient => exact absurd type posting
        | _ => simp [goOn, move, listed, up, type]
      rw [left] at run
      exact ⟨_, [c.channel.eventCb], run, ⟨if_pos rfl, removed _ rfl, shows.throws⟩, rfl, rfl, rfl⟩
  · have same : c.goOn .called 5 = (c, .returned) := by simp [goOn, move, listed]
    rw [same] at run
    have absent : handle ∉ s.channelMap := fun member => listed (shows.listed.mpr member)
    rw [close, if_neg absent]
    exact ⟨c, [], run, shows, rfl, (List.append_nil _).symm, (List.append_nil _).symm⟩

/-! ## One at most -/

/-- One thread at most found the channel connected. -/
structure Alone (c : Closers) : Prop where
  /-- The channel posts. -/
  posting : c.channel.type ≠ .sslClient
  /-- One at most. -/
  one : c.reads ≤ 1
  /-- A channel that is being connected is not connected. -/
  apart : c.connecting = true → c.channel.conn = false
  /-- Where a thread found the channel connected, the connect has completed. -/
  completed : 0 < c.reads → c.connecting = false
  /-- Where the channel still is connected, that thread will clear it. -/
  clears : 0 < c.reads → c.channel.conn = true → .sawConnected ∈ c.threads

/-- A thread that goes on leaves a channel connected only where it does not clear that. -/
theorem move_conn (posting : c.channel.type ≠ .sslClient) (place : ClosePlace)
    (up : (c.move place).1.channel.conn = true) :
    c.channel.conn = true ∧ place ≠ .sawConnected := by
  by_cases clears : place = .sawConnected
  · subst clears
    rw [move_sawConnected posting] at up
    cases up
  · rcases move_cases c place with ⟨same, _⟩ | ⟨_, same⟩ | ⟨here, _⟩ | ⟨_, same⟩
    · rw [same] at up
      exact ⟨up, clears⟩
    · rw [same] at up
      exact ⟨up, clears⟩
    · exact absurd here clears
    · rw [same] at up
      exact ⟨up, clears⟩

/-- A step of a thread keeps to one, where it finds the channel connected alone. -/
theorem Alone.goesOn (alone : Alone c) {thread : Nat} {place : ClosePlace}
    (here : c.threads[thread]? = some place) (guarded : ReadsAlone c (.goesOn thread)) :
    Alone (c.after (.goesOn thread)) := by
  have count := reads_goesOn alone.posting here
  have saw := count_goesOn here (c.move place).2 .sawConnected
  by_cases finds : place = .removed ∧ c.channel.conn = true
  · obtain ⟨rfl, up⟩ := finds
    rw [if_pos ⟨rfl, up⟩] at count
    have none : c.reads = 0 := by
      by_contra some_
      exact guarded here up (alone.clears (Nat.pos_of_ne_zero some_) up)
    have done : c.connecting = false := by
      by_contra under
      rw [alone.apart (Bool.of_not_eq_false under)] at up
      cases up
    have there : (c.move .removed).2 = .sawConnected := by rw [move, if_pos up]
    rw [after_goesOn here] at count ⊢
    have inside : thread < c.threads.length := (List.getElem?_eq_some_iff.mp here).1
    refine ⟨alone.posting, by omega, alone.apart, fun _ => done, fun _ _ => ?_⟩
    show .sawConnected ∈ c.threads.set thread (c.move .removed).2
    rw [there]
    exact List.mem_set inside _
  · rw [if_neg finds, Nat.add_zero] at count
    rw [after_goesOn here] at count ⊢
    refine ⟨(move_type c place).symm ▸ alone.posting, count ▸ alone.one, fun under => ?_,
      fun some_ => ?_, fun some_ up => ?_⟩
    · rw [move_connecting] at under
      refine Bool.eq_false_iff.mpr fun up => ?_
      have was := (move_conn alone.posting place up).1
      rw [alone.apart under] at was
      cases was
    · rw [move_connecting]
      exact alone.completed (count ▸ some_)
    · obtain ⟨was, other⟩ := move_conn alone.posting place up
      have before := List.count_pos_iff.mpr (alone.clears (count ▸ some_) was)
      rw [if_neg other] at saw
      show .sawConnected ∈ c.threads.set thread (c.move place).2
      exact List.count_pos_iff.mp (by omega)

/-- A step keeps to one, where no thread overlaps another one. -/
theorem Alone.step (alone : Alone c) (guarded : ReadsAlone c label)
    (step : closing.step c label next) : Alone next := by
  obtain ⟨enabled, rfl⟩ := step
  cases label with
  | goesOn thread =>
    obtain ⟨place, here⟩ := goesOn_here enabled
    exact alone.goesOn here guarded
  | call =>
    have same := reads_call c
    exact ⟨alone.posting, same ▸ alone.one, alone.apart,
      fun some_ => alone.completed (same ▸ some_),
      fun some_ up => List.mem_append_left _ (alone.clears (same ▸ some_) up)⟩
  | connected =>
    have under : c.connecting = true := enabled
    have none : ¬ 0 < c.reads := fun some_ => by
      rw [alone.completed some_] at under
      cases under
    exact ⟨alone.posting, alone.one, nofun, fun _ => rfl, fun some_ => absurd some_ none⟩
  | setEventCb cb =>
    exact ⟨alone.posting, alone.one, alone.apart, alone.completed, alone.clears⟩

/-! ## The channel map -/

/-- Where a thread is between `del_channel` and its return. -/
def ClosePlace.Behind (place : ClosePlace) : Prop :=
  place = .removed ∨ place = .sawConnected ∨ place = .cleared

/-- A thread that took the channel out of the map, and a posted event, find it out of the map. -/
structure OutOfMap (c : Closers) : Prop where
  /-- The threads. -/
  threads : ∀ place ∈ c.threads, ClosePlace.Behind place → c.listed = false
  /-- The events. -/
  posts : c.posts ≠ [] → c.listed = false

/-- A thread that goes on comes behind `del_channel` by calling it. -/
theorem move_behind (c : Closers) {place : ClosePlace}
    (behind : ClosePlace.Behind (c.move place).2) : place = .found ∨ ClosePlace.Behind place := by
  cases place with
  | called =>
    rw [move] at behind
    split at behind
    · rcases behind with same | same | same <;> cases same
    · rcases behind with same | same | same <;> cases same
  | found => exact .inl rfl
  | removed => exact .inr (.inl rfl)
  | sawConnected => exact .inr (.inr (.inl rfl))
  | cleared => exact .inr (.inr (.inr rfl))
  | returned => rcases behind with same | same | same <;> cases same

/-- A channel that left the map stays out of it. -/
theorem OutOfMap.step (out : OutOfMap c) (step : closing.step c label next) : OutOfMap next := by
  obtain ⟨enabled, rfl⟩ := step
  cases label with
  | goesOn thread =>
    obtain ⟨place, here⟩ := goesOn_here enabled
    have member := List.mem_of_getElem? here
    rw [after_goesOn here]
    refine ⟨fun other inside behind => ?_, fun some_ => ?_⟩
    · rcases List.mem_or_eq_of_mem_set inside with old | rfl
      · exact move_unlisted place (out.threads other old behind)
      · rcases move_behind c behind with rfl | before
        · rfl
        · exact move_unlisted place (out.threads place member before)
    · by_cases posts : place = .cleared
      · exact move_unlisted place (out.threads place member (.inr (.inr posts)))
      · have old : c.posts ≠ [] := by
          rw [← move_posts c posts]
          exact some_
        exact move_unlisted place (out.posts old)
  | call =>
    refine ⟨fun place inside behind => ?_, out.posts⟩
    rcases List.mem_append.mp inside with old | new
    · exact out.threads place old behind
    · rw [List.mem_singleton.mp new] at behind
      rcases behind with same | same | same <;> cases same
  | connected => exact ⟨out.threads, out.posts⟩
  | setEventCb cb => exact ⟨out.threads, out.posts⟩

/-! ## SSL connections -/

/-- An SSL connection, of which nothing is posted or about to be. -/
structure Silent (c : Closers) : Prop where
  /-- The class. -/
  ssl : c.channel.type = .sslClient
  /-- Nothing was posted. -/
  posts : c.posts = []
  /-- No thread will post. -/
  threads : .cleared ∉ c.threads

/-- No step posts anything of an SSL connection. -/
theorem Silent.step (silent : Silent c) (step : closing.step c label next) : Silent next := by
  have type := (step_type step).trans silent.ssl
  obtain ⟨enabled, rfl⟩ := step
  cases label with
  | goesOn thread =>
    obtain ⟨place, here⟩ := goesOn_here enabled
    have other : place ≠ .cleared := fun same =>
      silent.threads (same ▸ List.mem_of_getElem? here)
    have there : (c.move place).2 ≠ .cleared := by
      cases place with
      | called => rw [move]; split <;> nofun
      | removed => rw [move]; split <;> nofun
      | sawConnected => simp [move, silent.ssl]
      | cleared => exact absurd rfl other
      | found => nofun
      | returned => nofun
    rw [after_goesOn here] at type ⊢
    refine ⟨type, (move_posts c other).trans silent.posts, fun inside => ?_⟩
    · rcases List.mem_or_eq_of_mem_set inside with old | new
      · exact silent.threads old
      · exact there new.symm
  | call =>
    refine ⟨type, silent.posts, fun inside => ?_⟩
    rcases List.mem_append.mp inside with old | new
    · exact silent.threads old
    · cases List.mem_singleton.mp new
  | connected => exact ⟨type, silent.posts, silent.threads⟩
  | setEventCb cb => exact ⟨type, silent.posts, silent.threads⟩

/-! ## Every run -/

/-- Where all threads have returned, those that found the channel connected have posted. -/
theorem reads_returned (returned : ∀ place ∈ c.threads, place = .returned) :
    c.reads = c.posts.length := by
  have nowhere : ∀ place, place ≠ .returned → c.threads.count place = 0 := fun place other =>
    List.count_eq_zero.mpr fun inside => other (returned place inside)
  rw [reads, nowhere .sawConnected nofun, nowhere .cleared nofun, Nat.zero_add]

/-- However many threads close a channel at once: where all of them have returned, `CLOSED` was
posted at most once exactly where no thread found the channel connected while another one had found
it so and had not cleared it yet; of an SSL connection nothing is posted; and a channel whose
`CLOSED` was posted is out of the map. -/
theorem closed_atMostOnce (starts : closing.init first) (run : closing.Run first labels last)
    (returned : ∀ place ∈ last.threads, place = .returned) :
    (last.channel.type ≠ .sslClient →
        (last.posts.length ≤ 1 ↔ closing.RunWith ReadsAlone first labels last)) ∧
      (last.channel.type = .sslClient → last.posts = []) ∧
      (last.posts ≠ [] → last.listed = false) := by
  obtain ⟨channel, throws, connecting, rfl, apart⟩ := starts
  have type : last.channel.type = channel.type :=
    run.invariant (P := fun c => c.channel.type = channel.type)
      (fun _ _ _ same _ step => (step_type step).trans same) rfl
  refine ⟨fun posting => ⟨fun once => ?_, fun guarded => ?_⟩, fun ssl => ?_, ?_⟩
  · rw [type] at posting
    rw [← reads_returned returned] at once
    exact System.RunWith.guarded reads (I := fun c => c.channel.type ≠ .sslClient)
      (fun _ _ _ posting step => (step_type step).symm ▸ posting)
      (fun _ _ _ posting step => reads_grows posting step)
      (fun _ _ _ posting step => reads_twice posting step) run posting once
  · rw [type] at posting
    have alone : Alone last := guarded.invariant
      (fun _ _ _ alone meets step => alone.step meets step)
      ⟨posting, Nat.zero_le 1, apart, nofun, nofun⟩
    rw [← reads_returned returned]
    exact alone.one
  · have silent : Silent last := run.invariant (fun _ _ _ silent _ step => silent.step step)
      ⟨type.symm.trans ssl, rfl, List.not_mem_nil⟩
    exact silent.posts
  · have out : OutOfMap last := run.invariant (fun _ _ _ out _ step => out.step step)
      ⟨nofun, fun some_ => absurd rfl some_⟩
    exact out.posts

/-- A connected channel. -/
def openClient : Closers where
  channel := ⟨.tcpClient, true, .http⟩
  listed := true
  shutdownThrows := false
  connecting := false

/-- Two threads that both find the channel connected. -/
def overlapping : List CloserLabel :=
  [.call, .call, .goesOn 0, .goesOn 1, .goesOn 0, .goesOn 1, .goesOn 0, .goesOn 1, .goesOn 0,
    .goesOn 0, .goesOn 1, .goesOn 1]

/-- Two threads that overlap post `CLOSED` twice, and the second one tests the flag too early. -/
theorem closed_atMostOnce_overlapping :
    (overlapping.foldl after openClient).posts.length = 2 ∧
      ¬ closing.RunWith ReadsAlone openClient overlapping (overlapping.foldl after openClient) := by
  have starts : closing.init openClient := ⟨_, _, _, rfl, nofun⟩
  have run : closing.Run openClient overlapping (overlapping.foldl after openClient) := by
    unfold overlapping
    repeat refine .cons trivial ⟨by decide, rfl⟩ ?_
    exact .nil _
  have returned : ∀ place ∈ (overlapping.foldl after openClient).threads, place = .returned := by
    decide
  refine ⟨rfl, fun guarded => ?_⟩
  have once := ((closed_atMostOnce starts run returned).1 nofun).mpr guarded
  exact absurd once (by decide)

end Hnw.Service.Closers
