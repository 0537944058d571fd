import Mathlib.Data.List.Basic
import Mathlib.Data.Option.Basic

/-!
# Consumers of chunked input

A consumer reads symbols that arrive in chunks. One call of it sees the unread part of the
chunk, reports how much of it was used and what it put out, and may stop the reading with a
reason. `feed` is the loop over one chunk; a call that uses nothing makes the loop run
forever, so the loop is a partial function and `Returns` is its graph. The two results are
exact termination (`returns_iff_not_stalls`) and independence of the cut points
(`Splits.returns_append`, `Splits.deliver_flatten`).
-/

namespace Hnw.Theory

variable {σ α ω ε : Type}

/-- What one call does with the unread part of a chunk. -/
structure Step (σ ω ε : Type) where
  /-- The state after the call. -/
  state : σ
  /-- What the call put out, in order. -/
  out : List ω
  /-- How many symbols the call used. -/
  used : Nat
  /-- The reason the reading stops here, if it does. -/
  stop : Option ε

/-- What a whole reading leaves behind. -/
structure Outcome (σ ω ε : Type) where
  /-- The last state. -/
  state : σ
  /-- Everything put out, in order. -/
  out : List ω
  /-- The reason the reading stopped early, if it did. -/
  stop : Option ε
deriving DecidableEq

/-- An outcome whose record begins with earlier output. -/
def Outcome.after (o : Outcome σ ω ε) (earlier : List ω) : Outcome σ ω ε :=
  { o with out := earlier ++ o.out }

@[simp] theorem Outcome.after_state (o : Outcome σ ω ε) (earlier : List ω) :
    (o.after earlier).state = o.state := rfl

@[simp] theorem Outcome.after_out (o : Outcome σ ω ε) (earlier : List ω) :
    (o.after earlier).out = earlier ++ o.out := rfl

@[simp] theorem Outcome.after_stop (o : Outcome σ ω ε) (earlier : List ω) :
    (o.after earlier).stop = o.stop := rfl

@[simp] theorem Outcome.after_nil (o : Outcome σ ω ε) : o.after [] = o := rfl

@[simp] theorem Outcome.after_after (o : Outcome σ ω ε) (first second : List ω) :
    (o.after second).after first = o.after (first ++ second) := by
  simp [Outcome.after]

/-- A consumer; it is only ever called on a chunk with unread symbols. -/
abbrev Consumer (σ α ω ε : Type) := σ → List α → Step σ ω ε

/-- The loop over one chunk, with a bound on the number of calls; `none` when it runs out. -/
def feed (step : Consumer σ α ω ε) : Nat → σ → List α → Option (Outcome σ ω ε)
  | _, state, [] => some ⟨state, [], none⟩
  | 0, _, _ :: _ => none
  | fuel + 1, state, symbol :: rest =>
    let call := step state (symbol :: rest)
    match call.stop with
    | some reason => some ⟨call.state, call.out, some reason⟩
    | none => (feed step fuel call.state ((symbol :: rest).drop call.used)).map (·.after call.out)

/-- The graph of the unbounded loop: some number of calls reaches this outcome. -/
def Returns (step : Consumer σ α ω ε) (state : σ) (chunk : List α) (o : Outcome σ ω ε) : Prop :=
  ∃ fuel, feed step fuel state chunk = some o

variable {step : Consumer σ α ω ε} {state : σ} {chunk : List α} {o : Outcome σ ω ε}

/-- A call that stops ends the loop. -/
theorem feed_of_stop {fuel : Nat} {reason : ε} (unread : chunk ≠ [])
    (stops : (step state chunk).stop = some reason) :
    feed step (fuel + 1) state chunk =
      some ⟨(step state chunk).state, (step state chunk).out, some reason⟩ := by
  cases chunk with
  | nil => exact absurd rfl unread
  | cons symbol rest => simp [feed, stops]

/-- A call that does not stop hands the rest of the chunk to the next one. -/
theorem feed_of_next {fuel : Nat} (unread : chunk ≠ []) (goes : (step state chunk).stop = none) :
    feed step (fuel + 1) state chunk =
      (feed step fuel (step state chunk).state (chunk.drop (step state chunk).used)).map
        (·.after (step state chunk).out) := by
  cases chunk with
  | nil => exact absurd rfl unread
  | cons symbol rest => simp [feed, goes]

/-- Without a call allowed, only an empty chunk is read. -/
theorem feed_zero (unread : chunk ≠ []) : feed step 0 state chunk = none := by
  cases chunk with
  | nil => exact absurd rfl unread
  | cons symbol rest => rfl

/-- An empty chunk is read at once, whatever the bound. -/
@[simp] theorem feed_nil (fuel : Nat) : feed step fuel state [] = some ⟨state, [], none⟩ := by
  cases fuel <;> rfl

/-- One more call allowed changes no outcome. -/
theorem feed_succ {fuel : Nat} (found : feed step fuel state chunk = some o) :
    feed step (fuel + 1) state chunk = some o := by
  induction fuel generalizing state chunk o with
  | zero =>
    cases chunk with
    | nil => simpa using found
    | cons symbol rest => simp [feed] at found
  | succ fuel ih =>
    by_cases unread : chunk = []
    · subst unread
      simpa using found
    · cases stops : (step state chunk).stop with
      | some reason =>
        rw [feed_of_stop unread stops] at found ⊢
        exact found
      | none =>
        rw [feed_of_next unread stops] at found ⊢
        obtain ⟨inner, reached, rfl⟩ := Option.map_eq_some_iff.mp found
        rw [ih reached]
        rfl

/-- A larger bound changes no outcome. -/
theorem feed_mono {fuel more : Nat} (le : fuel ≤ more)
    (found : feed step fuel state chunk = some o) : feed step more state chunk = some o := by
  induction le with
  | refl => exact found
  | step _ ih => exact feed_succ ih

/-- The loop has at most one outcome. -/
theorem Returns.unique {o' : Outcome σ ω ε} (first : Returns step state chunk o)
    (second : Returns step state chunk o') : o = o' := by
  obtain ⟨fuel, found⟩ := first
  obtain ⟨fuel', found'⟩ := second
  have left := feed_mono (Nat.le_max_left fuel fuel') found
  have right := feed_mono (Nat.le_max_right fuel fuel') found'
  exact Option.some.inj (left.symm.trans right)

/-- Reading nothing changes nothing. -/
theorem returns_nil : Returns step state [] ⟨state, [], none⟩ := ⟨0, rfl⟩

/-- A stopping call is the last one. -/
theorem returns_of_stop (step : Consumer σ α ω ε) (state : σ) {reason : ε} (unread : chunk ≠ [])
    (stops : (step state chunk).stop = some reason) :
    Returns step state chunk ⟨(step state chunk).state, (step state chunk).out, some reason⟩ :=
  ⟨1, feed_of_stop unread stops⟩

/-- After a call that goes on, the outcome is that of the unread rest. -/
theorem returns_of_next (step : Consumer σ α ω ε) (state : σ) (unread : chunk ≠ [])
    (goes : (step state chunk).stop = none)
    (later : Returns step (step state chunk).state (chunk.drop (step state chunk).used) o) :
    Returns step state chunk (o.after (step state chunk).out) := by
  obtain ⟨fuel, found⟩ := later
  exact ⟨fuel + 1, by rw [feed_of_next unread goes, found]; rfl⟩

/-- A reading that got past a call that goes on read the unread rest. -/
theorem Returns.next (unread : chunk ≠ []) (goes : (step state chunk).stop = none)
    (read : Returns step state chunk o) :
    ∃ later, Returns step (step state chunk).state (chunk.drop (step state chunk).used) later ∧
      o = later.after (step state chunk).out := by
  obtain ⟨fuel, found⟩ := read
  cases fuel with
  | zero => simp [feed_zero unread] at found
  | succ fuel =>
    rw [feed_of_next unread goes] at found
    obtain ⟨later, reached, rfl⟩ := Option.map_eq_some_iff.mp found
    exact ⟨later, ⟨fuel, reached⟩, rfl⟩

/-- Induction over the calls of a reading: nothing is unread, or a call stops it, or a call goes on
and the rest is read. -/
@[elab_as_elim]
theorem Returns.induction_on
    {motive : ∀ (state : σ) (chunk : List α) (o : Outcome σ ω ε), Returns step state chunk o → Prop}
    (read : Returns step state chunk o)
    (nothing : ∀ state, motive state [] ⟨state, [], none⟩ returns_nil)
    (stopped : ∀ state chunk reason (unread : chunk ≠ [])
      (stops : (step state chunk).stop = some reason),
      motive state chunk ⟨(step state chunk).state, (step state chunk).out, some reason⟩
        (returns_of_stop step state unread stops))
    (next : ∀ state chunk inner (unread : chunk ≠ []) (goes : (step state chunk).stop = none)
      (later : Returns step (step state chunk).state (chunk.drop (step state chunk).used) inner),
      motive _ _ inner later → motive state chunk (inner.after (step state chunk).out)
        (returns_of_next step state unread goes later)) :
    motive state chunk o read := by
  obtain ⟨fuel, found⟩ := read
  induction fuel generalizing state chunk o with
  | zero =>
    cases chunk with
    | nil =>
      obtain rfl : ⟨state, [], none⟩ = o := Option.some.inj found
      exact nothing state
    | cons symbol rest => cases found
  | succ fuel ih =>
    by_cases unread : chunk = []
    · subst unread
      obtain rfl : ⟨state, [], none⟩ = o := Option.some.inj found
      exact nothing state
    cases stops : (step state chunk).stop with
    | some reason =>
      have last := found
      rw [feed_of_stop unread stops] at last
      obtain rfl := Option.some.inj last
      exact stopped state chunk reason unread stops
    | none =>
      have goesOn := found
      rw [feed_of_next unread stops] at goesOn
      obtain ⟨inner, reached, rfl⟩ := Option.map_eq_some_iff.mp goesOn
      exact next state chunk inner unread stops ⟨fuel, reached⟩ (ih reached)

/-! ## Termination -/

/-- The states, each with its unread symbols, in which the loop makes a call. -/
inductive Visits (step : Consumer σ α ω ε) : σ → List α → σ → List α → Prop where
  | here {state : σ} {chunk : List α} (unread : chunk ≠ []) : Visits step state chunk state chunk
  | next {state : σ} {chunk : List α} {later : σ} {rest : List α} (unread : chunk ≠ [])
      (goes : (step state chunk).stop = none)
      (visit : Visits step (step state chunk).state (chunk.drop (step state chunk).used)
        later rest) : Visits step state chunk later rest

/-- A call is only made while something is unread. -/
theorem Visits.unread {later : σ} {rest : List α} (visit : Visits step state chunk later rest) :
    rest ≠ [] := by
  induction visit with
  | here unread => exact unread
  | next _ _ _ ih => exact ih

/-- What every call keeps holds wherever a call is made. -/
theorem Visits.invariant (Inv : σ → Prop)
    (keeps : ∀ state chunk, Inv state → chunk ≠ [] → Inv (step state chunk).state)
    {later : σ} {rest : List α} (visit : Visits step state chunk later rest) (holds : Inv state) :
    Inv later := by
  induction visit with
  | here => exact holds
  | next unread _ _ ih => exact ih (keeps _ _ holds unread)

/-- A reading that stops makes a last call, which stops it and leaves its state; no other call
stops. -/
theorem Returns.stopped {reason : ε} (read : Returns step state chunk o)
    (stop : o.stop = some reason) :
    ∃ later rest, Visits step state chunk later rest ∧ (step later rest).stop = some reason ∧
      o.state = (step later rest).state ∧
      ∀ other unread, Visits step state chunk other unread →
        (step other unread).stop = none ∨ other = later ∧ unread = rest := by
  induction read using Returns.induction_on with
  | nothing state => cases stop
  | stopped state chunk here unread stops =>
    refine ⟨state, chunk, .here unread, stops.trans stop, rfl, fun other rest visit => ?_⟩
    cases visit with
    | here => exact .inr ⟨rfl, rfl⟩
    | next _ goes _ =>
      rw [stops] at goes
      cases goes
  | next state chunk inner unread goes _ ih =>
    obtain ⟨later, rest, visit, last, same, only⟩ := ih stop
    refine ⟨later, rest, .next unread goes visit, last, same, fun other left visit => ?_⟩
    cases visit with
    | here => exact .inl goes
    | next _ _ visit => exact only other left visit

/-- A call that repeats itself: nothing is used, nothing changes, nothing stops it. -/
def Stalls (step : Consumer σ α ω ε) (state : σ) (chunk : List α) : Prop :=
  step state chunk = ⟨state, [], 0, none⟩

/-- A call that repeats itself is never left. -/
theorem feed_of_stalls (unread : chunk ≠ []) (stalls : Stalls step state chunk) (fuel : Nat) :
    feed step fuel state chunk = none := by
  induction fuel with
  | zero => exact feed_zero unread
  | succ fuel ih =>
    have same : step state chunk = ⟨state, [], 0, none⟩ := stalls
    have goes : (step state chunk).stop = none := by rw [same]
    rw [feed_of_next unread goes, same, List.drop_zero, ih]
    rfl

/-- A reading that returns never makes a call that repeats itself. -/
theorem Returns.not_stalls {later : σ} {rest : List α} (read : Returns step state chunk o)
    (visit : Visits step state chunk later rest) : ¬ Stalls step later rest := by
  induction visit generalizing o with
  | here unread =>
    intro stalls
    obtain ⟨fuel, found⟩ := read
    rw [feed_of_stalls unread stalls fuel] at found
    cases found
  | next unread goes _ ih =>
    obtain ⟨later, reached, _⟩ := read.next unread goes
    exact ih reached

/-- Where every visited call uses a symbol or stops, the loop returns within one call a symbol. -/
theorem feed_of_progress (bound : Nat) (short : chunk.length ≤ bound)
    (progress : ∀ later rest, Visits step state chunk later rest →
      (step later rest).stop = none → 0 < (step later rest).used) :
    ∃ o, feed step bound state chunk = some o := by
  induction bound generalizing state chunk with
  | zero =>
    rw [List.length_eq_zero_iff.mp (Nat.le_zero.mp short)]
    exact ⟨_, feed_nil 0⟩
  | succ bound ih =>
    by_cases unread : chunk = []
    · rw [unread]
      exact ⟨_, feed_nil _⟩
    cases stops : (step state chunk).stop with
    | some reason => exact ⟨_, feed_of_stop unread stops⟩
    | none =>
      have used := progress state chunk (.here unread) stops
      have length := List.length_pos_iff.mpr unread
      have shorter : (chunk.drop (step state chunk).used).length ≤ bound := by
        rw [List.length_drop]
        omega
      obtain ⟨o, found⟩ := ih shorter
        (fun later rest visit => progress later rest (.next unread stops visit))
      exact ⟨o.after (step state chunk).out, by rw [feed_of_next unread stops, found]; rfl⟩

/-- Exact termination: where each visited call stops, uses a symbol or repeats itself, the loop
returns exactly when no visited call repeats itself. -/
theorem returns_iff_not_stalls
    (moves : ∀ later rest, Visits step state chunk later rest →
      (step later rest).stop = none → Stalls step later rest ∨ 0 < (step later rest).used) :
    (∃ o, Returns step state chunk o) ↔
      ∀ later rest, Visits step state chunk later rest → ¬ Stalls step later rest := by
  constructor
  · rintro ⟨o, read⟩ later rest visit
    exact read.not_stalls visit
  · intro free
    obtain ⟨o, found⟩ := feed_of_progress chunk.length (Nat.le_refl _) (fun later rest visit goes =>
      (moves later rest visit goes).resolve_left (free later rest visit))
    exact ⟨o, _, found⟩

/-! ## Cut points -/

/-- The laws of a consumer whose calls do not depend on where a chunk is cut, on the states of
an invariant. -/
structure Splits (step : Consumer σ α ω ε) (Inv : σ → Prop) : Prop where
  /-- A call that goes on keeps the invariant. -/
  preserves : ∀ state chunk, Inv state → chunk ≠ [] → (step state chunk).stop = none →
    Inv (step state chunk).state
  /-- A call that goes on uses a symbol, and none that is not there. -/
  progress : ∀ state chunk, Inv state → chunk ≠ [] → (step state chunk).stop = none →
    0 < (step state chunk).used ∧ (step state chunk).used ≤ chunk.length
  /-- A call sees no difference when the chunk goes on, or it is the first half of that call. -/
  cut : ∀ state first second, Inv state → first ≠ [] → second ≠ [] →
    step state (first ++ second) = step state first ∨
    ((step state first).stop = none ∧ (step state first).used = first.length ∧
      step state (first ++ second) =
        ⟨(step (step state first).state second).state,
          (step state first).out ++ (step (step state first).state second).out,
          first.length + (step (step state first).state second).used,
          (step (step state first).state second).stop⟩)

namespace Splits

variable {Inv : σ → Prop} (laws : Splits step Inv)
include laws

/-- Every state visited from a state of the invariant is one. -/
theorem visits {later : σ} {rest : List α} (holds : Inv state)
    (visit : Visits step state chunk later rest) : Inv later := by
  induction visit with
  | here => exact holds
  | next unread goes _ ih => exact ih (laws.preserves _ _ holds unread goes)

/-- The loop returns from every state of the invariant. -/
theorem feed_total (holds : Inv state) (chunk : List α) :
    ∃ o, feed step chunk.length state chunk = some o :=
  feed_of_progress chunk.length (Nat.le_refl _) fun later rest visit goes =>
    (laws.progress later rest (laws.visits holds visit) visit.unread goes).1

/-- A reading that was not stopped ends in a state of the invariant. -/
theorem returns_inv (holds : Inv state) (read : Returns step state chunk o)
    (unstopped : o.stop = none) : Inv o.state := by
  induction read using Returns.induction_on with
  | nothing state => exact holds
  | stopped state chunk reason unread stops => cases unstopped
  | next state chunk inner unread goes _ ih =>
    exact ih (laws.preserves state chunk holds unread goes) unstopped

/-- Reading on after a reading that was not stopped is reading the two chunks as one. -/
theorem returns_append {first second : List α} {o₁ o₂ : Outcome σ ω ε} (holds : Inv state)
    (read : Returns step state first o₁) (unstopped : o₁.stop = none)
    (later : Returns step o₁.state second o₂) :
    Returns step state (first ++ second) (o₂.after o₁.out) := by
  by_cases noSecond : second = []
  · subst noSecond
    rw [later.unique returns_nil, List.append_nil]
    obtain ⟨last, out, stop⟩ := o₁
    subst unstopped
    simpa [Outcome.after] using read
  induction read using Returns.induction_on with
  | nothing state => exact later
  | stopped state first reason _ _ => cases unstopped
  | next state first inner noFirst goes reached ih =>
    have unread : first ++ second ≠ [] := List.append_ne_nil_of_left_ne_nil noFirst second
    have inside := (laws.progress state first holds noFirst goes).2
    rcases laws.cut state first second holds noFirst noSecond with same | ⟨_, all, joined⟩
    · have rest := ih (laws.preserves state first holds noFirst goes) unstopped later
      rw [← List.drop_append_of_le_length inside] at rest
      have whole := returns_of_next step state unread
        (by rw [same]; exact goes) (by rw [same]; exact rest)
      simpa [same] using whole
    · rw [all, List.drop_length] at reached
      rw [reached.unique returns_nil] at later ⊢
      cases stops : (step (step state first).state second).stop with
      | some reason =>
        rw [later.unique (returns_of_stop step _ noSecond stops)]
        have whole := returns_of_stop step state unread
          (by rw [joined]; exact stops)
        simpa [joined, Outcome.after] using whole
      | none =>
        obtain ⟨last, tail, rfl⟩ := later.next noSecond stops
        have whole := returns_of_next step state unread (by rw [joined]; exact stops)
          (o := last) (by
            rw [joined, List.drop_append, List.drop_eq_nil_of_le (by simp)]
            simpa using tail)
        simpa [joined, Outcome.after] using whole

/-- A reading that was stopped never sees what would have come next. -/
theorem returns_append_stop {first : List α} (second : List α) (holds : Inv state)
    (read : Returns step state first o) (stopped : o.stop ≠ none) :
    Returns step state (first ++ second) o := by
  by_cases noSecond : second = []
  · subst noSecond
    rwa [List.append_nil]
  induction read using Returns.induction_on with
  | nothing state => exact absurd rfl stopped
  | stopped state first reason noFirst stops =>
    have unread : first ++ second ≠ [] := List.append_ne_nil_of_left_ne_nil noFirst second
    rcases laws.cut state first second holds noFirst noSecond with same | ⟨goes, _, _⟩
    · have whole := returns_of_stop step state unread
        (by rw [same]; exact stops)
      simpa [same] using whole
    · rw [stops] at goes
      cases goes
  | next state first inner noFirst goes reached ih =>
    have unread : first ++ second ≠ [] := List.append_ne_nil_of_left_ne_nil noFirst second
    have inside := (laws.progress state first holds noFirst goes).2
    rcases laws.cut state first second holds noFirst noSecond with same | ⟨_, all, _⟩
    · have rest := ih (laws.preserves state first holds noFirst goes) stopped
      rw [← List.drop_append_of_le_length inside] at rest
      have whole := returns_of_next step state unread
        (by rw [same]; exact goes) (by rw [same]; exact rest)
      simpa [same] using whole
    · rw [all, List.drop_length] at reached
      rw [reached.unique returns_nil] at stopped
      exact absurd rfl stopped

/-- A reading stops in the front of what it reads, or it reads the front and then the rest. -/
theorem returns_parts {first second : List α} (holds : Inv state)
    (read : Returns step state (first ++ second) o) :
    (o.stop ≠ none ∧ Returns step state first o) ∨
      ∃ front later, Returns step state first front ∧ front.stop = none ∧
        Returns step front.state second later ∧ o = later.after front.out := by
  obtain ⟨front, found⟩ := laws.feed_total holds first
  have here : Returns step state first front := ⟨_, found⟩
  by_cases goes : front.stop = none
  · have kept := laws.returns_inv holds here goes
    obtain ⟨later, behind⟩ := laws.feed_total kept second
    have same := read.unique (laws.returns_append holds here goes ⟨_, behind⟩)
    exact .inr ⟨front, later, here, goes, ⟨_, behind⟩, same⟩
  · obtain rfl := read.unique (laws.returns_append_stop second holds here goes)
    exact .inl ⟨goes, here⟩

end Splits

/-! ## A sequence of chunks -/

/-- One chunk after another, for a caller that only a fatal reason keeps from the next chunk. -/
def deliver (step : Consumer σ α ω ε) (fatal : ε → Bool) :
    σ → List (List α) → Option (Outcome σ ω ε)
  | state, [] => some ⟨state, [], none⟩
  | state, chunk :: chunks =>
    match feed step (chunk.length + 1) state chunk with
    | none => none
    | some first =>
      if first.stop.any fatal then some first
      else (deliver step fatal first.state chunks).map (·.after first.out)

/-- What every call keeps and puts out, a reading keeps and puts out, stopped or not. -/
theorem Returns.forall (Inv : σ → Prop) (P : ω → Prop)
    (keeps : ∀ state chunk, Inv state → chunk ≠ [] → Inv (step state chunk).state)
    (puts : ∀ state chunk, Inv state → chunk ≠ [] → ∀ event ∈ (step state chunk).out, P event)
    (holds : Inv state) (read : Returns step state chunk o) :
    Inv o.state ∧ ∀ event ∈ o.out, P event := by
  induction read using Returns.induction_on with
  | nothing state => exact ⟨holds, fun event member => absurd member List.not_mem_nil⟩
  | stopped state chunk reason unread _ =>
    exact ⟨keeps state chunk holds unread, puts state chunk holds unread⟩
  | next state chunk inner unread _ _ ih =>
    obtain ⟨last, later⟩ := ih (keeps state chunk holds unread)
    refine ⟨last, fun event member => ?_⟩
    rcases List.mem_append.mp member with early | late
    · exact puts state chunk holds unread event early
    · exact later event late

/-- What every call keeps, a reading keeps, stopped or not. -/
theorem Returns.invariant {Inv : σ → Prop}
    (keeps : ∀ state chunk, Inv state → chunk ≠ [] → Inv (step state chunk).state)
    (holds : Inv state) (read : Returns step state chunk o) : Inv o.state :=
  (read.forall Inv (fun _ => True) keeps (fun _ _ _ _ _ _ => trivial) holds).1

/-- What every call puts out, every delivery puts out, as long as the calls keep what they need. -/
theorem deliver_forall {fatal : ε → Bool} (Inv : σ → Prop) (P : ω → Prop)
    (keeps : ∀ state chunk, Inv state → chunk ≠ [] → Inv (step state chunk).state)
    (puts : ∀ state chunk, Inv state → chunk ≠ [] → ∀ event ∈ (step state chunk).out, P event)
    {chunks : List (List α)} (holds : Inv state)
    (found : deliver step fatal state chunks = some o) : ∀ event ∈ o.out, P event := by
  induction chunks generalizing state o with
  | nil =>
    simp only [deliver, Option.some.injEq] at found
    subst found
    simp
  | cons chunk chunks ih =>
    simp only [deliver] at found
    cases read : feed step (chunk.length + 1) state chunk with
    | none => simp [read] at found
    | some first =>
      obtain ⟨kept, put⟩ := Returns.forall Inv P keeps puts holds ⟨_, read⟩
      simp only [read] at found
      split at found
      · rw [Option.some.injEq] at found
        subst found
        exact put
      · obtain ⟨inner, reached, rfl⟩ := Option.map_eq_some_iff.mp found
        intro event member
        rcases List.mem_append.mp member with early | late
        · exact put event early
        · exact ih kept reached event late

/-- A chunk is read, and the next ones are delivered unless a fatal reason stopped its reading. -/
theorem deliver_cons {fatal : ε → Bool} {chunks : List (List α)} {first : Outcome σ ω ε}
    (found : feed step chunk.length state chunk = some first) :
    deliver step fatal state (chunk :: chunks) =
      if first.stop.any fatal then some first
      else (deliver step fatal first.state chunks).map (·.after first.out) := by
  simp only [deliver, feed_succ found]

/-- Delivering chunks is reading what they hold in all, where nothing but a fatal reason stops
that reading. -/
theorem Splits.deliver_flatten {Inv : σ → Prop} (laws : Splits step Inv) {fatal : ε → Bool}
    {chunks : List (List α)} (holds : Inv state) (read : Returns step state chunks.flatten o)
    (harmless : ∀ reason, o.stop = some reason → fatal reason = true) :
    deliver step fatal state chunks = some o := by
  induction chunks generalizing state o with
  | nil => rw [read.unique returns_nil]; rfl
  | cons chunk chunks ih =>
    obtain ⟨first, found⟩ := laws.feed_total holds chunk
    rw [deliver_cons found]
    rcases laws.returns_parts holds read with
      ⟨stops, here⟩ | ⟨front, later, here, goes, behind, rfl⟩
    · obtain rfl := Returns.unique ⟨_, found⟩ here
      obtain ⟨reason, stopped⟩ := Option.ne_none_iff_exists'.mp stops
      rw [stopped, Option.any_some, if_pos (harmless reason stopped)]
    · obtain rfl := Returns.unique ⟨_, found⟩ here
      have kept := laws.returns_inv holds here goes
      rw [goes, Option.any_none, if_neg Bool.false_ne_true, ih kept behind harmless]
      rfl

/-- Chunks without their first symbols. -/
def dropSymbols : Nat → List (List α) → List (List α)
  | _, [] => []
  | count, chunk :: chunks =>
    if chunk.length ≤ count then dropSymbols (count - chunk.length) chunks
    else chunk.drop count :: chunks

/-- What is left of chunks is what they hold behind the symbols that are dropped. -/
theorem flatten_dropSymbols (count : Nat) (chunks : List (List α)) :
    (dropSymbols count chunks).flatten = chunks.flatten.drop count := by
  induction chunks generalizing count with
  | nil => simp [dropSymbols]
  | cons chunk chunks ih =>
    rw [dropSymbols, List.flatten_cons, List.drop_append]
    split
    · next whole => rw [ih, List.drop_eq_nil_of_le whole, List.nil_append]
    · next within =>
      rw [Nat.sub_eq_zero_of_le (Nat.le_of_not_le within), List.drop_zero, List.flatten_cons]

/-- Chunks of the same sizes are left with the same sizes. -/
theorem dropSymbols_sizes (count : Nat) {chunks others : List (List α)}
    (same : chunks.map List.length = others.map List.length) :
    (dropSymbols count chunks).map List.length = (dropSymbols count others).map List.length := by
  induction chunks generalizing count others with
  | nil =>
    cases others with
    | nil => rfl
    | cons other others => cases same
  | cons chunk chunks ih =>
    cases others with
    | nil => cases same
    | cons other others =>
      rw [List.map_cons, List.map_cons, List.cons.injEq] at same
      rw [dropSymbols, dropSymbols, same.1]
      split
      · exact ih _ same.2
      · rw [List.map_cons, List.map_cons, List.length_drop, List.length_drop, same.1, same.2]

/-- The delivery of one chunk puts out what its reading does. -/
theorem Splits.deliver_single {Inv : σ → Prop} (laws : Splits step Inv) (fatal : ε → Bool)
    (holds : Inv state) (read : Returns step state chunk o) :
    ∃ last, deliver step fatal state [chunk] = some last ∧ last.out = o.out := by
  obtain ⟨first, found⟩ := laws.feed_total holds chunk
  obtain rfl := read.unique ⟨_, found⟩
  rw [deliver_cons found]
  split
  · exact ⟨o, rfl, rfl⟩
  · exact ⟨_, rfl, List.append_nil o.out⟩

/-- Every delivery returns, where every call keeps the invariant. -/
theorem Splits.deliver_total {Inv : σ → Prop} (laws : Splits step Inv) {fatal : ε → Bool}
    (keeps : ∀ state chunk, Inv state → chunk ≠ [] → Inv (step state chunk).state)
    (holds : Inv state) (chunks : List (List α)) :
    ∃ o, deliver step fatal state chunks = some o := by
  induction chunks generalizing state with
  | nil => exact ⟨_, rfl⟩
  | cons chunk chunks ih =>
    obtain ⟨first, found⟩ := laws.feed_total holds chunk
    rw [deliver_cons found]
    split
    · exact ⟨first, rfl⟩
    · obtain ⟨later, behind⟩ := ih (Returns.invariant keeps holds ⟨_, found⟩)
      exact ⟨later.after first.out, by rw [behind]; rfl⟩

/-- Where the front of what chunks hold is read without a stop, the rest is delivered from the
state that is reached, cut as before. -/
theorem Splits.deliver_front {Inv : σ → Prop} (laws : Splits step Inv) {fatal : ε → Bool}
    {chunks : List (List α)} {front rest : List α} {middle : σ} {out : List ω} (holds : Inv state)
    (read : Returns step state front ⟨middle, out, none⟩) (cut : chunks.flatten = front ++ rest) :
    deliver step fatal state chunks =
      (deliver step fatal middle (dropSymbols front.length chunks)).map (·.after out) := by
  induction chunks generalizing state front out with
  | nil =>
    obtain ⟨rfl, _⟩ := List.append_eq_nil_iff.mp cut.symm
    obtain ⟨rfl, rfl, _⟩ := Outcome.mk.inj (read.unique returns_nil)
    rfl
  | cons chunk chunks ih =>
    rw [List.flatten_cons] at cut
    by_cases whole : chunk.length ≤ front.length
    · obtain ⟨tail, rfl⟩ := List.prefix_of_prefix_length_le
        ⟨chunks.flatten, rfl⟩ ⟨rest, cut.symm⟩ whole
      rw [List.append_assoc] at cut
      obtain ⟨first, found⟩ := laws.feed_total holds chunk
      rcases laws.returns_parts holds read with
        ⟨stops, _⟩ | ⟨front, ⟨last, behind, stop⟩, here, goes, later, same⟩
      · exact absurd rfl stops
      obtain rfl := Returns.unique ⟨_, found⟩ here
      obtain ⟨rfl, rfl, rfl⟩ := Outcome.mk.inj same
      have kept := laws.returns_inv holds here goes
      have inner := ih kept later (List.append_cancel_left cut)
      have left : dropSymbols (chunk ++ tail).length (chunk :: chunks) =
          dropSymbols tail.length chunks := by
        rw [dropSymbols, if_pos whole, List.length_append, Nat.add_sub_cancel_left]
      rw [deliver_cons found, goes, Option.any_none, if_neg Bool.false_ne_true, inner, left,
        Option.map_map]
      exact congrArg (Option.map · _) (funext fun o => Outcome.after_after o first.out behind)
    · obtain ⟨tail, rfl⟩ := List.prefix_of_prefix_length_le
        ⟨rest, rfl⟩ ⟨chunks.flatten, cut⟩ (Nat.le_of_not_le whole)
      have kept := laws.returns_inv holds read rfl
      obtain ⟨second, later⟩ := laws.feed_total kept tail
      obtain ⟨both, found⟩ := laws.feed_total holds (front ++ tail)
      obtain rfl := Returns.unique ⟨_, found⟩ (laws.returns_append holds read rfl ⟨_, later⟩)
      have left : dropSymbols front.length ((front ++ tail) :: chunks) = tail :: chunks := by
        rw [dropSymbols, if_neg whole, List.drop_left]
      rw [deliver_cons found, left, deliver_cons later, Outcome.after_stop]
      split
      · rfl
      · rw [Option.map_map]
        exact congrArg (Option.map · _)
          (funext fun o => (Outcome.after_after o out second.out).symm)

end Hnw.Theory
