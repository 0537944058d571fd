import Hnw.Theory.Consumer
import Hnw.Theory.Transition

/-!
# Readings as a system

A consumer that is given one chunk after another, taken call by call: what is between two calls is
the state and what is unread. A call that stops leaves the rest of its chunk unread for ever, and
after a fatal reason there is no state.
-/

namespace Hnw.Theory

variable {σ α ω ε : Type}

/-- What is between two calls. -/
structure Reading (σ α : Type) where
  /-- The state. -/
  state : σ
  /-- What is unread of the chunk. -/
  unread : List α

/-- What happens to a reading. -/
inductive ReadingLabel (α : Type) where
  /-- The next chunk is given. -/
  | chunk (data : List α)
  /-- The step is called with what is unread. -/
  | call

/-- A call with what is unread. -/
def Reading.call (step : Consumer σ α ω ε) (r : Reading σ α) : Reading σ α where
  state := (step r.state r.unread).state
  unread :=
    if (step r.state r.unread).stop.isNone then r.unread.drop (step r.state r.unread).used else []

/-- The readings of a consumer. -/
def readings (step : Consumer σ α ω ε) (fatal : ε → Bool) (init : σ → Prop) :
    System (Reading σ α) (ReadingLabel α) where
  init r := init r.state ∧ r.unread = []
  step r label next :=
    match label with
    | .chunk data => r.unread = [] ∧ next = ⟨r.state, data⟩
    | .call =>
      r.unread ≠ [] ∧ (step r.state r.unread).stop.any fatal = false ∧ next = r.call step

variable {step : Consumer σ α ω ε} {fatal : ε → Bool} {init : σ → Prop} {state : σ}
  {chunk : List α} {o : Outcome σ ω ε}

/-- A reading that returns is a run of calls. -/
theorem run_of_returns (read : Returns step state chunk o) (harmless : o.stop.any fatal = false) :
    ∃ labels, (readings step fatal init).Run ⟨state, chunk⟩ labels ⟨o.state, []⟩ := by
  induction read using Returns.induction_on with
  | nothing state => exact ⟨[], .nil _⟩
  | stopped state chunk reason unread stops =>
    refine ⟨[.call], .cons trivial ⟨unread, ?_, rfl⟩ ?_⟩
    · rw [stops]
      exact harmless
    · simp only [Reading.call, stops, Option.isNone_some, Bool.false_eq_true, if_false]
      exact .nil _
  | next state chunk inner unread goes _ ih =>
    obtain ⟨labels, run⟩ := ih harmless
    refine ⟨.call :: labels, .cons trivial ⟨unread, ?_, rfl⟩ ?_⟩
    · rw [goes]
      rfl
    · simp only [Reading.call, goes, Option.isNone_none, if_true]
      exact run

/-- What so many calls lead to. -/
def Reading.calls (step : Consumer σ α ω ε) : Nat → Reading σ α → Reading σ α
  | 0, r => r
  | n + 1, r => calls step n (r.call step)

/-- Calls that meet a guard one by one are a run. -/
theorem run_of_calls {guard : Reading σ α → ReadingLabel α → Prop} {n : Nat} {r : Reading σ α}
    (meets : ∀ k < n, guard (r.calls step k) .call ∧ (r.calls step k).unread ≠ [] ∧
      (step (r.calls step k).state (r.calls step k).unread).stop.any fatal = false) :
    ∃ labels, (readings step fatal init).RunWith guard r labels (r.calls step n) := by
  induction n generalizing r with
  | zero => exact ⟨[], .nil _⟩
  | succ n ih =>
    obtain ⟨first, unread, goes⟩ := meets 0 (Nat.zero_lt_succ n)
    obtain ⟨labels, run⟩ := @ih (r.call step) fun k less => meets (k + 1) (Nat.succ_lt_succ less)
    exact ⟨.call :: labels, .cons first ⟨unread, goes, rfl⟩ run⟩

/-- A chunk that is read from a reachable state to its end, or to a reason that is not fatal, leads
to a reachable state. -/
theorem reachable_returns (reached : (readings step fatal init).Reachable ⟨state, []⟩)
    (read : Returns step state chunk o) (harmless : o.stop.any fatal = false) :
    (readings step fatal init).Reachable ⟨o.state, []⟩ := by
  obtain ⟨first, labels, begins, run⟩ := reached
  have given : (readings step fatal init).step ⟨state, []⟩ (.chunk chunk) ⟨state, chunk⟩ :=
    ⟨rfl, rfl⟩
  have calls : ∃ calls, (readings step fatal init).Run ⟨state, chunk⟩ calls ⟨o.state, []⟩ :=
    run_of_returns read harmless
  obtain ⟨calls, later⟩ := calls
  exact ⟨first, _, begins, run.append (.cons trivial given later)⟩

end Hnw.Theory
