import Mathlib.Data.List.Basic

/-!
# Runs of a labelled system

A system has initial states and labelled steps. A run is a list of labels taken in order. The
invariant rule is proved once, with a guard that every step of the run meets: a property that
only some steps keep still holds after the runs made of them.
-/

namespace Hnw.Theory

/-- A system with labelled steps. -/
structure System (σ ℓ : Type) where
  /-- Where a run may begin. -/
  init : σ → Prop
  /-- One step. -/
  step : σ → ℓ → σ → Prop

namespace System

variable {σ ℓ : Type} (S : System σ ℓ)

/-- A run whose steps all meet a guard on the state before the step and its label. -/
inductive RunWith (guard : σ → ℓ → Prop) : σ → List ℓ → σ → Prop where
  | nil (state : σ) : RunWith guard state [] state
  | cons {first middle last : σ} {label : ℓ} {labels : List ℓ} (meets : guard first label)
      (step : S.step first label middle) (rest : RunWith guard middle labels last) :
      RunWith guard first (label :: labels) last

/-- Any run. -/
abbrev Run : σ → List ℓ → σ → Prop := S.RunWith fun _ _ => True

/-- The states some run ends in. -/
def Reachable (last : σ) : Prop := ∃ first labels, S.init first ∧ S.Run first labels last

/-- The states a run of guarded steps ends in. -/
def ReachableWith (guard : σ → ℓ → Prop) (last : σ) : Prop :=
  ∃ first labels, S.init first ∧ S.RunWith guard first labels last

variable {S}

/-- What every guarded step keeps, every guarded run keeps. -/
theorem RunWith.invariant {guard : σ → ℓ → Prop} {P : σ → Prop}
    (keeps : ∀ first label last, P first → guard first label → S.step first label last → P last)
    {first last : σ} {labels : List ℓ} (run : S.RunWith guard first labels last)
    (holds : P first) : P last := by
  induction run with
  | nil => exact holds
  | cons meets step _ ih => exact ih (keeps _ _ _ holds meets step)

/-- A run and a run from where it ends are one. -/
theorem RunWith.append {guard : σ → ℓ → Prop} {first middle last : σ} {labels more : List ℓ}
    (run : S.RunWith guard first labels middle) (later : S.RunWith guard middle more last) :
    S.RunWith guard first (labels ++ more) last := by
  induction run with
  | nil => exact later
  | cons meets step _ ih => exact .cons meets step (ih later)

/-- A guarded run is a run. -/
theorem RunWith.free {guard : σ → ℓ → Prop} {first last : σ} {labels : List ℓ}
    (run : S.RunWith guard first labels last) : S.Run first labels last := by
  induction run with
  | nil => exact .nil _
  | cons _ step _ ih => exact .cons trivial step ih

/-- A guarded run may begin in an initial state. -/
theorem ReachableWith.start {guard : σ → ℓ → Prop} {state : σ} (begins : S.init state) :
    S.ReachableWith guard state :=
  ⟨state, [], begins, .nil state⟩

/-- One more guarded step. -/
theorem ReachableWith.step {guard : σ → ℓ → Prop} {middle last : σ}
    (reached : S.ReachableWith guard middle) (label : ℓ) (meets : guard middle label)
    (step : S.step middle label last) : S.ReachableWith guard last := by
  obtain ⟨first, labels, begins, run⟩ := reached
  exact ⟨first, labels ++ [label], begins, run.append (.cons meets step (.nil last))⟩

/-- A run may begin in an initial state. -/
theorem Reachable.start {state : σ} (begins : S.init state) : S.Reachable state :=
  ReachableWith.start begins

/-- One more step. -/
theorem Reachable.step {middle last : σ} (reached : S.Reachable middle) (label : ℓ)
    (step : S.step middle label last) : S.Reachable last :=
  ReachableWith.step reached label trivial step

/-- What every step pays from a stock, a run pays from it in all. -/
theorem RunWith.paid {guard : σ → ℓ → Prop} (stock : σ → Nat) (pays : ℓ → Bool)
    (spends : ∀ first label last, S.step first label last →
      (if pays label then 1 else 0) + stock last ≤ stock first)
    {first last : σ} {labels : List ℓ} (run : S.RunWith guard first labels last) :
    labels.countP pays + stock last ≤ stock first := by
  induction run with
  | nil => simp
  | @cons first middle last label labels _ step _ ih =>
    have here := spends _ _ _ step
    rw [List.countP_cons]
    omega

/-- Where an amount never shrinks, and every step that does not meet a guard takes it past a limit,
a run that ends within the limit meets the guard. -/
theorem RunWith.guarded {guard : σ → ℓ → Prop} {I : σ → Prop} (amount : σ → Nat) {limit : Nat}
    (keeps : ∀ first label last, I first → S.step first label last → I last)
    (grows : ∀ first label last, I first → S.step first label last → amount first ≤ amount last)
    (exceeds : ∀ first label last, I first → S.step first label last → ¬ guard first label →
      limit < amount last)
    {first last : σ} {labels : List ℓ} (run : S.Run first labels last) (holds : I first)
    (within : amount last ≤ limit) : S.RunWith guard first labels last := by
  have both : S.RunWith guard first labels last ∧ amount first ≤ amount last := by
    induction run with
    | nil state => exact ⟨.nil state, Nat.le_refl _⟩
    | @cons first middle last label labels _ step _ ih =>
      obtain ⟨rest, more⟩ := ih (keeps _ _ _ holds step) within
      have here := grows _ _ _ holds step
      refine ⟨.cons ?_ step rest, Nat.le_trans here more⟩
      by_contra unguarded
      have past := exceeds _ _ _ holds step unguarded
      omega
  exact both.1

/-- An inductive property holds in every state that guarded steps reach. -/
theorem ReachableWith.invariant {guard : σ → ℓ → Prop} {P : σ → Prop}
    (start : ∀ state, S.init state → P state)
    (keeps : ∀ first label last, P first → guard first label → S.step first label last → P last)
    {last : σ} (reached : S.ReachableWith guard last) : P last := by
  obtain ⟨first, _, begins, run⟩ := reached
  exact run.invariant keeps (start first begins)

/-- An inductive property holds in every reachable state. -/
theorem Reachable.invariant {P : σ → Prop} (start : ∀ state, S.init state → P state)
    (keeps : ∀ first label last, P first → S.step first label last → P last) {last : σ}
    (reached : S.Reachable last) : P last :=
  ReachableWith.invariant start
    (fun first label last holds _ step => keeps first label last holds step) reached

end System

end Hnw.Theory
