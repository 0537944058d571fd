import Mathlib.Data.List.Basic

/-!
# The last write of a history

A field that each call of a history either writes or keeps holds, after the history, the last
value written, or what it held before where no call writes it.
-/

namespace Hnw.Theory

variable {σ γ ν : Type} {writes : γ → Option ν}

/-- The last value a history writes. -/
def lastWrite (writes : γ → Option ν) (calls : List γ) : Option ν :=
  calls.reverse.findSome? writes

/-- A first call decides where no later one writes. -/
theorem lastWrite_cons (writes : γ → Option ν) (call : γ) (calls : List γ) :
    lastWrite writes (call :: calls) = (lastWrite writes calls).or (writes call) := by
  rw [lastWrite, List.reverse_cons, List.findSome?_append, List.findSome?_singleton]
  rfl

/-- A field that each call writes or keeps holds the last write. -/
theorem foldl_lastWrite {step : σ → γ → σ} {field : σ → ν}
    (each : ∀ state call, field (step state call) = (writes call).getD (field state))
    (state : σ) (calls : List γ) :
    field (calls.foldl step state) = (lastWrite writes calls).getD (field state) := by
  induction calls generalizing state with
  | nil => rfl
  | cons call calls ih =>
    rw [List.foldl_cons, ih, each, lastWrite_cons]
    cases lastWrite writes calls <;> rfl

end Hnw.Theory
