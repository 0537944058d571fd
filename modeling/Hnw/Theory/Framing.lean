import Hnw.Theory.Consumer

/-!
# Frames in a stream

A consumer that begins every frame in one state. A good frame is read whatever follows it, and
leaves the consumer where it began; a bad one stops the reading. Then a stream of good frames is
read frame by frame, and a stream with a bad one puts out less than its frames.
-/

namespace Hnw.Theory

variable {σ α ω ε μ : Type}

/-- What is related to a list has something for each of its elements. -/
theorem forall₂_exists {α β : Type} {R : α → β → Prop} {firsts : List α} {seconds : List β}
    (related : List.Forall₂ R firsts seconds) {first : α} (member : first ∈ firsts) :
    ∃ second ∈ seconds, R first second := by
  induction related with
  | nil => cases member
  | cons here _ ih =>
    rcases List.mem_cons.mp member with rfl | later
    · exact ⟨_, by simp, here⟩
    · obtain ⟨second, inside, there⟩ := ih later
      exact ⟨second, by simp [inside], there⟩

/-- What a consumer does with the frames of a stream, from the state a frame begins in. -/
structure Framing (step : Consumer σ α ω ε) (start : σ) (wire : μ → List α) (Valid Good : μ → Prop)
    (Puts : μ → List ω → Prop) (reason : ε) : Prop where
  /-- A good frame is read. -/
  reads : ∀ frame, Valid frame → Good frame → ∃ out, Puts frame out ∧
    ∀ more o, Returns step start more o → Returns step start (wire frame ++ more) (o.after out)
  /-- A bad frame stops the reading before it puts anything out. -/
  stops : ∀ frame, Valid frame → ¬ Good frame → ∀ more, ∃ last,
    Returns step start (wire frame ++ more) ⟨last, [], some reason⟩

namespace Framing

variable {step : Consumer σ α ω ε} {start : σ} {wire : μ → List α} {Valid Good : μ → Prop}
  {Puts : μ → List ω → Prop} {reason : ε} {frames : List μ}
  (framing : Framing step start wire Valid Good Puts reason)
include framing

/-- A stream of good frames is read frame by frame. -/
theorem returns_good (valid : ∀ frame ∈ frames, Valid frame)
    (good : ∀ frame ∈ frames, Good frame) :
    ∃ outs, List.Forall₂ Puts frames outs ∧
      Returns step start (frames.flatMap wire) ⟨start, outs.flatten, none⟩ := by
  induction frames with
  | nil => exact ⟨[], .nil, returns_nil⟩
  | cons frame frames ih =>
    obtain ⟨outs, put, read⟩ := ih (fun other member => valid other (by simp [member]))
      (fun other member => good other (by simp [member]))
    obtain ⟨out, first, reads⟩ := framing.reads frame (valid frame (by simp)) (good frame (by simp))
    exact ⟨out :: outs, .cons first put, reads _ _ read⟩

/-- A stream with a bad frame is read up to it. -/
theorem returns_bad (valid : ∀ frame ∈ frames, Valid frame)
    (bad : ¬ ∀ frame ∈ frames, Good frame) :
    ∃ before outs last, before.length < frames.length ∧ List.Forall₂ Puts before outs ∧
      Returns step start (frames.flatMap wire) ⟨last, outs.flatten, some reason⟩ := by
  induction frames with
  | nil => simp at bad
  | cons frame frames ih =>
    by_cases good : Good frame
    · have later : ¬ ∀ other ∈ frames, Good other := by
        intro all
        apply bad
        intro other member
        rcases List.mem_cons.mp member with rfl | behind
        · exact good
        · exact all other behind
      obtain ⟨before, outs, last, fewer, put, read⟩ :=
        ih (fun other member => valid other (by simp [member])) later
      obtain ⟨out, first, reads⟩ := framing.reads frame (valid frame (by simp)) good
      exact ⟨frame :: before, out :: outs, last, by simpa using fewer, .cons first put,
        reads _ _ read⟩
    · obtain ⟨last, read⟩ := framing.stops frame (valid frame (by simp)) good
        (frames.flatMap wire)
      exact ⟨[], [], last, by simp, .nil, read⟩

end Framing

end Hnw.Theory
