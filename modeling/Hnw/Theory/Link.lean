import Mathlib.Data.List.Forall2
import Hnw.Theory.Framing

/-!
# Links

A link is the end of a stream at which a consumer reads: how much of the stream it took, in what
chunks does not matter, and what it made of it. What was written and not taken is on its way. In a
stream of frames the consumer never puts out more than the first frames do, in their order; and it
puts out all of them once it took everything.
-/

namespace Hnw.Theory

variable {σ α ω ε μ ν : Type}

/-- The end of a stream at which a consumer reads. -/
structure Link (σ ω : Type) where
  /-- How many symbols it took. -/
  taken : Nat
  /-- The state of the consumer. -/
  state : σ
  /-- Everything it put out. -/
  out : List ω
  /-- Nothing is taken any more. -/
  down : Bool

/-! ## Deliveries one after another -/

section Deliver

variable {step : Consumer σ α ω ε} {fatal : ε → Bool} {state : σ}

/-- Chunks that come after a delivery that no fatal reason ended. -/
theorem deliver_append {chunks : List (List α)} {o : Outcome σ ω ε} (more : List (List α))
    (found : deliver step fatal state chunks = some o) (goes : o.stop.any fatal = false) :
    deliver step fatal state (chunks ++ more) =
      (deliver step fatal o.state more).map (·.after o.out) := by
  induction chunks generalizing state o with
  | nil =>
    obtain rfl : ⟨state, [], none⟩ = o := Option.some.inj found
    simp
  | cons chunk chunks ih =>
    rw [List.cons_append]
    simp only [deliver] at found ⊢
    cases read : feed step (chunk.length + 1) state chunk with
    | none => simp [read] at found
    | some first =>
      simp only [read] at found ⊢
      by_cases ends : first.stop.any fatal = true
      · rw [if_pos ends, Option.some.injEq] at found
        rw [found, goes] at ends
        cases ends
      · rw [if_neg ends] at found ⊢
        obtain ⟨inner, reached, rfl⟩ := Option.map_eq_some_iff.mp found
        rw [ih reached goes, Option.map_map]
        exact congrArg (Option.map · _)
          (funext fun o => Outcome.after_after o first.out inner.out)

/-- One more chunk. -/
theorem deliver_snoc {chunks : List (List α)} {chunk : List α} {o last : Outcome σ ω ε}
    (found : deliver step fatal state chunks = some o) (goes : o.stop.any fatal = false)
    (read : feed step (chunk.length + 1) o.state chunk = some last) :
    ∃ whole, deliver step fatal state (chunks ++ [chunk]) = some whole ∧
      whole.state = last.state ∧ whole.out = o.out ++ last.out ∧
      whole.stop.any fatal = last.stop.any fatal := by
  rw [deliver_append [chunk] found goes]
  simp only [deliver, read]
  by_cases ends : last.stop.any fatal = true
  · exact ⟨last.after o.out, by rw [if_pos ends]; rfl, rfl, rfl, rfl⟩
  · have calm : last.stop.any fatal = false := by simpa using ends
    refine ⟨⟨last.state, o.out ++ last.out, none⟩, ?_, rfl, rfl, calm.symm⟩
    rw [if_neg ends]
    simp [Outcome.after]

end Deliver

namespace Link

/-- A consumer before it took anything. -/
def fresh (start : σ) : Link σ ω := ⟨0, start, [], false⟩

/-- The chunk a consumer takes next. -/
def chunk (link : Link σ ω) (written : List α) (count : Nat) : List α :=
  (written.drop link.taken).take count

/-- A chunk is taken and read; `none` where nothing is taken any more. -/
def read (step : Consumer σ α ω ε) (fatal : ε → Bool) (written : List α) (count : Nat)
    (link : Link σ ω) : Option (Link σ ω) :=
  let chunk := link.chunk written count
  if link.down then none
  else
    (feed step (chunk.length + 1) link.state chunk).map fun o =>
      ⟨link.taken + chunk.length, o.state, link.out ++ o.out, o.stop.any fatal⟩

/-- The stream is cut off. -/
def cut (link : Link σ ω) : Link σ ω := { link with down := true }

/-- A consumer that took a part of a stream: it was delivered in some chunks. -/
structure Carries (step : Consumer σ α ω ε) (fatal : ε → Bool) (start : σ) (written : List α)
    (link : Link σ ω) : Prop where
  /-- The chunks are the beginning of the stream, and the consumer is where they lead. -/
  delivered : ∃ chunks o, deliver step fatal start chunks = some o ∧
    chunks.flatten = written.take link.taken ∧ o.state = link.state ∧ o.out = link.out ∧
    (link.down = false → o.stop.any fatal = false)
  /-- It took nothing that was not written. -/
  inside : link.taken ≤ written.length

variable {step : Consumer σ α ω ε} {fatal : ε → Bool} {start : σ} {written : List α}
  {link : Link σ ω}

/-- Before anything is taken. -/
theorem Carries.fresh : Carries step fatal start [] (.fresh start) :=
  ⟨⟨[], ⟨start, [], none⟩, rfl, rfl, rfl, rfl, fun _ => rfl⟩, Nat.le_refl _⟩

/-- What is written later does not change what was taken. -/
theorem Carries.write (carries : Carries step fatal start written link) (more : List α) :
    Carries step fatal start (written ++ more) link := by
  obtain ⟨⟨chunks, o, found, taken, same⟩, inside⟩ := carries
  refine ⟨⟨chunks, o, found, ?_, same⟩, ?_⟩
  · rw [taken, List.take_append_of_le_length inside]
  · rw [List.length_append]
    omega

/-- A stream that is cut off was taken as far as it was. -/
theorem Carries.cut (carries : Carries step fatal start written link) :
    Carries step fatal start written link.cut := by
  obtain ⟨⟨chunks, o, found, taken, state, out, _⟩, inside⟩ := carries
  exact ⟨⟨chunks, o, found, taken, state, out, nofun⟩, inside⟩

/-- What is put out for a chunk comes behind the rest. -/
theorem read_out {count : Nat} {next : Link σ ω}
    (reads : link.read step fatal written count = some next) :
    ∃ more, next.out = link.out ++ more := by
  rw [Link.read] at reads
  split at reads
  · cases reads
  · obtain ⟨last, _, rfl⟩ := Option.map_eq_some_iff.mp reads
    exact ⟨last.out, rfl⟩

/-- A chunk that is taken is delivered behind the others. -/
theorem Carries.read (carries : Carries step fatal start written link) {count : Nat}
    {next : Link σ ω} (reads : link.read step fatal written count = some next) :
    Carries step fatal start written next := by
  obtain ⟨⟨chunks, o, found, taken, state, out, open_⟩, inside⟩ := carries
  rw [Link.read] at reads
  split at reads
  · cases reads
  · next up =>
    obtain ⟨last, fed, rfl⟩ := Option.map_eq_some_iff.mp reads
    rw [← state] at fed
    obtain ⟨whole, delivered, lastState, lastOut, ends⟩ :=
      deliver_snoc found (open_ (by simpa using up)) fed
    have length : (link.chunk written count).length ≤ written.length - link.taken := by
      rw [chunk, List.length_take, List.length_drop]
      omega
    refine ⟨⟨chunks ++ [link.chunk written count], whole, delivered, ?_, lastState, ?_, ?_⟩, ?_⟩
    · rw [List.flatten_append, taken, List.flatten_singleton, List.take_add, chunk]
      congr 1
      rw [List.length_take, Nat.min_def]
      split
      · rfl
      · next all =>
        rw [List.take_length, List.take_of_length_le (by omega)]
    · rw [lastOut, out]
    · intro calm
      exact ends.trans calm
    · show link.taken + (link.chunk written count).length ≤ written.length
      omega

end Link

/-! ## Frames on a link -/

/-- A prefix of a list related to another one is related to a prefix of that. -/
theorem forall₂_of_prefix {β : Type} {R : μ → β → Prop} {firsts : List μ} {seconds part : List β}
    (related : List.Forall₂ R firsts seconds) (front : part <+: seconds) :
    List.Forall₂ R (firsts.take part.length) part := by
  have cut := List.forall₂_take part.length related
  rwa [← List.prefix_iff_eq_take.mp front] at cut

/-- Lists that are related by way of a third one. -/
theorem forall₂_comp {β γ : Type} {R : μ → β → Prop} {S : β → γ → Prop} {firsts : List μ}
    {middles : List β} {lasts : List γ} (left : List.Forall₂ R firsts middles)
    (right : List.Forall₂ S middles lasts) :
    List.Forall₂ (fun first last => ∃ middle, R first middle ∧ S middle last) firsts lasts := by
  induction left generalizing lasts with
  | nil =>
    cases right
    exact .nil
  | cons here _ ih =>
    cases right with
    | cons there behind => exact .cons ⟨_, here, there⟩ (ih behind)

namespace Framing

variable {step : Consumer σ α ω ε} {start : σ} {wire : μ → List α} {Valid Good : μ → Prop}
  {Puts : μ → List ω → Prop} {reason : ε} {frames : List μ}

/-- Things that are written as frames are frames. -/
theorem comap (framing : Framing step start wire Valid Good Puts reason) (frame : ν → μ)
    {wire' : ν → List α} {Valid' : ν → Prop} (same : ∀ n, Valid' n → wire' n = wire (frame n))
    (valid : ∀ n, Valid' n → Valid (frame n)) :
    Framing step start wire' Valid' (fun n => Good (frame n)) (fun n => Puts (frame n)) reason where
  reads n holds good := by
    rw [same n holds]
    exact framing.reads (frame n) (valid n holds) good
  stops n holds bad := by
    rw [same n holds]
    exact framing.stops (frame n) (valid n holds) bad

variable (framing : Framing step start wire Valid Good Puts reason)
include framing

/-- A stream of frames is read as its first frames, up to a bad one. -/
theorem returns_frames (valid : ∀ frame ∈ frames, Valid frame) :
    ∃ before outs last, before <+: frames ∧ List.Forall₂ Puts before outs ∧
      (Returns step start (frames.flatMap wire) ⟨last, outs.flatten, none⟩ ∨
        Returns step start (frames.flatMap wire) ⟨last, outs.flatten, some reason⟩) := by
  induction frames with
  | nil => exact ⟨[], [], start, List.nil_prefix, .nil, .inl returns_nil⟩
  | cons frame frames ih =>
    by_cases good : Good frame
    · obtain ⟨before, outs, last, front, put, read⟩ :=
        ih fun other member => valid other (by simp [member])
      obtain ⟨out, first, reads⟩ := framing.reads frame (valid frame (by simp)) good
      refine ⟨frame :: before, out :: outs, last, ?_, .cons first put, ?_⟩
      · exact List.cons_prefix_cons.mpr ⟨rfl, front⟩
      · exact read.imp (reads _ _) (reads _ _)
    · obtain ⟨last, read⟩ := framing.stops frame (valid frame (by simp)) good
        (frames.flatMap wire)
      exact ⟨[], [], last, List.nil_prefix, .nil, .inr read⟩

/-- Whatever part of a stream of frames is delivered, what is put out is the beginning of what the
first frames put out. -/
theorem deliver_begins {Inv : σ → Prop} (laws : Splits step Inv) (holds : Inv start)
    {fatal : ε → Bool} (fatalReason : fatal reason = true)
    (valid : ∀ frame ∈ frames, Valid frame) {chunks : List (List α)}
    (front : chunks.flatten <+: frames.flatMap wire) {o : Outcome σ ω ε}
    (found : deliver step fatal start chunks = some o) :
    ∃ before outs, before <+: frames ∧ List.Forall₂ Puts before outs ∧ o.out <+: outs.flatten := by
  obtain ⟨before, outs, last, first, put, read⟩ := framing.returns_frames valid
  obtain ⟨rest, whole⟩ := front
  refine ⟨before, outs, first, put, ?_⟩
  have all : ∃ stop, Returns step start (chunks.flatten ++ rest) ⟨last, outs.flatten, stop⟩ ∧
      ∀ other, stop = some other → fatal other = true := by
    rw [whole]
    rcases read with read | read
    · exact ⟨none, read, nofun⟩
    · exact ⟨some reason, read, fun other same => Option.some.inj same ▸ fatalReason⟩
  obtain ⟨stop, read, harmless⟩ := all
  rcases laws.returns_parts holds read with ⟨_, here⟩ | ⟨part, later, here, goes, _, same⟩
  · have delivered := laws.deliver_flatten holds here harmless
    obtain rfl := Option.some.inj (delivered.symm.trans found)
    exact List.prefix_refl _
  · have delivered : deliver step fatal start chunks = some part :=
      laws.deliver_flatten holds here (by rw [goes]; nofun)
    obtain rfl := Option.some.inj (delivered.symm.trans found)
    have out := congrArg Outcome.out same
    exact ⟨later.out, out.symm⟩

/-- Where all of a stream of good frames is delivered, what is put out is what they put out. -/
theorem deliver_good {Inv : σ → Prop} (laws : Splits step Inv) (holds : Inv start)
    {fatal : ε → Bool} (valid : ∀ frame ∈ frames, Valid frame)
    (good : ∀ frame ∈ frames, Good frame) {chunks : List (List α)}
    (all : chunks.flatten = frames.flatMap wire) {o : Outcome σ ω ε}
    (found : deliver step fatal start chunks = some o) :
    ∃ outs, List.Forall₂ Puts frames outs ∧ o.out = outs.flatten := by
  obtain ⟨outs, put, read⟩ := framing.returns_good valid good
  rw [← all] at read
  have delivered : deliver step fatal start chunks = some ⟨start, outs.flatten, none⟩ :=
    laws.deliver_flatten holds read nofun
  obtain rfl := Option.some.inj (delivered.symm.trans found)
  exact ⟨outs, put, rfl⟩

end Framing

end Hnw.Theory
