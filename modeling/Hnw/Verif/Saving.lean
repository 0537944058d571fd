import Hnw.Verif.Sending

/-!
# Saving a body

`save_body_as_file` writes its whole buffer for every read, also for the last one, which fills
the buffer only where the length of the body is a multiple of the buffer's.
-/

namespace Hnw.Http

open Hnw.Util

variable {fs : FileSystem} {body : Body}

/-- The size of a file that is written in whole buffers. -/
def paddedSize (size : Nat) : Nat := (size + (saveBuffLen - 1)) / saveBuffLen * saveBuffLen

/-- A body that can be read is read inside of its file. -/
theorem Body.Readable.readsInside (readable : body.Readable fs) (buffSize : Nat) :
    body.ReadsInside fs buffSize := by
  cases body with
  | raw body => trivial
  | file body =>
    obtain ⟨file, found, size⟩ := readable
    have inside := body.inside
    simp only [ReadsInside, found, Option.map_some, Option.getD_some, FileBody.readSize_eq, size]
    omega
  | empty => trivial

/-- A body holds no more than its size. -/
theorem Body.rest_length (fs : FileSystem) (body : Body) :
    (body.rest fs).length ≤ body.bodySize := by
  cases body with
  | raw body =>
    simp only [rest, bodySize, RawBody.bodySize, List.length_drop]
    omega
  | file body =>
    have ordered := body.ordered
    simp only [rest, bodySize, FileBody.bodySize, List.extract_eq_take_drop, List.length_take]
    omega
  | empty => exact Nat.le_refl 0

/-- The loop writes what is left of a body, up to the end of a buffer. -/
theorem saveLoop_spec {rounds : Nat} {buff : Bytes} (readable : body.Readable fs)
    (size : buff.length = saveBuffLen) (enough : (body.rest fs).length < rounds) :
    ∃ file, saveLoop fs rounds body buff = some file ∧ body.rest fs <+: file ∧
      file.length = paddedSize (body.rest fs).length := by
  induction rounds generalizing body buff with
  | zero => exact absurd enough (Nat.not_lt_zero _)
  | succ rounds ih =>
    obtain ⟨taken, left, kept⟩ := Body.readBody_rest readable saveBuffLen
    rw [saveLoop, if_pos (readable.readsInside saveBuffLen)]
    simp only [taken]
    generalize body.rest fs = rest at taken left enough ⊢
    have full : saveBuffLen = 2048 := rfl
    by_cases ended : (rest.take saveBuffLen).length = 0
    · have none : rest = [] := by
        have bytes := List.length_eq_zero_iff.mp ended
        rw [List.take_eq_nil_iff] at bytes
        exact bytes.resolve_left (by omega)
      subst none
      exact ⟨[], if_pos ended, List.prefix_rfl, rfl⟩
    · rw [if_neg ended]
      rw [List.length_take] at ended
      have filled : (rest.take saveBuffLen ++ buff.drop (rest.take saveBuffLen).length).length =
          saveBuffLen := by
        rw [List.length_append, List.length_drop, List.length_take]
        omega
      obtain ⟨file, found, behind, length⟩ := ih kept filled (by
        rw [left, List.length_drop]
        omega)
      rw [left] at behind length
      refine ⟨_, by rw [found, Option.map_some], ?_, ?_⟩
      · by_cases short : rest.length ≤ saveBuffLen
        · rw [List.take_of_length_le short, List.append_assoc]
          exact List.prefix_append _ _
        · have whole : (rest.take saveBuffLen).length = buff.length := by
            rw [List.length_take]
            omega
          rw [whole, List.drop_length, List.append_nil]
          obtain ⟨more, rfl⟩ := behind
          refine ⟨more, ?_⟩
          rw [← List.append_assoc, List.take_append_drop]
      · rw [List.length_append, filled, length, List.length_drop]
        simp only [paddedSize, full]
        omega

/-- Whether a body is a section of this file. -/
def Body.IsSectionOf (path : Bytes) : Body → Prop
  | .file body => body.fileName = path
  | _ => False

/-- The file that is written does not touch a body that is no section of it. -/
theorem Body.Fresh.truncated (fresh : body.Fresh fs) {path : Bytes}
    (other : ¬ body.IsSectionOf path) :
    body.Readable (truncateFile fs path) ∧
      body.rest (truncateFile fs path) = body.content fs := by
  obtain ⟨readable, whole⟩ := fresh.readable
  cases body with
  | raw body => exact ⟨trivial, whole⟩
  | file body =>
    have apart : body.fileName ≠ path := other
    have there : truncateFile fs path body.fileName = fs body.fileName := by
      rw [truncateFile, if_neg apart]
    rw [← whole]
    constructor
    · obtain ⟨file, found, size⟩ := readable
      exact ⟨file, there.trans found, size⟩
    · show ((Option.map File.bytes (truncateFile fs path body.fileName)).getD []).extract _ _ = _
      rw [there]
      rfl
  | empty => exact fresh.elim

/-- A section of the file that was just emptied cannot be read. -/
theorem saveLoop_section {path : Bytes} (fresh : body.Fresh fs) (same : body.IsSectionOf path)
    (rounds : Nat) (buff : Bytes) : saveLoop (truncateFile fs path) rounds body buff = none := by
  cases body with
  | raw body => exact same.elim
  | file body =>
    have start : body.readPos = 0 := fresh.1
    have name : body.fileName = path := same
    have ordered := body.ordered
    have outside : ¬ Body.ReadsInside (truncateFile fs path) saveBuffLen (.file body) := by
      have empty : (truncateFile fs path) body.fileName = some ⟨[], by decide⟩ := by
        rw [truncateFile, if_pos name]
      have full : saveBuffLen = 2048 := rfl
      simp only [Body.ReadsInside, empty, Option.map_some, Option.getD_some,
        FileBody.readSize_eq, start, List.length_nil]
      omega
    cases rounds with
    | zero => rfl
    | succ rounds => rw [saveLoop, if_neg outside]
  | empty => exact same.elim

/-- A size fills its buffers exactly where it is a multiple of theirs. -/
theorem paddedSize_eq_iff (size : Nat) : paddedSize size = size ↔ saveBuffLen ∣ size := by
  unfold paddedSize saveBuffLen
  omega

/-- What `save_body_as_file` leaves where it returns true is the body. -/
def SavesExactly {σ : Type} (fs : FileSystem) (response : Response σ) (path : Bytes) : Prop :=
  ∀ opens file, response.saveBodyAsFile fs path opens = .saved file →
    response.body.map (Body.content fs) = some file

/-- An unread body is saved exactly where its length is a multiple of the buffer's, or where it
is a section of the file it is saved to, which is never saved. -/
theorem saveBodyAsFile_exact_iff {σ : Type} {response : Response σ}
    (present : response.body = some body) (fresh : body.Fresh fs) (path : Bytes) :
    SavesExactly fs response path ↔
      saveBuffLen ∣ (body.content fs).length ∨ body.IsSectionOf path := by
  by_cases same : body.IsSectionOf path
  · apply iff_of_true
    · intro opens file saved
      simp only [Response.saveBodyAsFile, present, saveLoop_section fresh same] at saved
      split at saved <;> cases saved
    · exact .inr same
  · obtain ⟨readable, whole⟩ := fresh.truncated same
    have enough : (body.rest (truncateFile fs path)).length < body.bodySize + 1 :=
      Nat.lt_succ_of_le (Body.rest_length _ body)
    obtain ⟨file, found, front, length⟩ := @saveLoop_spec _ _ _
      (List.replicate saveBuffLen 0) readable (List.length_replicate) enough
    rw [whole] at front length
    have saved : response.saveBodyAsFile fs path true = .saved file := by
      simp only [Response.saveBodyAsFile, present, found, Bool.true_eq_false, if_false]
    rw [or_iff_left same, ← paddedSize_eq_iff, ← length]
    constructor
    · intro exact_
      have content := exact_ true file saved
      rw [present, Option.map_some, Option.some.injEq] at content
      rw [content]
    · intro full opens other outcome
      have result : other = file := by
        simp only [Response.saveBodyAsFile, present, found] at outcome
        split at outcome
        · cases outcome
        · simpa using outcome.symm
      rw [present, Option.map_some, Option.some.injEq, result]
      exact front.eq_of_length full.symm

/-- A response with a body of this many bytes. -/
def sizedResponse (size : Nat) : Response ListMultimap where
  line := {}
  head := UnorderedMultimap.empty
  body := some (.raw { body := List.replicate size 120, maximumCapacity := 0, increment := true })

/-- A body of two buffers is saved. -/
theorem saveBodyAsFile_twoBuffers :
    SavesExactly (fun _ => none) (sizedResponse 4096) (ascii "out") := by
  have fresh : Body.Fresh (fun _ => none) (.raw ⟨List.replicate 4096 120, 0, true, 0, 0⟩) := rfl
  refine (saveBodyAsFile_exact_iff rfl fresh (ascii "out")).mpr (.inl ?_)
  show saveBuffLen ∣ (List.replicate 4096 120).length
  rw [List.length_replicate]
  decide

/-- A body of one byte is saved with what else the buffer holds. -/
theorem saveBodyAsFile_oneByte :
    (sizedResponse 1).saveBodyAsFile (fun _ => none) (ascii "out") true =
        .saved (120 :: List.replicate 2047 0) ∧
      ¬ SavesExactly (fun _ => none) (sizedResponse 1) (ascii "out") := by
  have outcome : (sizedResponse 1).saveBodyAsFile (fun _ => none) (ascii "out") true =
      .saved (120 :: List.replicate 2047 0) := by
    decide +kernel
  refine ⟨outcome, fun exact_ => ?_⟩
  have content := exact_ true _ outcome
  exact absurd content (by decide +kernel)

end Hnw.Http
