import Hnw.Verif.Body

/-!
# Writing a section of a file

A write is clipped where it reaches the end of the file, not where it reaches the end of the
section. So a section is kept exactly by writes none of which ends between the two.
-/

namespace Hnw.Http

namespace FileBody

/-- One `write_body` after another: how many bytes they took together. -/
def writeBodies : FileBody → List Bytes → FileSystem → Nat × FileBody × FileSystem
  | body, [], fs => (0, body, fs)
  | body, buff :: buffs, fs =>
    let (size, body, fs) := body.writeBody fs buff
    let (sizes, body, fs) := writeBodies body buffs fs
    (size + sizes, body, fs)

/-- From a position of the section on, no write that begins in it ends behind it but before the
end of the file. -/
def Clipped (body : FileBody) : Nat → List Bytes → Prop
  | _, [] => True
  | pos, buff :: buffs =>
    (pos < body.bodySize → body.bodySize < pos + buff.length →
      body.size ≤ body.start + pos + buff.length) ∧ body.Clipped (pos + buff.length) buffs

instance decidableClipped (body : FileBody) :
    (pos : Nat) → (buffs : List Bytes) → Decidable (body.Clipped pos buffs)
  | _, [] => .isTrue trivial
  | pos, buff :: buffs =>
    have := decidableClipped body (pos + buff.length) buffs
    inferInstanceAs (Decidable (_ ∧ _))

variable {body : FileBody} {fs : FileSystem}

/-- A write in the section that is clipped takes what is left of the section; the position of the
stream is that of the body, or behind the section. -/
theorem writeSize_clipped (write : body.flag.has flagWrite = true) {pos size : Nat}
    (here : min pos body.bodySize = body.writePos)
    (clips : pos < body.bodySize → body.bodySize < pos + size →
      body.size ≤ body.start + pos + size) :
    body.writeSize size = min size (body.bodySize - body.writePos) := by
  have inside := body.inside
  have ordered := body.ordered
  have whole : body.bodySize = body.stop - body.start + 1 := rfl
  simp only [writeSize, write, Bool.true_eq_false, if_false]
  split
  · omega
  · split <;> omega

/-- A write that is not clipped is taken as a whole. -/
theorem writeSize_unclipped (write : body.flag.has flagWrite = true) {size : Nat}
    (begins : body.writePos < body.bodySize)
    (ends : body.start + body.writePos + size < body.size) : body.writeSize size = size := by
  have ordered := body.ordered
  have whole : body.bodySize = body.stop - body.start + 1 := rfl
  simp only [writeSize, write, Bool.true_eq_false, if_false]
  split
  · omega
  · split <;> omega

/-- The section of a body does not depend on how far it is written. -/
theorem clipped_writePos {pos next : Nat} {buffs : List Bytes} :
    ({ body with writePos := next } : FileBody).Clipped pos buffs ↔ body.Clipped pos buffs := by
  induction buffs generalizing pos with
  | nil => exact Iff.rfl
  | cons buff buffs ih => exact and_congr_right fun _ => ih

/-- What is taken of a chunk and then of those after it is what is taken of all. -/
theorem take_min_append (first rest : Bytes) (left : Nat) :
    first.take (min first.length left) ++ rest.take (left - first.length) =
      (first ++ rest).take left := by
  have front : first.take (min first.length left) = first.take left := by
    rw [List.take_eq_take_iff]
    omega
  rw [List.take_append, front]

/-- Writes that are clipped fill the section in order. -/
theorem writeBodies_clipped (write : body.flag.has flagWrite = true)
    (present : ∃ file, fs body.fileName = some file ∧ file.bytes.length = body.size)
    (bounded : body.writePos ≤ body.bodySize) {pos : Nat}
    (here : min pos body.bodySize = body.writePos) {buffs : List Bytes}
    (clipped : body.Clipped pos buffs) :
    body.writeBodies buffs fs =
      (min buffs.flatten.length (body.bodySize - body.writePos),
        { body with writePos := (body.writePos +
            min buffs.flatten.length (body.bodySize - body.writePos)) },
        writeFile fs body.fileName (body.writePos + body.start)
          (buffs.flatten.take (body.bodySize - body.writePos))) := by
  induction buffs generalizing body fs pos with
  | nil =>
    simp only [writeBodies, List.flatten_nil, List.length_nil, Nat.zero_min, Nat.add_zero,
      List.take_nil, writeFile_nil]
  | cons buff buffs ih =>
    obtain ⟨clips, later⟩ := clipped
    have taken := writeSize_clipped write here clips
    generalize room : body.bodySize - body.writePos = left at taken ⊢
    obtain ⟨file, found, size⟩ := present
    have inside := body.inside
    have ordered := body.ordered
    have whole : body.bodySize = body.stop - body.start + 1 := rfl
    have length : (buff.take (min buff.length left)).length = min buff.length left := by
      rw [List.length_take]
      omega
    have next := @ih { body with writePos := (body.writePos + min buff.length left) }
      (writeFile fs body.fileName (body.writePos + body.start)
        (buff.take (min buff.length left))) write
      (writeFile_present found size) (by simp only [bodySize] at *; omega) (pos + buff.length)
      (by simp only [bodySize] at *; omega) (clipped_writePos.mpr later)
    have rest : ({ body with writePos := (body.writePos + min buff.length left) } :
        FileBody).bodySize - (body.writePos + min buff.length left) = left - buff.length := by
      simp only [bodySize] at *
      omega
    simp only [rest] at next
    have shift : body.writePos + min buff.length left + body.start =
        body.writePos + body.start + (buff.take (min buff.length left)).length := by
      rw [length]
      omega
    have fits : ∀ other, fs body.fileName = some other → body.writePos + body.start +
        (buff.take (min buff.length left) ++ buffs.flatten.take (left - buff.length)).length ≤
          other.bytes.length := by
      intro other there
      rw [found, Option.some.injEq] at there
      rw [← there, size, List.length_append, length, List.length_take]
      omega
    simp only [writeBodies, writeBody, taken, next, List.flatten_cons, List.length_append]
    rw [shift, writeFile_writeFile fits, take_min_append]
    have count : min buff.length left + min buffs.flatten.length (left - buff.length) =
        min (buff.length + buffs.flatten.length) left := by
      omega
    rw [count, Nat.add_assoc, count]

/-- Writes that are not all clipped take more than what is left of the section. -/
theorem writeBodies_unclipped (write : body.flag.has flagWrite = true)
    (bounded : body.writePos ≤ body.bodySize) {pos : Nat}
    (here : min pos body.bodySize = body.writePos) {buffs : List Bytes}
    (unclipped : ¬ body.Clipped pos buffs) :
    body.bodySize < body.writePos + (body.writeBodies buffs fs).1 := by
  induction buffs generalizing body fs pos with
  | nil => exact absurd trivial unclipped
  | cons buff buffs ih =>
    by_cases clips : pos < body.bodySize → body.bodySize < pos + buff.length →
        body.size ≤ body.start + pos + buff.length
    · have later : ¬ body.Clipped (pos + buff.length) buffs := fun later =>
        unclipped ⟨clips, later⟩
      have taken := writeSize_clipped write here clips
      have next := @ih { body with writePos := (body.writePos + body.writeSize buff.length) }
        (writeFile fs body.fileName (body.writePos + body.start)
          (buff.take (body.writeSize buff.length))) write
        (by simp only [bodySize] at *; omega) (pos + buff.length)
        (by simp only [bodySize] at *; omega) (fun other => later (clipped_writePos.mp other))
      simp only [writeBodies, writeBody, bodySize] at next ⊢
      omega
    · have begins : pos < body.bodySize := by omega
      have same : pos = body.writePos := by omega
      have taken := @writeSize_unclipped body write buff.length (by omega) (by omega)
      simp only [writeBodies, writeBody, taken]
      omega

end FileBody

/-- What a sequence of writes does to a section: it takes as many bytes as the section has, lays
them over the file from the beginning of the section on, leaves everything else as it was, never
gets past the section, and completes it with its last byte. -/
structure WritesSection (fs : FileSystem) (body : FileBody) (buffs : List Bytes) : Prop where
  /-- The bytes taken together. -/
  taken : (body.writeBodies buffs fs).1 = min buffs.flatten.length body.bodySize
  /-- The file. -/
  stored : ∀ file, fs body.fileName = some file →
    ((body.writeBodies buffs fs).2.2 body.fileName).map File.bytes =
      some (overwrite file.bytes body.start (buffs.flatten.take body.bodySize))
  /-- The other files. -/
  others : ∀ other, other ≠ body.fileName → (body.writeBodies buffs fs).2.2 other = fs other
  /-- `write_pos` stays in the section. -/
  bounded : (body.writeBodies buffs fs).2.1.writePos ≤ body.bodySize
  /-- `is_complete` says whether the section was filled. -/
  complete : (body.writeBodies buffs fs).2.1.isComplete = true ↔
    (body.writeBodies buffs fs).1 = body.bodySize

variable {platform : Platform} {fs left : FileSystem} {name : Bytes} {range : HttpRange}
  {flag : FileFlag} {body : FileBody}

/-- Writes to a new body that are clipped keep to its section. -/
theorem writesSection_of_clipped
    (made : FileBody.generate platform fs name range flag = (some body, left))
    (write : body.flag.has flagWrite = true) {buffs : List Bytes}
    (clipped : body.Clipped 0 buffs) : WritesSection left body buffs := by
  have present := FileBody.generate_sized made
  have start : body.writePos = 0 := (FileBody.generate_spec made).2.2.2.2.2
  have filled := FileBody.writeBodies_clipped write present (by omega) (by omega) clipped
  rw [start, Nat.zero_add, Nat.zero_add, Nat.sub_zero] at filled
  constructor
  · rw [filled]
  · intro file found
    obtain ⟨other, there, size⟩ := present
    rw [found, Option.some.injEq] at there
    have inside := body.inside
    have ordered := body.ordered
    have fits : body.start + (buffs.flatten.take body.bodySize).length ≤ file.bytes.length := by
      rw [there, size, List.length_take, FileBody.bodySize]
      omega
    simp only [filled, writeFile, if_true, found, Option.map_some, dif_pos fits]
  · intro other apart
    simp only [filled, writeFile, if_neg apart]
  · rw [filled]
    exact Nat.min_le_right _ _
  · rw [filled]
    exact beq_iff_eq

/-- Writes to a new body keep to its section exactly where none of them begins in the section
and ends behind it but before the end of the file. -/
theorem writesSection_iff
    (made : FileBody.generate platform fs name range flag = (some body, left))
    (write : body.flag.has flagWrite = true) (buffs : List Bytes) :
    WritesSection left body buffs ↔ body.Clipped 0 buffs := by
  constructor
  · intro writes
    by_contra unclipped
    have start : body.writePos = 0 := (FileBody.generate_spec made).2.2.2.2.2
    have many := @FileBody.writeBodies_unclipped body left write (by omega) 0 (by omega) buffs
      unclipped
    have taken := writes.taken
    omega
  · exact writesSection_of_clipped made write

/-- A file of six bytes. -/
def sixBytes : File := ⟨ascii "abcdef", by decide⟩

/-- The bytes 1 to 2 of that file. -/
def middleRange : HttpRange where
  useStartEndpoint := false
  useEndEndpoint := false
  start := 1
  stop := 2

/-- The body of those bytes. -/
def middleBody : FileBody where
  fileName := ascii "f"
  size := 6
  flag := flagWrite
  start := 1
  stop := 2
  ordered := by decide
  inside := by decide

/-- The body of the middle section is what `generate` makes of the file. -/
theorem middleBody_made :
    FileBody.generate linux (oneFile (ascii "f") sixBytes) (ascii "f") middleRange flagWrite =
      (some middleBody, oneFile (ascii "f") sixBytes) :=
  rfl

/-- One byte, then one byte and whatever reaches the end of the file. -/
theorem writesSection_middle :
    WritesSection (oneFile (ascii "f") sixBytes) middleBody [ascii "x", ascii "yzuvw"] :=
  (writesSection_iff middleBody_made (by decide) _).mpr (by decide)

/-- Three bytes for a section of two are written behind its end. -/
theorem middle_overrun :
    FileBody.generate linux (oneFile (ascii "f") sixBytes) (ascii "f") middleRange flagWrite =
        (some middleBody, oneFile (ascii "f") sixBytes) ∧
      (middleBody.writeBodies [ascii "xyz"] (oneFile (ascii "f") sixBytes)).1 = 3 ∧
      ((middleBody.writeBodies [ascii "xyz"] (oneFile (ascii "f") sixBytes)).2.2
        (ascii "f")).map File.bytes = some (ascii "axyzef") ∧
      ¬ WritesSection (oneFile (ascii "f") sixBytes) middleBody [ascii "xyz"] := by
  refine ⟨middleBody_made, by decide, by decide, fun writes => ?_⟩
  exact absurd writes.taken (by decide)

end Hnw.Http
