import Hnw.Http.Body

/-!
# Bodies that are being received

A body that accepts takes bytes up to what is left of it, one write or several making no
difference. Raw bodies of a fixed capacity do, and files opened for writing whose section ends at
most one byte before the file.
-/

namespace Hnw.Http

/-- A raw body of a fixed capacity with room left. -/
def RawBody.Accepting (body : RawBody) : Prop :=
  body.increment = false ∧ body.writePos = body.body.length ∧
    body.body.length < body.maximumCapacity

/-- The file of a body, where it is still there, has the size the body knows. -/
def FileBody.Sized (fs : FileSystem) (body : FileBody) : Prop :=
  ∀ file, fs body.fileName = some file → file.bytes.length = body.size

/-- A file body opened for writing, whose section has room left and ends where a clipped write
ends. -/
def FileBody.Accepting (fs : FileSystem) (body : FileBody) : Prop :=
  body.flag.has flagWrite = true ∧ body.size ≤ body.stop + 2 ∧
    body.writePos < body.bodySize ∧ body.Sized fs

namespace RawBody.Accepting

variable {body : RawBody}

/-- An accepting raw body has its size from the start. -/
theorem fixed (accepting : body.Accepting) : body.increment = false :=
  accepting.1

/-- An accepting raw body writes at its end. -/
theorem atEnd (accepting : body.Accepting) : body.writePos = body.body.length :=
  accepting.2.1

/-- An accepting raw body has room left. -/
theorem room (accepting : body.Accepting) : body.body.length < body.maximumCapacity :=
  accepting.2.2

end RawBody.Accepting

namespace FileBody.Accepting

variable {fs : FileSystem} {body : FileBody}

/-- An accepting file body is open for writing. -/
theorem write (accepting : body.Accepting fs) : body.flag.has flagWrite = true :=
  accepting.1

/-- A clipped write ends where its section ends. -/
theorem ends (accepting : body.Accepting fs) : body.size ≤ body.stop + 2 :=
  accepting.2.1

/-- The section of an accepting file body has room left. -/
theorem room (accepting : body.Accepting fs) : body.writePos < body.bodySize :=
  accepting.2.2.1

/-- The file of an accepting body has the size the body knows. -/
theorem sized (accepting : body.Accepting fs) : body.Sized fs :=
  accepting.2.2.2

end FileBody.Accepting

/-- A body that takes at least one more byte. -/
def Body.Accepting (fs : FileSystem) : Body → Prop
  | .raw body => body.Accepting
  | .file body => body.Accepting fs
  | .empty => False

/-- A raw body among the bodies that are received accepts; file bodies are any. -/
def Body.Regular : Body → Prop
  | .raw body => body.Accepting
  | _ => True

/-- A body that takes a byte is regular. -/
theorem Body.Accepting.regular {fs : FileSystem} {body : Body} (accepting : body.Accepting fs) :
    body.Regular := by
  cases body with
  | raw body => exact accepting
  | file => trivial
  | empty => trivial

/-- How many bytes a body still takes. -/
def Body.left : Body → Nat
  | .raw body => body.maximumCapacity - body.writePos
  | .file body => body.bodySize - body.writePos
  | .empty => 0

/-- A file system with one file. -/
def oneFile (path : Bytes) (file : File) : FileSystem := fun other =>
  if other = path then some file else none

/-! ## What `generate` makes -/

namespace FileBody

variable {platform : Platform} {fs left : FileSystem} {name : Bytes} {range : HttpRange}
  {flag : FileFlag} {body : FileBody}

/-- What the end of `init` fixes. -/
theorem initSection_spec {size : Nat} (made : initSection name size range flag = some body) :
    body.fileName = name ∧ body.size = size ∧ body.flag = openedFlag flag ∧
      body.start = firstPos range ∧ body.stop = lastPos size range ∧ body.readPos = 0 ∧
      body.writePos = 0 := by
  unfold initSection at made
  simp only at made
  split at made
  · cases made
  · split at made
    · split at made
      · cases made
        exact ⟨rfl, rfl, rfl, rfl, rfl, rfl, rfl⟩
      · cases made
    · cases made

/-- A body comes of a file that exists, as it is, or of one that was just made. -/
theorem generate_cases (made : generate platform fs name range flag = (some body, left)) :
    (∃ file, fs name = some file ∧ flag.has flagCreateNew = false ∧ left = fs ∧
        initSection name file.bytes.length range flag = some body) ∨
      ((flag.has flagCreate || flag.has flagCreateNew) = true ∧
        (fs name = none ∨ flag.has flagCreateNew = true) ∧
        (∃ old, platform.createNullFile old name range.total = some left) ∧
        initSection name range.total.toNat range flag = some body) := by
  have kept : init platform fs name range flag = (some body, left) := by
    unfold generate at made
    split at made
    · next same => rw [same, made]
    · cases made
  unfold init at kept
  split at kept
  · next missing =>
    split at kept
    · next create =>
      split at kept
      · cases (Prod.mk.inj kept).1
      · next fresh =>
        obtain ⟨opened, rfl⟩ := Prod.mk.inj kept
        exact .inr ⟨create, .inl missing, ⟨_, fresh⟩, opened⟩
    · cases (Prod.mk.inj kept).1
  · next file found =>
    split at kept
    · next create =>
      simp only at kept
      split at kept
      · cases (Prod.mk.inj kept).1
      · next fresh =>
        obtain ⟨opened, rfl⟩ := Prod.mk.inj kept
        exact .inr ⟨by simp [create], .inr create, ⟨_, fresh⟩, opened⟩
    · next keep =>
      obtain ⟨opened, rfl⟩ := Prod.mk.inj kept
      exact .inl ⟨file, found, by simpa using keep, rfl, opened⟩

/-- The file of a new body has the size the body knows. -/
theorem generate_sized (made : generate platform fs name range flag = (some body, left)) :
    ∃ file, left body.fileName = some file ∧ file.bytes.length = body.size := by
  rcases generate_cases made with ⟨file, found, _, rfl, opened⟩ | ⟨_, _, ⟨old, created⟩, opened⟩
  · obtain ⟨named, size, _⟩ := initSection_spec opened
    exact ⟨file, by rw [named, found], size.symm⟩
  · obtain ⟨named, size, _⟩ := initSection_spec opened
    obtain ⟨file, found, length⟩ := (platform.creates _ _ _ _ created).1
    exact ⟨file, by rw [named, found], by rw [length, size]⟩

/-- The fields of a new body. -/
theorem generate_spec (made : generate platform fs name range flag = (some body, left)) :
    body.fileName = name ∧ body.flag = openedFlag flag ∧ body.start = firstPos range ∧
      body.stop = lastPos body.size range ∧ body.readPos = 0 ∧ body.writePos = 0 := by
  rcases generate_cases made with ⟨_, _, _, _, opened⟩ | ⟨_, _, _, opened⟩ <;>
    · obtain ⟨named, size, flags, start, stop, read, write⟩ := initSection_spec opened
      exact ⟨named, flags, start, by rw [stop, size], read, write⟩

/-- A flag that may make the file opens it for writing. -/
theorem openedFlag_write (create : (flag.has flagCreate || flag.has flagCreateNew) = true) :
    (openedFlag flag).has flagWrite = true := by
  rw [openedFlag, if_pos create, FileFlag.has, bne_iff_ne]
  intro zero
  have bit := congrArg (fun word : BitVec 32 => word.getLsbD 4) zero
  simp [flagWrite] at bit

/-- A new body of a whole file that may be made accepts. -/
theorem generate_accepting (made : generate platform fs name range flag = (some body, left))
    (create : (flag.has flagCreate || flag.has flagCreateNew) = true)
    (wholeEnd : range.useEndEndpoint = true) :
    body.Accepting left := by
  obtain ⟨file, found, length⟩ := generate_sized made
  obtain ⟨named, flags, start, stop, read, write⟩ := generate_spec made
  have inside := body.inside
  have ordered := body.ordered
  have small := file.small
  rw [length] at small
  simp only [lastPos, wholeEnd, if_true] at stop
  refine ⟨by rw [flags]; exact openedFlag_write create, by omega, ?_, ?_⟩
  · rw [write, bodySize]
    omega
  · intro other present
    rw [found] at present
    cases present
    exact length

end FileBody

/-! ## Writing in pieces -/

/-- Two overwrites, the second behind the first, are one. -/
theorem overwrite_overwrite {old first second : Bytes} {pos : Nat}
    (fits : pos + (first ++ second).length ≤ old.length) :
    overwrite (overwrite old pos first) (pos + first.length) second =
      overwrite old pos (first ++ second) := by
  rw [List.length_append] at fits
  have front : (old.take pos).length = pos := by
    rw [List.length_take]
    omega
  have taken : (overwrite old pos first).take (pos + first.length) = old.take pos ++ first := by
    rw [overwrite, ← List.append_assoc, List.take_left' (by rw [List.length_append, front])]
  have dropped : (overwrite old pos first).drop (pos + first.length + second.length) =
      old.drop (pos + (first ++ second).length) := by
    have length : (old.take pos ++ first).length = pos + first.length := by
      rw [List.length_append, front]
    rw [overwrite, ← List.append_assoc, List.drop_append, List.drop_eq_nil_of_le (by omega),
      List.nil_append, List.drop_drop, length, List.length_append]
    congr 1
    omega
  rw [overwrite, taken, dropped, overwrite, List.append_assoc, List.append_assoc]

/-- Two writes to a file, the second behind the first, are one. -/
theorem writeFile_writeFile {fs : FileSystem} {path first second : Bytes} {pos : Nat}
    (fits : ∀ file, fs path = some file → pos + (first ++ second).length ≤ file.bytes.length) :
    writeFile (writeFile fs path pos first) path (pos + first.length) second =
      writeFile fs path pos (first ++ second) := by
  funext other
  by_cases same : other = path
  · subst same
    cases found : fs other with
    | none => simp [writeFile, found]
    | some file =>
      have whole := fits file found
      have length := List.length_append ▸ whole
      have inner : pos + first.length ≤ file.bytes.length := by omega
      have outer : pos + first.length + second.length ≤
          (overwrite file.bytes pos first).length := by
        rw [overwrite_length inner]
        omega
      simp only [writeFile, found, if_true, Option.map_some, dif_pos inner, dif_pos outer,
        dif_pos whole, overwrite_overwrite whole]
  · simp [writeFile, same]

/-- Writing nothing changes nothing. -/
theorem writeFile_nil (fs : FileSystem) (path : Bytes) (pos : Nat) :
    writeFile fs path pos [] = fs := by
  funext other
  by_cases same : other = path
  · subst same
    cases found : fs other with
    | none => simp [writeFile, found]
    | some file =>
      simp only [writeFile, found, if_true, Option.map_some, Option.some.injEq]
      split
      · simp [overwrite]
      · rfl
  · simp [writeFile, same]

/-- A write keeps the sizes of all files. -/
theorem writeFile_length {fs : FileSystem} {path new : Bytes} {pos : Nat} {other : Bytes}
    {file : File} (found : writeFile fs path pos new other = some file) :
    ∃ old, fs other = some old ∧ file.bytes.length = old.bytes.length := by
  by_cases same : other = path
  · subst same
    simp only [writeFile, if_true, Option.map_eq_some_iff] at found
    obtain ⟨old, present, rfl⟩ := found
    refine ⟨old, present, ?_⟩
    split
    · next fits => exact overwrite_length fits
    · rfl
  · exact ⟨file, by simpa [writeFile, same] using found, rfl⟩

/-- A write leaves the file there, with the size it had. -/
theorem writeFile_present {fs : FileSystem} {path new : Bytes} {pos size : Nat} {file : File}
    (found : fs path = some file) (length : file.bytes.length = size) :
    ∃ after, writeFile fs path pos new path = some after ∧ after.bytes.length = size := by
  cases written : writeFile fs path pos new path with
  | none => simp [writeFile, found] at written
  | some after =>
    obtain ⟨old, there, same⟩ := writeFile_length written
    rw [found, Option.some.injEq] at there
    exact ⟨after, rfl, by rw [same, ← there, length]⟩

namespace RawBody

variable {body : RawBody}

/-- A new raw body of a fixed capacity accepts unless it is complete. -/
theorem generateSized_accepting {size : Int} (waits : (generateSized size).isComplete = false) :
    (generateSized size).Accepting := by
  refine ⟨rfl, rfl, ?_⟩
  simp only [generateSized, isComplete, bodySize, Bool.false_or, beq_eq_false_iff_ne,
    List.length_nil] at waits ⊢
  omega

/-- An accepting raw body takes what is left of it. -/
theorem writeBody_eq (accepting : body.Accepting) (buff : Bytes) :
    body.writeBody buff =
      (min buff.length (body.maximumCapacity - body.writePos),
        { body with
            body := body.body ++ buff.take (min buff.length (body.maximumCapacity - body.writePos))
            writePos := body.writePos +
              min buff.length (body.maximumCapacity - body.writePos) }) := by
  obtain ⟨fixed, atEnd, room⟩ := accepting
  have size : (if body.increment = false ∧ body.maximumCapacity ≤ body.writePos + buff.length
      then body.maximumCapacity - body.writePos else buff.length) =
        min buff.length (body.maximumCapacity - body.writePos) := by
    simp only [fixed, true_and]
    split <;> omega
  have behind : body.body.length ≤ body.writePos := by omega
  simp only [writeBody, size, if_pos behind]

/-- A write that leaves room in a raw body and the write after it are one. -/
theorem writeBody_append (accepting : body.Accepting) {first : Bytes} (second : Bytes)
    (room : first.length < body.maximumCapacity - body.writePos)
    (later : (body.writeBody first).2.Accepting) :
    body.writeBody (first ++ second) =
      (first.length + ((body.writeBody first).2.writeBody second).1,
        ((body.writeBody first).2.writeBody second).2) := by
  have least : min first.length (body.maximumCapacity - body.writePos) = first.length := by
    omega
  have whole : min (first ++ second).length (body.maximumCapacity - body.writePos) =
      first.length +
        min second.length (body.maximumCapacity - (body.writePos + first.length)) := by
    rw [List.length_append]
    omega
  have written := writeBody_eq accepting first
  rw [least, List.take_length] at written
  rw [written] at later ⊢
  simp only [writeBody_eq later, writeBody_eq accepting, whole, List.take_length_add_append,
    List.append_assoc, Nat.add_assoc]

end RawBody

namespace FileBody

variable {fs : FileSystem} {body : FileBody}

/-- An accepting file body takes what is left of its section. -/
theorem writeSize_eq (accepting : body.Accepting fs) (size : Nat) :
    body.writeSize size = min size (body.bodySize - body.writePos) := by
  obtain ⟨write, ends, room, _⟩ := accepting
  have inside := body.inside
  have ordered := body.ordered
  have size_eq : body.bodySize = body.stop - body.start + 1 := rfl
  simp only [writeSize, write, Bool.true_eq_false, if_false]
  split
  · omega
  · split <;> omega

/-- A body not opened for writing, or written past its section, takes nothing. -/
theorem writeSize_stuck (stuck : body.flag.has flagWrite = false ∨ body.bodySize < body.writePos)
    (size : Nat) : body.writeSize size = 0 := by
  unfold writeSize
  split
  · rfl
  · next write =>
    have past := stuck.resolve_left write
    have ordered := body.ordered
    simp only [bodySize] at past
    rw [if_pos (by omega)]

/-- Any other body that is not complete takes a byte. -/
theorem writeSize_pos (write : body.flag.has flagWrite = true)
    (room : body.writePos < body.bodySize) {size : Nat} (some : 0 < size) :
    0 < body.writeSize size := by
  have ordered := body.ordered
  have inside := body.inside
  simp only [bodySize] at room
  simp only [writeSize, write, Bool.true_eq_false, if_false]
  rw [if_neg (by omega)]
  split <;> omega

/-- What an accepting file body becomes by a write of a size it takes. -/
theorem writeBody_eq (accepting : body.Accepting fs) {buff : Bytes} {size : Nat}
    (least : min buff.length (body.bodySize - body.writePos) = size) :
    body.writeBody fs buff =
      (size, { body with writePos := body.writePos + size },
        writeFile fs body.fileName (body.writePos + body.start) (buff.take size)) := by
  rw [writeBody, writeSize_eq accepting, least]

/-- A write that leaves room in a file body and the write after it are one. -/
theorem writeBody_append (accepting : body.Accepting fs) {first : Bytes} (second : Bytes)
    (room : first.length < body.bodySize - body.writePos)
    (later : (body.writeBody fs first).2.1.Accepting (body.writeBody fs first).2.2) :
    body.writeBody fs (first ++ second) =
      (first.length +
          ((body.writeBody fs first).2.1.writeBody (body.writeBody fs first).2.2 second).1,
        ((body.writeBody fs first).2.1.writeBody (body.writeBody fs first).2.2 second).2) := by
  have least : min first.length (body.bodySize - body.writePos) = first.length := by omega
  have whole : min (first ++ second).length (body.bodySize - body.writePos) =
      first.length + min second.length (body.bodySize - (body.writePos + first.length)) := by
    rw [List.length_append]
    omega
  have written := writeBody_eq accepting least
  rw [List.take_length] at written
  have both := writeBody_eq accepting whole
  rw [List.take_length_add_append] at both
  rw [written] at later
  have again := @writeBody_eq _ _ later second _ rfl
  have fits : ∀ file, fs body.fileName = some file →
      body.writePos + body.start +
        (first ++ second.take (min second.length
          (body.bodySize - (body.writePos + first.length)))).length ≤ file.bytes.length := by
    intro file found
    have inside := body.inside
    have ordered := body.ordered
    have size : body.bodySize = body.stop - body.start + 1 := rfl
    rw [accepting.sized file found, List.length_append, List.length_take]
    omega
  have shift : body.writePos + first.length + body.start =
      body.writePos + body.start + first.length := by omega
  simp only [written, both, again]
  rw [shift, ← Nat.add_assoc body.writePos]
  exact congrArg _ (congrArg _ (writeFile_writeFile fits).symm)

end FileBody

namespace Body

variable {fs : FileSystem} {body : Body}

/-- An accepting body has room. -/
theorem left_pos (accepting : body.Accepting fs) : 0 < body.left := by
  cases body with
  | raw body =>
    obtain ⟨_, atEnd, room⟩ := accepting
    simp only [left]
    omega
  | file body =>
    obtain ⟨_, _, room, _⟩ := accepting
    simp only [left]
    omega
  | empty => exact accepting.elim

/-- An accepting body is not complete. -/
theorem not_complete (accepting : body.Accepting fs) : body.isComplete = false := by
  cases body with
  | raw body =>
    obtain ⟨fixed, _, room⟩ := accepting
    simp only [isComplete, RawBody.isComplete, fixed, RawBody.bodySize, Bool.false_or,
      beq_eq_false_iff_ne]
    omega
  | file body =>
    obtain ⟨_, _, room, _⟩ := accepting
    simp only [isComplete, FileBody.isComplete, beq_eq_false_iff_ne]
    omega
  | empty => exact accepting.elim

/-- An accepting body takes what is left of it. -/
theorem writeBody_size (accepting : body.Accepting fs) (buff : Bytes) :
    (body.writeBody fs buff).1 = min buff.length body.left := by
  cases body with
  | raw body => simp only [writeBody, RawBody.writeBody_eq accepting, left]
  | file body =>
    simp only [writeBody, FileBody.writeBody, FileBody.writeSize_eq accepting, left]
  | empty => exact accepting.elim

/-- An accepting body is complete once as many bytes were written as were left. -/
theorem writeBody_complete (accepting : body.Accepting fs) (buff : Bytes) :
    (body.writeBody fs buff).2.1.isComplete = true ↔ body.left ≤ buff.length := by
  cases body with
  | raw body =>
    have fixed := RawBody.Accepting.fixed accepting
    have atEnd := RawBody.Accepting.atEnd accepting
    have room := RawBody.Accepting.room accepting
    simp only [writeBody, RawBody.writeBody_eq accepting, isComplete, RawBody.isComplete, fixed,
      RawBody.bodySize, Bool.false_or, left, List.length_append, List.length_take]
    rw [beq_iff_eq]
    omega
  | file body =>
    have room := FileBody.Accepting.room accepting
    simp only [writeBody, FileBody.writeBody, FileBody.writeSize_eq accepting, isComplete,
      FileBody.isComplete, FileBody.bodySize, left] at room ⊢
    rw [beq_iff_eq]
    omega
  | empty => exact accepting.elim

/-- A write that leaves room leaves an accepting body. -/
theorem writeBody_accepting (accepting : body.Accepting fs) {buff : Bytes}
    (room : buff.length < body.left) :
    (body.writeBody fs buff).2.1.Accepting (body.writeBody fs buff).2.2 ∧
      (body.writeBody fs buff).2.1.left = body.left - buff.length := by
  cases body with
  | raw body =>
    have fixed := RawBody.Accepting.fixed accepting
    have atEnd := RawBody.Accepting.atEnd accepting
    have least : min buff.length (body.maximumCapacity - body.writePos) = buff.length := by
      simp only [left] at room
      omega
    have written := RawBody.writeBody_eq accepting buff
    rw [least, List.take_length] at written
    simp only [left] at room
    simp only [writeBody, written, Accepting, RawBody.Accepting, fixed, left, List.length_append,
      true_and]
    omega
  | file body =>
    have write := FileBody.Accepting.write accepting
    have ends := FileBody.Accepting.ends accepting
    have sized := FileBody.Accepting.sized accepting
    have least : min buff.length (body.bodySize - body.writePos) = buff.length := by
      simp only [left] at room
      omega
    simp only [left] at room
    simp only [writeBody, FileBody.writeBody, FileBody.writeSize_eq accepting, least, left]
    refine ⟨⟨write, ends, ?_, ?_⟩, ?_⟩
    · simp only [FileBody.bodySize] at room ⊢
      omega
    · intro file found
      obtain ⟨old, present, same⟩ := writeFile_length found
      rw [same]
      exact sized old present
    · simp only [FileBody.bodySize]
      omega
  | empty => exact accepting.elim

/-- A write that leaves room and the write after it are one. -/
theorem writeBody_append (accepting : body.Accepting fs) {first : Bytes} (second : Bytes)
    (room : first.length < body.left) :
    body.writeBody fs (first ++ second) =
      (first.length +
          ((body.writeBody fs first).2.1.writeBody (body.writeBody fs first).2.2 second).1,
        ((body.writeBody fs first).2.1.writeBody (body.writeBody fs first).2.2 second).2) := by
  have later := (writeBody_accepting accepting room).1
  cases body with
  | raw body =>
    have append := RawBody.writeBody_append accepting second room later
    simp only [writeBody, append]
  | file body =>
    have append := FileBody.writeBody_append accepting second room later
    simp only [writeBody, append]
  | empty => exact accepting.elim

/-- A write that fills the body does not see the bytes behind. -/
theorem writeBody_full (accepting : body.Accepting fs) {first : Bytes} (second : Bytes)
    (full : body.left ≤ first.length) :
    body.writeBody fs (first ++ second) = body.writeBody fs first := by
  cases body with
  | raw body =>
    simp only [left] at full
    have least : min first.length (body.maximumCapacity - body.writePos) =
        body.maximumCapacity - body.writePos := by omega
    have whole : min (first ++ second).length (body.maximumCapacity - body.writePos) =
        body.maximumCapacity - body.writePos := by
      rw [List.length_append]
      omega
    simp only [writeBody, RawBody.writeBody_eq accepting, least, whole,
      List.take_append_of_le_length full]
  | file body =>
    simp only [left] at full
    have least : min first.length (body.bodySize - body.writePos) =
        body.bodySize - body.writePos := by omega
    have whole : min (first ++ second).length (body.bodySize - body.writePos) =
        body.bodySize - body.writePos := by
      rw [List.length_append]
      omega
    simp only [writeBody, FileBody.writeBody_eq accepting least,
      FileBody.writeBody_eq accepting whole, List.take_append_of_le_length full]
  | empty => exact accepting.elim

end Body

end Hnw.Http
