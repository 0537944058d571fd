import Hnw.Http.Range

/-!
# Message bodies

`RawBodyImpl` keeps its bytes, `FileBodyImpl` maps a section of a file. The bodies without
content of `BaseBodyImpl` are `Body.empty`; bodies an application defines itself and the
callbacks it may put in place of a read or a write are left out. Sizes are natural numbers: no
buffer, string or file reaches `2 ^ 63` bytes, so no sum of two of them wraps.
-/

namespace Hnw.Http

/-- A file of the file system. -/
structure File where
  /-- Its content. -/
  bytes : Bytes
  /-- A file offset is a signed word. -/
  small : bytes.length < 2 ^ 63

/-- The regular files by path. -/
abbrev FileSystem := Bytes → Option File

/-- What `create_null_file` does, which differs with the platform. -/
structure Platform where
  /-- `create_null_file(path, size)`: the new file system, none where it returns false. -/
  createNullFile : FileSystem → Bytes → UInt64 → Option FileSystem
  /-- A file made by it has the size asked for, and no other file changes. -/
  creates : ∀ fs path size made, createNullFile fs path size = some made →
    (∃ file, made path = some file ∧ file.bytes.length = size.toNat) ∧
      ∀ other, other ≠ path → made other = fs other

/-- `create_null_file` under Linux. -/
def linux : Platform where
  createNullFile _ _ _ := none
  creates _ _ _ _ made := by cases made

/-- `file_mapping::remove`, `util::remove_file`. -/
def removeFile (fs : FileSystem) (path : Bytes) : FileSystem :=
  fun other => if other = path then none else fs other

/-- Bytes laid over a list from a position on. -/
def overwrite (old : Bytes) (pos : Nat) (new : Bytes) : Bytes :=
  old.take pos ++ (new ++ old.drop (pos + new.length))

/-- A write within a list keeps its length. -/
theorem overwrite_length {old new : Bytes} {pos : Nat} (fits : pos + new.length ≤ old.length) :
    (overwrite old pos new).length = old.length := by
  simp only [overwrite, List.length_append, List.length_take, List.length_drop]
  omega

/-- A write through a mapping of the file, which must lie within it. -/
def writeFile (fs : FileSystem) (path : Bytes) (pos : Nat) (new : Bytes) : FileSystem :=
  fun other =>
    if other = path then
      (fs path).map fun file =>
        if fits : pos + new.length ≤ file.bytes.length then
          ⟨overwrite file.bytes pos new, by rw [overwrite_length fits]; exact file.small⟩
        else file
    else fs other

/-- `RawBodyImpl`. -/
structure RawBody where
  /-- `body_`. -/
  body : Bytes := []
  /-- `maximum_capacity_`. -/
  maximumCapacity : Nat
  /-- `increment_`. -/
  increment : Bool
  /-- `read_pos_`. -/
  readPos : Nat := 0
  /-- `write_pos_`. -/
  writePos : Nat := 0
deriving DecidableEq

namespace RawBody

/-- `RawBodyImpl::generate()`. -/
def generate : RawBody := { maximumCapacity := 0, increment := true }

/-- `RawBodyImpl::generate(maximum_capacity)`; the argument is converted to `uint64_t`. -/
def generateSized (maximumCapacity : Int) : RawBody :=
  { maximumCapacity := (maximumCapacity % 2 ^ 64).toNat, increment := false }

/-- `body_size`. -/
def bodySize (body : RawBody) : Nat := body.body.length

/-- `is_complete`. -/
def isComplete (body : RawBody) : Bool :=
  body.increment || body.maximumCapacity == body.bodySize

/-- `read_body`: the bytes read. -/
def readBody (body : RawBody) (buffSize : Nat) : Bytes × RawBody :=
  let bytes := (body.body.drop body.readPos).take buffSize
  (bytes, { body with readPos := body.readPos + bytes.length })

/-- `write_body`: the number of bytes written. -/
def writeBody (body : RawBody) (buff : Bytes) : Nat × RawBody :=
  let size :=
    if body.increment = false ∧ body.maximumCapacity ≤ body.writePos + buff.length then
      body.maximumCapacity - body.writePos
    else buff.length
  let written :=
    if body.body.length ≤ body.writePos then body.body ++ buff.take size
    else body.body.take body.writePos ++ buff.take size
  (size, { body with body := written, writePos := body.writePos + size })

end RawBody

/-- `FileBodyImpl` after `init` returned true. -/
structure FileBody where
  /-- `file_name_`. -/
  fileName : Bytes
  /-- `size_`. -/
  size : Nat
  /-- `flag_`. -/
  flag : FileFlag
  /-- `range_.start`. -/
  start : Nat
  /-- `range_.end`. -/
  stop : Nat
  /-- `init` returns false otherwise. -/
  ordered : start ≤ stop
  /-- `init` returns false otherwise. -/
  inside : stop < size
  /-- `read_pos_`. -/
  readPos : Nat := 0
  /-- `write_pos_`. -/
  writePos : Nat := 0
deriving DecidableEq

namespace FileBody

/-- `body_size`. -/
def bodySize (body : FileBody) : Nat := body.stop - body.start + 1

/-- `is_complete`. -/
def isComplete (body : FileBody) : Bool := body.writePos == body.bodySize

/-- How many bytes `read_body_cb` reads. -/
def readSize (body : FileBody) (buffSize : Nat) : Nat :=
  let startPos := body.readPos + body.start
  if body.stop + 1 ≤ startPos then 0
  else if body.stop + 1 ≤ startPos + buffSize then
    buffSize - (startPos + buffSize - body.stop - 1)
  else buffSize

/-- `read_body`: the bytes read. -/
def readBody (body : FileBody) (fs : FileSystem) (buffSize : Nat) : Bytes × FileBody :=
  let offset := body.readSize buffSize
  let content := ((fs body.fileName).map File.bytes).getD []
  ((content.drop (body.readPos + body.start)).take offset,
    { body with readPos := body.readPos + offset })

/-- How many bytes `write_body_cb` writes. The end of the buffer is compared with the end of the
file, not with the end of the section. -/
def writeSize (body : FileBody) (buffSize : Nat) : Nat :=
  if body.flag.has flagWrite = false then 0
  else
    let startPos := body.writePos + body.start
    if body.stop + 1 ≤ startPos then 0
    else if body.size ≤ startPos + buffSize then
      buffSize - (startPos + buffSize - body.stop - 1)
    else buffSize

/-- `write_body`: the number of bytes written. -/
def writeBody (body : FileBody) (fs : FileSystem) (buff : Bytes) : Nat × FileBody × FileSystem :=
  let offset := body.writeSize buff.length
  (offset, { body with writePos := body.writePos + offset },
    writeFile fs body.fileName (body.writePos + body.start) (buff.take offset))

/-- The flag a body keeps: one that may make the file opens it for writing. -/
def openedFlag (flag : FileFlag) : FileFlag :=
  if flag.has flagCreate || flag.has flagCreateNew then flag ||| flagWrite else flag

/-- `range_.start` as `init` sets it. -/
def firstPos (range : HttpRange) : Nat :=
  if range.useStartEndpoint then 0 else range.start.toNat

/-- `range_.end` as `init` sets it; `size_ - 1` wraps for an empty file. -/
def lastPos (size : Nat) (range : HttpRange) : Nat :=
  if range.useEndEndpoint then (size + 2 ^ 64 - 1) % 2 ^ 64 else range.stop.toNat

/-- `init` after the file was opened or made, at the size it has. -/
def initSection (name : Bytes) (size : Nat) (range : HttpRange) (flag : FileFlag) :
    Option FileBody :=
  let start := firstPos range
  let stop := lastPos size range
  if size ≤ start then none
  else if inside : stop < size then
    if ordered : start ≤ stop then
      some { fileName := name, size, flag := openedFlag flag, start, stop, ordered, inside }
    else none
  else none

/-- `init`: the body, where it returns true, and the file system it leaves. -/
def init (platform : Platform) (fs : FileSystem) (name : Bytes) (range : HttpRange)
    (flag : FileFlag) : Option FileBody × FileSystem :=
  match fs name with
  | none =>
    if flag.has flagCreate || flag.has flagCreateNew then
      match platform.createNullFile fs name range.total with
      | none => (none, fs)
      | some made => (initSection name range.total.toNat range flag, made)
    else (none, fs)
  | some file =>
    if flag.has flagCreateNew then
      let removed := removeFile fs name
      match platform.createNullFile removed name range.total with
      | none => (none, removed)
      | some made => (initSection name range.total.toNat range flag, made)
    else (initSection name file.bytes.length range flag, fs)

/-- The destructor deletes the file where the flag says so. -/
def destroy (flag : FileFlag) (name : Bytes) (fs : FileSystem) : FileSystem :=
  if flag.has flagDelete then removeFile fs name else fs

/-- `FileBodyImpl::generate`: a body whose `init` fails is destroyed at once. -/
def generate (platform : Platform) (fs : FileSystem) (name : Bytes) (range : HttpRange)
    (flag : FileFlag) : Option FileBody × FileSystem :=
  match init platform fs name range flag with
  | (some body, fs) => (some body, fs)
  | (none, fs) => (none, destroy flag name fs)

end FileBody

/-- `HnwHttpBody`, the classes of the library. -/
inductive Body where
  /-- `RawBodyImpl`. -/
  | raw (body : RawBody)
  /-- `FileBodyImpl`. -/
  | file (body : FileBody)
  /-- `BaseBodyImpl`, of type `BODY_EMPTY`. -/
  | empty
deriving DecidableEq

namespace Body

/-- `body_size`. -/
def bodySize : Body → Nat
  | .raw body => body.bodySize
  | .file body => body.bodySize
  | .empty => 0

/-- `write_pos`. -/
def writePos : Body → Nat
  | .raw body => body.writePos
  | .file body => body.writePos
  | .empty => 0

/-- `is_complete`. -/
def isComplete : Body → Bool
  | .raw body => body.isComplete
  | .file body => body.isComplete
  | .empty => true

/-- `read_body`: the bytes read. -/
def readBody (fs : FileSystem) (buffSize : Nat) : Body → Bytes × Body
  | .raw body => ((body.readBody buffSize).1, .raw (body.readBody buffSize).2)
  | .file body => ((body.readBody fs buffSize).1, .file (body.readBody fs buffSize).2)
  | .empty => ([], .empty)

/-- `write_body`: the number of bytes written. -/
def writeBody (fs : FileSystem) (buff : Bytes) : Body → Nat × Body × FileSystem
  | .raw body => ((body.writeBody buff).1, .raw (body.writeBody buff).2, fs)
  | .file body =>
    let (size, body, fs) := body.writeBody fs buff
    (size, .file body, fs)
  | .empty => (0, .empty, fs)

/-- The bytes of a body. -/
def content (fs : FileSystem) : Body → Bytes
  | .raw body => body.body
  | .file body =>
    (((fs body.fileName).map File.bytes).getD []).extract body.start (body.stop + 1)
  | .empty => []

/-- The destructor. -/
def destroy (fs : FileSystem) : Body → FileSystem
  | .file body => FileBody.destroy body.flag body.fileName fs
  | _ => fs

end Body

end Hnw.Http
