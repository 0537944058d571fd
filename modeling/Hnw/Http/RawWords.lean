import Hnw.Http.Body

/-!
# A raw body in words

`RawBodyImpl` with its positions and sizes as the 64-bit words they are: what is left to read is a
signed difference of two of them, and what a write may take an unsigned one. `RawBody` is the same
body with numbers.
-/

namespace Hnw.Http

/-- `RawBodyImpl`, in words. -/
structure RawWords where
  /-- `body_`. -/
  body : Bytes := []
  /-- `maximum_capacity_`. -/
  maximumCapacity : UInt64
  /-- `increment_`. -/
  increment : Bool
  /-- `read_pos_`. -/
  readPos : UInt64 := 0
  /-- `write_pos_`. -/
  writePos : UInt64 := 0
deriving DecidableEq

namespace RawWords

/-- `generate(maximum_capacity)`, and `generate()` where there is no capacity. -/
def generate : Option UInt64 → RawWords
  | some maximumCapacity => { maximumCapacity, increment := false }
  | none => { maximumCapacity := 0, increment := true }

/-- `body_size`. -/
def bodySize (body : RawWords) : UInt64 := UInt64.ofNat body.body.length

/-- `is_complete`. -/
def isComplete (body : RawWords) : Bool :=
  body.increment || body.maximumCapacity == body.bodySize

/-- `read_body_cb`: the bytes it copies. -/
def readBodyCb (body : RawWords) (buffSize startPos : UInt64) : Bytes :=
  let dl := body.bodySize - startPos
  if dl.toInt64 ≤ 0 then []
  else if buffSize ≤ dl then (body.body.drop startPos.toNat).take buffSize.toNat
  else if dl < buffSize then (body.body.drop startPos.toNat).take dl.toNat
  else []

/-- `read_body`. -/
def readBody (body : RawWords) (buffSize : UInt64) : Bytes × RawWords :=
  let bytes := body.readBodyCb buffSize body.readPos
  (bytes, { body with readPos := body.readPos + UInt64.ofNat bytes.length })

/-- What `write_body_cb` makes of the size of its buffer. -/
def writeSize (body : RawWords) (buffSize startPos : UInt64) : UInt64 :=
  let endPos := startPos + buffSize
  if body.increment = false ∧ body.maximumCapacity ≤ endPos then body.maximumCapacity - startPos
  else buffSize

/-- `write_body`: the number of bytes written; `none` where it reads behind its buffer. -/
def writeBody (body : RawWords) (buff : Bytes) : Option (UInt64 × RawWords) :=
  let size := body.writeSize (UInt64.ofNat buff.length) body.writePos
  if buff.length < size.toNat then none
  else
    let written :=
      if body.bodySize ≤ body.writePos then body.body ++ buff.take size.toNat
      else body.body.take body.writePos.toNat ++ buff.take size.toNat
    some (size, { body with body := written, writePos := body.writePos + size })

/-- A call of `write_body` or `read_body`. -/
inductive Call where
  /-- `write_body(buff, buff_size)`. -/
  | write (buff : Bytes)
  /-- `read_body(buff, buff_size)`. -/
  | read (buffSize : UInt64)
deriving DecidableEq

/-- A body, and what was read of it so far. -/
abbrev Progress := RawWords × Bytes

/-- One call. -/
def call : Progress → Call → Option Progress
  | (body, taken), .write buff => (body.writeBody buff).map fun left => (left.2, taken)
  | (body, taken), .read buffSize =>
    let (bytes, left) := body.readBody buffSize
    some (left, taken ++ bytes)

/-- Calls in order. -/
def run (calls : List Call) (progress : Progress) : Option Progress := calls.foldlM call progress

/-- The bytes that are offered to a body. -/
def offered (calls : List Call) : Bytes :=
  calls.flatMap fun
    | .write buff => buff
    | .read _ => []

end RawWords

end Hnw.Http
