import Hnw.Http.Body
import Hnw.Http.Head
import Hnw.Http.Line

/-!
# Messages

`RequestImpl` and `ResponseImpl`: a start line, a head and a body, which may be null. The two
classes differ in the line, in the body their constructor installs and in the one
`auto_create_body` makes.
-/

namespace Hnw.Http

open Hnw.Util Hnw.Util.UnorderedMultimap

/-- `HnwHttpRequest` or `HnwHttpResponse`, by its line. -/
structure Message (ι σ : Type) where
  /-- `line`. -/
  line : ι
  /-- `head`. -/
  head : σ
  /-- `body`; `none` is null. -/
  body : Option Body

/-- `RequestImpl`. -/
abbrev Request (σ : Type) := Message RequestLine σ

/-- `ResponseImpl`. -/
abbrev Response (σ : Type) := Message ResponseLine σ

/-- What a message is handled in: the platform, the names `util::uuid` gives and the files. -/
structure Surroundings where
  /-- The platform. -/
  platform : Platform
  /-- The names `util::uuid` gives, in order. -/
  uuid : Nat → Bytes

/-- The part of the surroundings that changes. -/
structure Files where
  /-- The file system. -/
  fs : FileSystem
  /-- How many names `util::uuid` gave. -/
  uuids : Nat

/-- The largest `Content-Length` that `auto_create_body` keeps in memory. -/
def rawBodyLimit : Int := 1024 * 1024 * 10

variable {ι σ : Type} [UnorderedMultimap σ]

/-- The size `auto_create_body` reads from the head. -/
def Message.declaredSize (message : Message ι σ) : Int := getHeadInt64 message.head httpLen 0

/-- `RequestImpl::RequestImpl`. The body it installs grows with what is written to it. -/
def Request.generate : Request σ :=
  { line := {}, head := empty, body := some (.raw RawBody.generate) }

/-- `RequestImpl::auto_create_body`; `none` where it returns false. -/
def Request.autoCreateBody (_ : Surroundings) (files : Files) (request : Request σ) :
    Option (Request σ × Files) :=
  if request.declaredSize ≤ rawBodyLimit then
    some ({ request with body := some (.raw (RawBody.generateSized request.declaredSize)) }, files)
  else none

/-- `ResponseImpl::ResponseImpl`. -/
def Response.generate : Response σ := { line := {}, head := empty, body := none }

/-- The name of a temporary file. -/
def tempName (uuid : Bytes) : Bytes := ascii "./" ++ uuid ++ ascii ".HnwHttpTemp"

/-- `ResponseImpl::auto_create_body`: it always returns true, also where it leaves a null body. -/
def Response.autoCreateBody (surroundings : Surroundings) (files : Files)
    (response : Response σ) : Option (Response σ × Files) :=
  if response.declaredSize ≤ rawBodyLimit then
    some ({ response with body := some (.raw (RawBody.generateSized response.declaredSize)) },
      files)
  else
    let range : HttpRange := { total := UInt64.ofInt response.declaredSize }
    let (body, fs) := FileBody.generate surroundings.platform files.fs
      (tempName (surroundings.uuid files.uuids)) range (flagDelete ||| flagCreate)
    some ({ response with body := body.map .file }, { fs, uuids := files.uuids + 1 })

/-- `ResponseImpl::set_file_body`: what it returns, the response and the files it leaves. The body
it replaces is released by its last owner, which need not be the response. -/
def Response.setFileBody (platform : Platform) (fs : FileSystem) (response : Response σ)
    (path : Bytes) (reqRange : HttpRange) (flag : FileFlag) : Bool × Response σ × FileSystem :=
  match FileBody.generate platform fs path reqRange flag with
  | (none, fs) => (false, response, fs)
  | (some tempBody, fs) =>
    let head := setContentRange response.head { reqRange with total := UInt64.ofNat tempBody.size }
    let head :=
      if contentType head = [] then setContentType head (getHttpMimeByUri path octMime) else head
    (true, { response with head, body := some (.file tempBody) }, fs)

/-! ## `save_body_as_file` -/

/-- A read maps a region of the file; behind the end of the file there is none. -/
def Body.ReadsInside (fs : FileSystem) (buffSize : Nat) : Body → Prop
  | .file body =>
    body.readSize buffSize = 0 ∨ body.readPos + body.start + body.readSize buffSize ≤
      (((fs body.fileName).map File.bytes).getD []).length
  | _ => True

instance (fs : FileSystem) (buffSize : Nat) :
    (body : Body) → Decidable (body.ReadsInside fs buffSize)
  | .file _ => inferInstanceAs (Decidable (_ ∨ _))
  | .raw _ => .isTrue trivial
  | .empty => .isTrue trivial

/-- `buff_len`. -/
def saveBuffLen : Nat := 2 * 1024

/-- The loop of `save_body_as_file`: the bytes it writes, `none` where a read is a fault. What is
read goes to the front of the buffer, and the whole of the buffer is written. -/
def saveLoop (fs : FileSystem) : Nat → Body → Bytes → Option Bytes
  | 0, _, _ => none
  | rounds + 1, body, buff =>
    if body.ReadsInside fs saveBuffLen then
      let (bytes, body) := body.readBody fs saveBuffLen
      if bytes.length = 0 then some []
      else
        let buff := bytes ++ buff.drop bytes.length
        (saveLoop fs rounds body buff).map (buff ++ ·)
    else none

/-- How `save_body_as_file` comes out. -/
inductive SaveOutcome where
  /-- It returns false. -/
  | refused
  /-- It returns true and leaves this file. -/
  | saved (file : Bytes)
  /-- It reads behind the end of a file. -/
  | fault
deriving DecidableEq

/-- Opening the stream leaves an empty file. -/
def truncateFile (fs : FileSystem) (path : Bytes) : FileSystem :=
  fun other => if other = path then some ⟨[], by decide⟩ else fs other

/-- `save_body_as_file`; `opens` says whether the stream can be opened. No body is read in more
rounds than it has bytes and one. -/
def Response.saveBodyAsFile (fs : FileSystem) (response : Response σ) (path : Bytes)
    (opens : Bool) : SaveOutcome :=
  match response.body with
  | none => .refused
  | some body =>
    if opens = false then .refused
    else
      match saveLoop (truncateFile fs path) (body.bodySize + 1) body
        (List.replicate saveBuffLen 0) with
      | none => .fault
      | some file => .saved file

end Hnw.Http
