import Hnw.Service.Destination
import Hnw.Service.Respond

/-!
# Building requests

The ways the library gives an application to send a request with a body: `Service::raw_request`,
whose data lies in memory, and `Service::file_request`, whose data is a section of a file.
-/

namespace Hnw.Service

open Hnw.Http Hnw.Util Hnw.Util.UnorderedMultimap

variable {σ : Type} [UnorderedMultimap σ]

/-- `raw_request`: the request it hands over, `none` where it returns an error before or `split`
throws. -/
def rawRequest (method uri data : Bytes) (extHead : Option σ) : Option (Request σ) := do
  let request : Request σ := Request.generate
  let line ← rawRequestLine method uri
  let head := mergeExtHead request.head extHead
  let (size, body) := RawBody.generate.writeBody data
  if data.length ≠ size then none else some { line, head, body := some (.raw body) }

/-- `file_request`: the request it hands over and the files it leaves, `none` where it returns an
error before or `split` throws. It goes on with what `get_range` leaves of the range. -/
def fileRequest (platform : Platform) (fs : FileSystem) (method uri filepath : Bytes)
    (extHead : Option σ) : Option (Request σ × FileSystem) := do
  let request : Request σ := Request.generate
  let line ← rawRequestLine method uri
  let head := mergeExtHead request.head extHead
  let range ← rangeLeft head {}
  match FileBody.generate platform fs filepath range flagOpen with
  | (none, _) => none
  | (some body, fs) => some ({ line, head, body := some (.file body) }, fs)

/-- A way to send a request with a body. -/
inductive Post (σ : Type) where
  /-- `raw_request`. -/
  | raw (method uri data : Bytes) (extHead : Option σ)
  /-- `file_request`. -/
  | file (method uri filepath : Bytes) (extHead : Option σ)

/-- The request that is handed to `HnwHttp_Request`, where there is one, and the files. -/
def Post.request (platform : Platform) (fs : FileSystem) : Post σ → Option (Request σ × FileSystem)
  | .raw method uri data extHead => (rawRequest method uri data extHead).map (·, fs)
  | .file method uri filepath extHead => fileRequest platform fs method uri filepath extHead

end Hnw.Service
