import Hnw.Http.Message

/-!
# Building responses

The ways the library gives an application to make a response: `HnwHttp_GenerateResponse` and the
members of `HnwHttpResponse`, `Service::raw_response` and `Service::file_response`.
-/

namespace Hnw.Service

open Hnw.Http Hnw.Util Hnw.Util.UnorderedMultimap

variable {σ : Type} [UnorderedMultimap σ]

/-- What an application does to a response it generated. -/
inductive BuildStep where
  /-- `line->status_code(code)`. -/
  | statusCode (code : Bytes)
  /-- `head->add_head(key, value)`. -/
  | addHead (key value : Bytes)
  /-- `head->del_head(key)`. -/
  | delHead (key : Bytes)
  /-- `set_file_body(path, range, flag)`, whatever it returns. -/
  | setFileBody (path : Bytes) (range : HttpRange) (flag : FileFlag)

/-- One thing an application does, to the response and the files. -/
def buildStep (platform : Platform) :
    Response σ × FileSystem → BuildStep → Response σ × FileSystem
  | (response, fs), .statusCode code =>
    ({ response with line := response.line.setStatusCode code }, fs)
  | (response, fs), .addHead key value =>
    ({ response with head := Http.addHead response.head key value }, fs)
  | (response, fs), .delHead key =>
    ({ response with head := Http.delHead response.head key }, fs)
  | (response, fs), .setFileBody path range flag =>
    (response.setFileBody platform fs path range flag).2

/-- `res->head->merge(ext_head)`, where a null head changes nothing. -/
def mergeExtHead (head : σ) : Option σ → σ
  | none => head
  | some extHead => merge head extHead true

/-- `raw_response`: the response it hands over, `none` where it returns an error before. -/
def rawResponse (code data : Bytes) (extHead : Option σ) : Option (Response σ) :=
  let response : Response σ := Response.generate
  let line := response.line.setStatusCode code
  let head := mergeExtHead response.head extHead
  let (size, body) := RawBody.generate.writeBody data
  if data.length ≠ size then none else some { line, head, body := some (.raw body) }

/-- `file_response`: the response it hands over and the files it leaves, `none` where it returns an
error before or `split` throws. It goes on with what `get_content_range` leaves of the range. -/
def fileResponse (platform : Platform) (fs : FileSystem) (code filepath : Bytes)
    (extHead : Option σ) : Option (Response σ × FileSystem) := do
  let response : Response σ := Response.generate
  let line := response.line.setStatusCode code
  let head := mergeExtHead response.head extHead
  let head :=
    if getHeadCount head httpCt = 0 then
      Http.addHead head httpCt (getHttpMimeByUri filepath octMime)
    else head
  let range ← contentRangeLeft head {}
  match FileBody.generate platform fs filepath range flagOpen with
  | (none, _) => none
  | (some body, fs) => some ({ line, head, body := some (.file body) }, fs)

/-- A way to make a response. -/
inductive Way (σ : Type) where
  /-- `HnwHttp_GenerateResponse`, and then these things. -/
  | generated (steps : List BuildStep)
  /-- `raw_response`. -/
  | raw (code data : Bytes) (extHead : Option σ)
  /-- `file_response`. -/
  | file (code filepath : Bytes) (extHead : Option σ)

/-- The response that is handed to `HnwHttp_Response`, where there is one, and the files. -/
def Way.response (platform : Platform) (fs : FileSystem) :
    Way σ → Option (Response σ × FileSystem)
  | .generated steps => some (steps.foldl (buildStep platform) (Response.generate, fs))
  | .raw code data extHead => (rawResponse code data extHead).map (·, fs)
  | .file code filepath extHead => fileResponse platform fs code filepath extHead

end Hnw.Service
