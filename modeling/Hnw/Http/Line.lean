import Hnw.Util.Text

/-!
# Start lines

`RequestLineImpl` and `ResponseLineImpl`. A request line keeps its target as a path and a map of
query values.
-/

namespace Hnw.Http

open Hnw.Util

/-- `std::map<std::string, std::string>`: sorted by key. -/
abbrev QueryMap := List (Bytes × Bytes)

/-- `map[key] = value`. -/
def QueryMap.set (key value : Bytes) : QueryMap → QueryMap
  | [] => [(key, value)]
  | entry :: rest =>
    if key < entry.1 then (key, value) :: entry :: rest
    else if key = entry.1 then (key, value) :: rest
    else entry :: QueryMap.set key value rest

/-- `RequestLineImpl`. -/
structure RequestLine where
  /-- `method_`. -/
  method : Bytes := ascii "GET"
  /-- `path_`. -/
  path : Bytes := ascii "/"
  /-- `query_map_`. -/
  queryMap : QueryMap := []
  /-- `version_`. -/
  version : Bytes := ascii "HTTP/1.1"
deriving DecidableEq

namespace RequestLine

/-- `url()`: the last character, `?` or `&`, is cut off. -/
def url (line : RequestLine) : Bytes :=
  (line.path ++ ascii "?" ++
    line.queryMap.flatMap fun entry => entry.1 ++ ascii "=" ++ entry.2 ++ ascii "&").dropLast

/-- `add_query`. -/
def addQuery (line : RequestLine) (key value : Bytes) : RequestLine :=
  { line with queryMap := line.queryMap.set key value }

/-- One `key=value` of the target; `none` where `split` throws. -/
def readQuery (line : RequestLine) (q : Bytes) : Option RequestLine := do
  match ← split q (ascii "=") with
  | key :: value :: _ => pure (line.addQuery key value)
  | [key] => pure (line.addQuery key [])
  | [] => none

/-- `url(m)`; `none` where `split` throws. -/
def setUrl (line : RequestLine) (m : Bytes) : Option RequestLine := do
  match ← split m (ascii "?") with
  | path :: query :: _ =>
    let qV ← split query (ascii "&")
    qV.foldlM readQuery { line with path }
  | [path] => pure { line with path }
  | [] => none

/-- `string()`. -/
def string (line : RequestLine) : Bytes :=
  line.method ++ space ++ line.url ++ space ++ line.version

end RequestLine

/-- `ResponseLineImpl`. -/
structure ResponseLine where
  /-- `version_`. -/
  version : Bytes := ascii "HTTP/1.1"
  /-- `status_code_`. -/
  statusCode : Bytes := ascii "200"
  /-- `reason_`. -/
  reason : Bytes := ascii "OK"
deriving DecidableEq

namespace ResponseLine

/-- `version(m)`. -/
def setVersion (line : ResponseLine) (m : Bytes) : ResponseLine := { line with version := m }

/-- `reason(m)`. -/
def setReason (line : ResponseLine) (m : Bytes) : ResponseLine := { line with reason := m }

/-- `status_code(m)`: the reason follows the code. -/
def setStatusCode (line : ResponseLine) (m : Bytes) : ResponseLine :=
  { line with reason := httpReasion m, statusCode := m }

/-- `string()`. -/
def string (line : ResponseLine) : Bytes :=
  line.version ++ space ++ line.statusCode ++ space ++ line.reason

end ResponseLine

end Hnw.Http
