import Hnw.Http.Message

/-!
# Receiving into a file

`Service::recv_file_request` and `Service::recv_file_response`, which an application calls from
the head event. They differ only in the header they read the range from.
-/

namespace Hnw.Service

open Hnw.Http Hnw.Util Hnw.Util.UnorderedMultimap

variable {ι σ : Type} [UnorderedMultimap σ]

/-- The range both functions hand to the body: `Content-Length` decides where there is one, and
the range header is read only where there is none. `some none` is their first error return. -/
def recvRange (getRange : σ → HttpRange → Option (Option HttpRange)) (head : σ) :
    Option (Option HttpRange) :=
  let size := getHeadInt64 head httpLen (-1)
  if size < 0 then getRange head {} else some (some { total := UInt64.ofInt size })

/-- `recv_file_request` and `recv_file_response`. A null body stays where `generate` fails; `none`
is an exception of `split` that escapes. -/
def recvFile (getRange : σ → HttpRange → Option (Option HttpRange)) (surroundings : Surroundings)
    (files : Files) (message : Message ι σ) (filepath : Bytes) (flag : FileFlag) :
    Option (Message ι σ × Files) := do
  match ← recvRange getRange message.head with
  | none => pure (message, files)
  | some range =>
    let (body, fs) := FileBody.generate surroundings.platform files.fs filepath range flag
    pure ({ message with body := body.map .file }, { files with fs })

/-- `recv_file_request`. -/
def recvFileRequest (surroundings : Surroundings) (files : Files) (request : Request σ)
    (filepath : Bytes) (flag : FileFlag) : Option (Request σ × Files) :=
  recvFile getRange surroundings files request filepath flag

/-- `recv_file_response`. -/
def recvFileResponse (surroundings : Surroundings) (files : Files) (response : Response σ)
    (filepath : Bytes) (flag : FileFlag) : Option (Response σ × Files) :=
  recvFile getContentRange surroundings files response filepath flag

end Hnw.Service
