import Hnw.Util.Bytes

/-!
# Text of the HTTP layer

`http_util.hpp`: the constants the modelled functions use, `split`, and the conversions between
numbers and text that the standard library does for the program.
-/

namespace Hnw.Util

/-- `HTTP_LEN`. -/
def httpLen : Bytes := ascii "Content-Length"

/-- `HTTP_CT`. -/
def httpCt : Bytes := ascii "Content-Type"

/-- `HTTP_CONN`. -/
def httpConn : Bytes := ascii "Connection"

/-- `HTTP_CONN_CLOSE`. -/
def httpConnClose : Bytes := ascii "Close"

/-- `HTTP_CONN_KEEPALIVE`. -/
def httpConnKeepalive : Bytes := ascii "keep-alive"

/-- `HTTP_RANGE`. -/
def httpRange : Bytes := ascii "Range"

/-- `HTTP_CONTENT_RANGE`. -/
def httpContentRange : Bytes := ascii "Content-Range"

/-- `HTTP_RANGE_BYTE`. -/
def httpRangeByte : Bytes := ascii "bytes"

/-- `HTTP_HOST`. -/
def httpHost : Bytes := ascii "Host"

/-- `HTTP_UA`. -/
def httpUa : Bytes := ascii "User-Agent"

/-- `HNW_HTTP_UA`. -/
def hnwHttpUa : Bytes := ascii "HnwHttpClient/1.0"

/-- `HTTP_ACCEPT`. -/
def httpAccept : Bytes := ascii "Accept"

/-- `ACCEPT_ALL`. -/
def acceptAll : Bytes := ascii "*/*"

/-- `HTML_MIME`. -/
def htmlMime : Bytes := ascii "text/html"

/-- `SPACE`. -/
def space : Bytes := [blank]

/-- `http_reasion`: the text of a status code. -/
def httpReasion (status : Bytes) : Bytes :=
  let known : List (String × String) :=
    [("200", "OK"), ("206", "Partial Content"), ("301", "Moved Permanently"),
      ("302", "Move Temporarily"), ("400", "Bad Request"), ("401", "Unauthorized"),
      ("403", "Forbidden"), ("404", "Not Found"), ("405", "Internal Server Error"),
      ("503", "Server Unavailable")]
  match known.find? fun entry => ascii entry.1 = status with
  | some entry => ascii entry.2
  | none => ascii "NONE"

/-- `OCT_MIME`. -/
def octMime : Bytes := ascii "application/octet-stream"

/-- `http_mime`: the type of a file by its extension. -/
def httpMime (ext default_d : Bytes) : Bytes :=
  let known : List (String × String) :=
    [(".aac", "audio/aac"), (".abw", "application/x-abiword"), (".avi", "video/x-msvideo"),
      (".bmp", "image/bmp"), (".bz", "application/x-bzip"), (".bz2", "application/x-bzip2"),
      (".css", "text/css"), (".csv", "text/csv"), (".doc", "application/msword"),
      (".docx", "application/vnd.openxmlformats-officedocument.wordprocessingml.document"),
      (".epub", "application/epub+zip"), (".gif", "image/gif"), (".htm", "text/html"),
      (".html", "text/html"), (".ico", "image/vnd.microsoft.icon"),
      (".jar", "application/java-archive"), (".jpeg", "image/jpeg"), (".jpg", "image/jpeg"),
      (".js", "text/javascript"), (".json", "application/json"), (".mp3", "audio/mpeg"),
      (".mpeg", "video/mpeg"), (".png", "image/png"), (".rar", "application/x-rar-compressed"),
      (".ttf", "font/ttf"), (".wav", "audio/wav"), (".xls", "application/vnd.ms-excel"),
      (".xlsx", "application/vnd.openxmlformats-officedocument.spreadsheetml.sheet"),
      (".xml", "application/xml"), (".zip", "application/zip"), (".mp4", "video/mpeg4"),
      (".rmvb", "application/vnd.rn-realmedia-vbr")]
  match known.find? fun entry => ascii entry.1 = ext with
  | some entry => ascii entry.2
  | none => default_d

/-- `get_http_mime_by_uri`: the extension begins with the last dot. -/
def getHttpMimeByUri (uri default_d : Bytes) : Bytes :=
  if 46 ∈ uri then httpMime (46 :: (uri.reverse.takeWhile (· ≠ 46)).reverse) default_d
  else default_d

/-- `std::tolower` in the C locale. -/
def tolower (byte : UInt8) : UInt8 := if 65 ≤ byte ∧ byte ≤ 90 then byte + 32 else byte

/-- `to_lower`; its check of the range is true of every byte. -/
def toLower (src : Bytes) : Bytes := src.map tolower

/-! ## Search and `split` -/

/-- Where a pattern first occurs. -/
def firstIndex (pattern : Bytes) : Bytes → Option Nat
  | [] => if pattern = [] then some 0 else none
  | byte :: rest =>
    if pattern <+: byte :: rest then some 0 else (firstIndex pattern rest).map (· + 1)

/-- `std::string::find(pattern, from)`. -/
def find (src pattern : Bytes) (beg : Nat) : Option Nat :=
  if beg ≤ src.length then (firstIndex pattern (src.drop beg)).map (beg + ·) else none

/-- The loop of `split` from the cursor on, with a bound on its rounds. The cursor is an `int`:
one past its range becomes a huge or an earlier position, and the loop then throws. -/
def splitFrom (src splitor : Bytes) : Nat → Nat → Option (List Bytes)
  | 0, _ => none
  | fuel + 1, beg =>
    match find src splitor beg with
    | none => some [src.drop beg]
    | some pos =>
      if pos + splitor.length < 2 ^ 31 then
        (splitFrom src splitor fuel (pos + splitor.length)).map (src.extract beg pos :: ·)
      else none

/-- `split`; `none` where it throws. -/
def split (src splitor : Bytes) : Option (List Bytes) :=
  splitFrom src splitor (src.length + 1) 0

/-! ## Numbers -/

/-- The decimal digits of a number, with a bound on how many. -/
def decimalDigits : Nat → Nat → Bytes
  | 0, _ => []
  | fuel + 1, n =>
    if n < 10 then [48 + n.toUInt8] else decimalDigits fuel (n / 10) ++ [48 + (n % 10).toUInt8]

/-- `std::to_string` of an unsigned number. -/
def decimal (n : Nat) : Bytes := decimalDigits (n + 1) n

/-- `std::isspace` in the C locale. -/
def isSpace (byte : UInt8) : Bool := byte = 32 ∨ (9 ≤ byte ∧ byte ≤ 13)

/-- `std::isdigit`. -/
def isDigit (byte : UInt8) : Bool := 48 ≤ byte ∧ byte ≤ 57

/-- The value of a run of digits. -/
def digitsValue (digits : Bytes) : Nat :=
  digits.foldl (fun value digit => 10 * value + (digit.toNat - 48)) 0

/-- What `strtoll` and `strtoull` read: white space, a sign, digits. The sign is `true` for a
minus; there is no value without a digit. -/
def signedDigits (text : Bytes) : Option (Bool × Nat) :=
  let text := text.dropWhile isSpace
  let (minus, text) : Bool × Bytes :=
    match text with
    | byte :: rest => if byte = 45 then (true, rest) else if byte = 43 then (false, rest)
      else (false, text)
    | [] => (false, [])
  let digits := text.takeWhile isDigit
  if digits = [] then none else some (minus, digitsValue digits)

/-- `std::stoll`; `none` where it throws. -/
def stoll (text : Bytes) : Option Int :=
  match signedDigits text with
  | none => none
  | some (minus, value) =>
    let value : Int := if minus then -value else value
    if -2 ^ 63 ≤ value ∧ value < 2 ^ 63 then some value else none

/-- `std::stoull`; `none` where it throws. A minus negates modulo `2 ^ 64`. -/
def stoull (text : Bytes) : Option UInt64 :=
  match signedDigits text with
  | none => none
  | some (minus, value) =>
    if value < 2 ^ 64 then
      some (if minus then 0 - UInt64.ofNat value else UInt64.ofNat value)
    else none

end Hnw.Util
