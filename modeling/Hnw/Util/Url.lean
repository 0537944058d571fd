import Hnw.Util.Text

/-!
# URLs

The functions of `http_util.hpp` that encode, decode and take apart the URLs of requests. The
cursor of the encoder and of the decoder is an `unsigned int`, which wraps; a loop that may not
end has a bound on its rounds.
-/

namespace Hnw.Util

/-! ## Percent-encoding -/

/-- `%`. -/
def percent : UInt8 := 37

/-- What a cursor of 32 bits becomes. -/
def cursor (position : Nat) : Nat := position % 2 ^ 32

/-- The value of a signed `char`. -/
def signedChar (byte : UInt8) : Int := if byte < 128 then byte.toNat else byte.toNat - 256

/-- The `char` of a number. -/
def charOf (number : Int) : UInt8 := (number % 256).toNat.toUInt8

/-- `dec2hexChar`. -/
def dec2hexChar (n : Int) : UInt8 :=
  if 0 ≤ n ∧ n ≤ 9 then charOf (48 + n)
  else if 10 ≤ n ∧ n ≤ 15 then charOf (65 + n - 10)
  else charOf 0

/-- `hexChar2dec`. -/
def hexChar2dec (c : UInt8) : Int :=
  if 48 ≤ c ∧ c ≤ 57 then c.toNat - 48
  else if 97 ≤ c ∧ c ≤ 102 then c.toNat - 97 + 10
  else if 65 ≤ c ∧ c ≤ 70 then c.toNat - 65 + 10
  else -1

/-- The bytes that `encode_url` leaves as they are: digits, letters, `/` and `.`. -/
def keptByte (c : UInt8) : Bool :=
  (48 ≤ c ∧ c ≤ 57) ∨ (97 ≤ c ∧ c ≤ 122) ∨ (65 ≤ c ∧ c ≤ 90) ∨ c = slash ∨ c = 46

/-- What a round of `encode_url` adds. -/
def encodeChar (c : UInt8) : Bytes :=
  if keptByte c then [c]
  else
    let j := if signedChar c < 0 then signedChar c + 256 else signedChar c
    let i1 := j / 16
    let i0 := j - i1 * 16
    [percent, dec2hexChar i1, dec2hexChar i0]

/-- The loop of `encode_url` from a cursor on; `none` where the rounds do not suffice. -/
def encodeFrom (url : Bytes) : Nat → Nat → Bytes → Option Bytes
  | 0, _, _ => none
  | fuel + 1, i, result =>
    match url[i]? with
    | none => some result
    | some c => encodeFrom url fuel (cursor (i + 1)) (result ++ encodeChar c)

/-- `encode_url`, with a bound on its rounds. -/
def encodeUrl (url : Bytes) (fuel : Nat) : Option Bytes := encodeFrom url fuel 0 []

/-- `url[i]`; the byte behind the last is NUL, and there is no other. -/
def charAt (url : Bytes) (i : Nat) : Option UInt8 :=
  if i = url.length then some 0 else url[i]?

/-- How the rounds of `decode_url` end. -/
inductive Decoding
  /-- The rounds did not suffice. -/
  | unfinished
  /-- A byte was read that is not there. -/
  | outOfBounds
  /-- The decoder returned. -/
  | returned (result : Bytes)
deriving DecidableEq

/-- A round of `decode_url`: the byte it adds and the next cursor; `none` where it reads a byte
that is not there. -/
def decodeRound (url : Bytes) (i : Nat) : Option (UInt8 × Nat) := do
  let c ← charAt url i
  if c = percent then
    let c1 ← charAt url (cursor (i + 1))
    let c0 ← charAt url (cursor (cursor (i + 1) + 1))
    let num := hexChar2dec c1 * 16 + hexChar2dec c0
    pure (charOf num, cursor (cursor (cursor (i + 1) + 1) + 1))
  else pure (c, cursor (i + 1))

/-- The loop of `decode_url` from a cursor on. -/
def decodeFrom (url : Bytes) : Nat → Nat → Bytes → Decoding
  | 0, _, _ => .unfinished
  | fuel + 1, i, result =>
    if i < url.length then
      match decodeRound url i with
      | none => .outOfBounds
      | some (byte, next) => decodeFrom url fuel next (result ++ [byte])
    else .returned result

/-- `decode_url`, with a bound on its rounds. -/
def decodeUrl (url : Bytes) (fuel : Nat) : Decoding := decodeFrom url fuel 0 []

/-! ## The parts of a URL -/

/-- `UrlParam`. -/
structure UrlParam where
  /-- `protocol`. -/
  protocol : Bytes := []
  /-- `host`. -/
  host : Bytes := []
  /-- `port`. -/
  port : Bytes := []
  /-- `path`. -/
  path : Bytes := []
  /-- `query_string`. -/
  queryString : Bytes := []
deriving DecidableEq

/-- The host and the port of `parser_url`; `none` where `split` throws. -/
def readHost (str : Bytes) (out : UrlParam) : Option UrlParam := do
  match ← split str (ascii ":") with
  | host :: port :: _ => pure { out with host, port }
  | [host] => pure { out with host }
  | [] => none

/-- `parser_url`, which returns true; `none` where `split` throws. -/
def parserUrl (url : Bytes) (out : UrlParam) : Option UrlParam := do
  let scheme := find url (ascii "://") 0
  let out := match scheme with
    | some p => { out with protocol := url.take p }
    | none => out
  let pos := match scheme with
    | some p => p + 3
    | none => 0
  match find url (ascii "/") pos with
  | none => readHost (url.drop pos) out
  | some p =>
    let out ← readHost (url.extract pos p) out
    match find url (ascii "?") p with
    | some q =>
      pure { out with path := url.extract p q, queryString := url.drop (q + 1) }
    | none => pure { out with path := url.drop p }

/-- `get_path_for_url`; `none` where `parser_url` throws. -/
def getPathForUrl (url : Bytes) : Option Bytes := do
  let param ← parserUrl url {}
  pure (if param.queryString = [] then param.path
    else param.path ++ ascii "?" ++ param.queryString)

/-- `get_host_for_url`; `none` where `parser_url` throws. -/
def getHostForUrl (url : Bytes) : Option Bytes := do
  let param ← parserUrl url {}
  let result := if param.protocol = [] then ascii "http://" else param.protocol ++ ascii "://"
  pure (if param.host = [] then []
    else if param.port = [] then result ++ param.host
    else result ++ param.host ++ ascii ":" ++ param.port)

end Hnw.Util
