import Hnw.Http.Head
import Hnw.Http.Line
import Hnw.Util.Codec

/-!
# Authentication

The headers of `HeadImpl` by which a server asks for authentication and a client answers. `md5` is
a parameter: any function on texts.
-/

namespace Hnw.Http

open Hnw.Util Hnw.Util.UnorderedMultimap

/-- `HTTP_WWW_AUTH`. -/
def httpWwwAuth : Bytes := ascii "WWW-Authenticate"

/-- `HTTP_AUTH`. -/
def httpAuth : Bytes := ascii "Authorization"

/-- `HnwHttpAuthMethod`. -/
inductive HnwHttpAuthMethod where
  /-- `NoneAuth`. -/
  | noneAuth
  /-- `BasicAuth`. -/
  | basicAuth
  /-- `DigestAuth`. -/
  | digestAuth
deriving DecidableEq

/-- `HnwWWWAuthenticate`. -/
structure HnwWWWAuthenticate where
  /-- `method`. -/
  method : HnwHttpAuthMethod := .noneAuth
  /-- `realm`. -/
  realm : Bytes := []
  /-- `qop`. -/
  qop : Bytes := ascii "auth"
  /-- `nonce`. -/
  nonce : Bytes := []
  /-- `opaque`. -/
  opaqueText : Bytes := []
deriving DecidableEq

/-- `HnwAuthorization`. -/
structure HnwAuthorization where
  /-- `method`. -/
  method : HnwHttpAuthMethod := .noneAuth
  /-- `username`. -/
  username : Bytes := []
  /-- `password`. -/
  password : Bytes := []
  /-- `realm`. -/
  realm : Bytes := []
  /-- `nonce`. -/
  nonce : Bytes := []
  /-- `uri`. -/
  uri : Bytes := []
  /-- `qop`. -/
  qop : Bytes := []
  /-- `nc`. -/
  nc : Bytes := []
  /-- `cnonce`. -/
  cnonce : Bytes := []
  /-- `response`. -/
  response : Bytes := []
  /-- `opaque`. -/
  opaqueText : Bytes := []
deriving DecidableEq

/-! ## The fields of a header -/

/-- `"`. -/
def doubleQuote : UInt8 := 34

/-- `'`. -/
def singleQuote : UInt8 := 39

/-- `SplitKeyValueStatus`. -/
inductive SplitKeyValueStatus where
  /-- `Status_KEY`. -/
  | key
  /-- `Status_VALUE`. -/
  | value
  /-- `Status_STR`. -/
  | str
deriving DecidableEq

/-- The variables of `split_ky`. -/
structure SplitKy where
  /-- `k_vs`. -/
  kVs : QueryMap := []
  /-- `key`. -/
  key : Bytes := []
  /-- `value`. -/
  value : Bytes := []
  /-- `s`. -/
  s : SplitKeyValueStatus := .key

/-- The body of the loop of `split_ky`. -/
def SplitKy.next (link : UInt8) (k : SplitKy) (c : UInt8) : SplitKy :=
  match k.s with
  | .key => if c = equals then { k with s := .value } else { k with key := k.key ++ [c] }
  | .value =>
    if c = doubleQuote ∨ c = singleQuote then { k with s := .str }
    else if c = link then { kVs := k.kVs.set (trim k.key) (trim k.value) }
    else { k with value := k.value ++ [c] }
  | .str =>
    if c = doubleQuote ∨ c = singleQuote then { k with s := .value }
    else { k with value := k.value ++ [c] }

/-- `split_ky`; the link is a comma wherever it is called. -/
def splitKy (src : Bytes) : QueryMap :=
  let k := src.foldl (SplitKy.next comma) {}
  if k.key = [] then k.kVs else k.kVs.set (trim k.key) (trim k.value)

/-- `GET_VALUE_FOR_MAP`, with the empty text as default. -/
def getValueForMap (map : QueryMap) (key : Bytes) : Bytes :=
  match map.find? fun entry => entry.1 = key with
  | some entry => entry.2
  | none => []

/-- The method of a header and the text behind the first blank; `none` where one is missing. -/
def authParts (str : Bytes) : Option (Bytes × Bytes) :=
  match Util.find str space 0 with
  | none => none
  | some p => if str.length ≤ p + 1 then none else some (str.take p, str.drop (p + 1))

variable {σ : Type} [UnorderedMultimap σ]

/-! ## The server's question -/

/-- `get_www_authenticate`. -/
def getWwwAuthenticate (head : σ) : HnwWWWAuthenticate :=
  match authParts (getHead head httpWwwAuth []) with
  | none => {}
  | some (auth_method, data) =>
    let map := splitKy data
    if auth_method = ascii "Digest" then
      { method := .digestAuth
        realm := getValueForMap map (ascii "realm")
        nonce := getValueForMap map (ascii "nonce")
        opaqueText := getValueForMap map (ascii "opaque")
        qop := getValueForMap map (ascii "qop") }
    else if auth_method = ascii "Basic" then
      { method := .basicAuth, realm := getValueForMap map (ascii "realm") }
    else {}

/-- What `set_www_authenticate` prints; there is nothing to print without a method. -/
def wwwAuthenticateText (auth : HnwWWWAuthenticate) : Option Bytes :=
  match auth.method with
  | .noneAuth => none
  | .basicAuth => some (ascii "Basic realm=\"" ++ auth.realm ++ ascii "\"")
  | .digestAuth => some
      (ascii "Digest realm=\"" ++ auth.realm ++ ascii "\"," ++ ascii "qop=\"" ++ auth.qop ++
        ascii "\"," ++ ascii "nonce=\"" ++ auth.nonce ++ ascii "\"," ++ ascii "opaque=\"" ++
        auth.opaqueText ++ ascii "\"")

/-- `set_www_authenticate`: the head and what it returns. -/
def setWwwAuthenticate (head : σ) (auth : HnwWWWAuthenticate) : σ × Bool :=
  match wwwAuthenticateText auth with
  | none => (head, false)
  | some data => (addHead (delHead head httpWwwAuth) httpWwwAuth data, true)

/-! ## The client's answer -/

/-- `get_auth_info`. -/
def getAuthInfo (md5 : Bytes → Bytes) (auth : HnwAuthorization) (http_method : Bytes) : Bytes :=
  match auth.method with
  | .basicAuth => encodeBase64 (auth.username ++ ascii ":" ++ auth.password)
  | .digestAuth =>
    let ha1 := md5 (auth.username ++ ascii ":" ++ auth.realm ++ ascii ":" ++ auth.password)
    let ha2 := md5 (http_method ++ ascii ":" ++ auth.uri)
    md5 (ha1 ++ ascii ":" ++ auth.nonce ++ ascii ":" ++ auth.nc ++ ascii ":" ++ auth.cnonce ++
      ascii ":" ++ auth.qop ++ ascii ":" ++ ha2)
  | .noneAuth => []

/-- What `get_authorization` reads of the text of a `Digest` header. -/
def readDigest (data : Bytes) : HnwAuthorization :=
  let map := splitKy data
  { method := .digestAuth
    realm := getValueForMap map (ascii "realm")
    nonce := getValueForMap map (ascii "nonce")
    opaqueText := getValueForMap map (ascii "opaque")
    qop := getValueForMap map (ascii "qop")
    cnonce := getValueForMap map (ascii "cnonce")
    nc := getValueForMap map (ascii "nc")
    response := getValueForMap map (ascii "response")
    uri := getValueForMap map (ascii "uri")
    username := getValueForMap map (ascii "username") }

/-- What `get_authorization` reads of the text of a `Basic` header; `none` where `split` throws. -/
def readBasic (data : Bytes) : Option HnwAuthorization := do
  match ← split (decodeBase64 data) (ascii ":") with
  | username :: password :: _ => pure { method := .basicAuth, username, password }
  | _ => pure {}

/-- `get_authorization`; `none` where `split` throws. -/
def getAuthorization (head : σ) : Option HnwAuthorization :=
  match authParts (getHead head httpAuth []) with
  | none => some {}
  | some (auth_method, data) =>
    if auth_method = ascii "Digest" then some (readDigest data)
    else if auth_method = ascii "Basic" then readBasic data
    else some {}

/-- What `set_authorization` prints; there is nothing to print without a method. -/
def authorizationText (md5 : Bytes → Bytes) (auth : HnwAuthorization) (http_method : Bytes) :
    Option Bytes :=
  match auth.method with
  | .noneAuth => none
  | .basicAuth => some (ascii "Basic " ++ getAuthInfo md5 auth http_method)
  | .digestAuth => some
      (ascii "Digest username=\"" ++ auth.username ++ ascii "\"," ++ ascii "realm=\"" ++
        auth.realm ++ ascii "\"," ++ ascii "nonce=\"" ++ auth.nonce ++ ascii "\"," ++
        ascii "uri=\"" ++ auth.uri ++ ascii "\"," ++ ascii "qop=" ++ auth.qop ++ ascii "," ++
        ascii "nc=" ++ auth.nc ++ ascii "," ++ ascii "cnonce=\"" ++ auth.cnonce ++ ascii "\"," ++
        ascii "response=\"" ++ getAuthInfo md5 auth http_method ++ ascii "\"," ++
        ascii "opaque=\"" ++ auth.opaqueText ++ ascii "\",")

/-- `set_authorization`: the head and what it returns. -/
def setAuthorization (md5 : Bytes → Bytes) (head : σ) (auth : HnwAuthorization)
    (http_method : Bytes) : σ × Bool :=
  match authorizationText md5 auth http_method with
  | none => (head, false)
  | some data => (addHead (delHead head httpAuth) httpAuth data, true)

/-- `check_auth` of an authorization. Passwords are compared as C strings. -/
def checkAuthOf (md5 : Bytes → Bytes) (auth : HnwAuthorization) (password http_method : Bytes) :
    Bool :=
  match auth.method with
  | .basicAuth => cStr auth.password = cStr password
  | .digestAuth => getAuthInfo md5 { auth with password } http_method = auth.response
  | .noneAuth => false

/-- `check_auth`; `none` where `get_authorization` throws. -/
def checkAuth (md5 : Bytes → Bytes) (head : σ) (password http_method : Bytes) : Option Bool :=
  (getAuthorization head).map fun auth => checkAuthOf md5 auth password http_method

end Hnw.Http
