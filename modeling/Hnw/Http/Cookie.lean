import Hnw.Http.Head

/-!
# Cookies

The cookies of `HeadImpl`. A client keeps its cookies in one `Cookie` header, which every call
parses, edits and prints again; a server adds a `Set-Cookie` header for each cookie. Every parser
returns true, so what can go wrong is that `split` throws or that a piece is indexed that is not
there.
-/

namespace Hnw.Http

open Hnw.Util Hnw.Util.UnorderedMultimap Hnw.Util.ErasesAt

/-- `HTTP_SET_COOKIE`. -/
def httpSetCookie : Bytes := ascii "Set-Cookie"

/-- `HTTP_COOKIE`. -/
def httpCookie : Bytes := ascii "Cookie"

/-- `HnwCookie`. -/
structure HnwCookie where
  /-- `key`. -/
  key : Bytes := []
  /-- `value`. -/
  value : Bytes := []
deriving DecidableEq

/-- `HnwSetCookie`. -/
structure HnwSetCookie where
  /-- `value`. -/
  value : HnwCookie := {}
  /-- `expires`. -/
  expires : Bytes := []
  /-- `domain`. -/
  domain : Bytes := []
  /-- `path`. -/
  path : Bytes := []
  /-- `is_secure`. -/
  isSecure : Bool := false
deriving DecidableEq

variable {σ : Type} [UnorderedMultimap σ]

/-! ## The cookies of a client -/

/-- One cookie of a `Cookie` header; `none` where `split` throws. -/
def readCookie (kv : Bytes) : Option HnwCookie := do
  match ← split kv (ascii "=") with
  | key :: value :: _ => pure { key, value }
  | [key] => pure { key }
  | [] => none

/-- `cookie_from_string`; `none` where `split` throws. -/
def cookieFromString (str : Bytes) : Option (List HnwCookie) := do
  let kvs ← split str (ascii ";")
  kvs.mapM readCookie

/-- `cookie_to_string`. -/
def cookieToString (cookies : List HnwCookie) : Bytes :=
  cookies.flatMap fun c => c.key ++ ascii "=" ++ c.value ++ ascii ";"

/-- `get_cookies`; `none` where `split` throws. -/
def getCookies (head : σ) : Option (List HnwCookie) := do
  let lists ← (getHeads head httpCookie).mapM cookieFromString
  pure lists.flatten

/-- `get_cookie`: the cookie it finds, `some none` where it returns false, and `none` where `split`
throws. -/
def getCookie (head : σ) (name : Bytes) : Option (Option HnwCookie) :=
  (getCookies head).map (·.find? (·.key = name))

/-- The cookies are printed into the one `Cookie` header. -/
def storeCookies (head : σ) (data : List HnwCookie) : σ :=
  addHead (delHead head httpCookie) httpCookie (cookieToString data)

/-- `set_cookie`; `none` where `split` throws. -/
def setCookie (head : σ) (cookie : HnwCookie) : Option σ :=
  (getCookies head).map fun data => storeCookies head (data ++ [cookie])

/-- `del_cookie`; `none` where `split` throws. -/
def delCookie (head : σ) (name : Bytes) : Option σ :=
  (getCookies head).map fun data => storeCookies head (data.filter (·.key ≠ name))

/-! ## The cookies of a server -/

/-- What keeps a `Set-Cookie` header from being read. -/
inductive CookieFault where
  /-- `split` throws. -/
  | throws
  /-- A piece is indexed that is not there. -/
  | outOfBounds
deriving DecidableEq

/-- `split` of a `Set-Cookie` header. -/
def splitCookie (str splitor : Bytes) : Except CookieFault (List Bytes) :=
  match split str splitor with
  | none => .error .throws
  | some pieces => .ok pieces

/-- `k_v[i]`. -/
def index (kV : List Bytes) (i : Nat) : Except CookieFault Bytes :=
  match kV[i]? with
  | none => .error .outOfBounds
  | some piece => .ok piece

/-- The first piece of a `Set-Cookie` header, cut at `=`. -/
def setValue (cookies : HnwSetCookie) (kV : List Bytes) : Except CookieFault HnwSetCookie := do
  let key ← index kV 0
  pure { cookies with value := { key, value := (kV[1]?).getD cookies.value.value } }

/-- Any other piece of a `Set-Cookie` header, cut at `=`. -/
def setAttribute (cookies : HnwSetCookie) (kV : List Bytes) : Except CookieFault HnwSetCookie := do
  let name ← index kV 0
  if name = ascii "Expires" then
    let expires ← index kV 1
    pure { cookies with expires }
  else if name = ascii "Path" then
    let path ← index kV 1
    pure { cookies with path }
  else if name = ascii "Domain" then
    let domain ← index kV 1
    pure { cookies with domain }
  else if name = ascii "HttpOnly" then pure { cookies with isSecure := false }
  else pure cookies

/-- The loop over the pieces behind the first. -/
def readAttributes (cookies : HnwSetCookie) : List Bytes → Except CookieFault HnwSetCookie
  | [] => pure cookies
  | kv :: kvs => do
    let cookies ← setAttribute cookies (← splitCookie kv (ascii "="))
    readAttributes cookies kvs

/-- `set_cookie_from_string`. -/
def setCookieFromString (str : Bytes) (cookies : HnwSetCookie) :
    Except CookieFault HnwSetCookie := do
  match ← splitCookie str (ascii ";") with
  | [] => pure cookies
  | kv :: kvs =>
    let cookies ← setValue cookies (← splitCookie kv (ascii "="))
    readAttributes cookies kvs

/-- An attribute that is printed where it is not empty. -/
def attributeString (name value : Bytes) : Bytes := if value = [] then [] else name ++ value

/-- `set_cookie_to_string`. -/
def setCookieToString (cookies : HnwSetCookie) : Bytes :=
  cookies.value.key ++ ascii "=" ++ cookies.value.value ++
    attributeString (ascii "; Domain=") cookies.domain ++
    attributeString (ascii "; Path=") cookies.path ++
    attributeString (ascii "; Expires=") cookies.expires ++
    if cookies.isSecure then [] else ascii "; HttpOnly"

/-- `set_setcookie`. -/
def setSetcookie (head : σ) (cookie : HnwSetCookie) : σ :=
  addHead head httpSetCookie (setCookieToString cookie)

/-- `get_setcookies`. -/
def getSetcookies (head : σ) : Except CookieFault (List HnwSetCookie) :=
  (getHeads head httpSetCookie).mapM fun str => setCookieFromString str {}

/-- The loop of `get_setcookie`. -/
def findSetcookie (name : Bytes) : List Bytes → Except CookieFault (Option HnwSetCookie)
  | [] => pure none
  | str :: strs => do
    let s ← setCookieFromString str {}
    if s.value.key = name then pure (some s) else findSetcookie name strs

/-- `get_setcookie`: the cookie it finds, `none` where it returns false. -/
def getSetcookie (head : σ) (name : Bytes) : Except CookieFault (Option HnwSetCookie) :=
  findSetcookie name (getHeads head httpSetCookie)

/-- The loop of `del_setcookie` at an iterator, for so many rounds: what it returns and the head it
leaves. No round moves the iterator. -/
def delSetcookieLoop [ErasesAt σ] (head : σ) (name : Bytes) (p : Nat) :
    Nat → Option (Except CookieFault (Bool × σ))
  | 0 => none
  | rounds + 1 =>
    match (toList head)[p]? with
    | none => some (.ok (false, head))
    | some entry =>
      match setCookieFromString entry.2 {} with
      | .error fault => some (.error fault)
      | .ok s =>
        if s.value.key = name then some (.ok (true, eraseAt head p))
        else delSetcookieLoop head name p rounds

/-- `del_setcookie` comes to an end, after some number of rounds. -/
def DelSetcookie [ErasesAt σ] (head : σ) (name : Bytes) (result : Except CookieFault (Bool × σ)) :
    Prop :=
  ∃ rounds, delSetcookieLoop head name ((toList head).findIdx (·.1 = httpSetCookie)) rounds =
    some result

end Hnw.Http
