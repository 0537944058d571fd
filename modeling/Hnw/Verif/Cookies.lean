import Mathlib.Data.List.Induction
import Hnw.Verif.SetCookie

/-!
# Cookies that are printed and read again

The `Cookie` header ends with a separator, behind which the parser reads one more cookie: an empty
one, which the next call prints like any other. The attributes of a `Set-Cookie` header are printed
with a blank in front, and looked for without it.
-/

namespace Hnw.Http

open Hnw.Util Hnw.Util.UnorderedMultimap Hnw.Theory

/-- A text without the separators of cookies. -/
def CookieText (text : Bytes) : Prop := semicolon ∉ text ∧ equals ∉ text

instance (text : Bytes) : Decidable (CookieText text) :=
  inferInstanceAs (Decidable (semicolon ∉ text ∧ equals ∉ text))

/-! ## The cookies of a server -/

/-- A piece that begins with a blank is no attribute. -/
theorem setAttribute_blank (cookies : HnwSetCookie) (name : Bytes) (more : List Bytes) :
    setAttribute cookies ((blank :: name) :: more) = .ok cookies := by
  have other : ∀ letter rest, letter ≠ blank → blank :: name ≠ letter :: rest := by
    intro letter rest different same
    rw [List.cons.injEq] at same
    exact different same.1.symm
  have expires : blank :: name ≠ ascii "Expires" := other 69 _ (by decide)
  have path : blank :: name ≠ ascii "Path" := other 80 _ (by decide)
  have domain : blank :: name ≠ ascii "Domain" := other 68 _ (by decide)
  have httpOnly : blank :: name ≠ ascii "HttpOnly" := other 72 _ (by decide)
  simp only [setAttribute, index, List.getElem?_cons_zero, bind, Except.bind, pure, Except.pure,
    if_neg expires, if_neg path, if_neg domain, if_neg httpOnly]

/-- Pieces that begin with a blank change nothing, as far as `split` gets through them. -/
theorem readAttributes_blank (cookies : HnwSetCookie) {kvs : List Bytes}
    (blanks : ∀ kv ∈ kvs, ∃ rest, kv = blank :: rest) :
    readAttributes cookies kvs =
      if ∀ kv ∈ kvs, BytesNear equals kv then .ok cookies else .error .throws := by
  induction kvs with
  | nil => rw [if_pos (by simp)]; rfl
  | cons kv kvs ih =>
    have later := ih fun other member => blanks other (by simp [member])
    rw [readAttributes_cons]
    by_cases near : BytesNear equals kv
    · obtain ⟨rest, rfl⟩ := blanks kv (by simp)
      have first : (cutFirst equals (blank :: rest)).1 =
          blank :: (cutFirst equals rest).1 := by
        rw [cutFirst, cutFirst, List.takeWhile_cons_of_pos (by decide)]
      rw [if_pos near, head_splitOn equals (blank :: rest), first, setAttribute_blank]
      show readAttributes cookies kvs = _
      rw [later]
      simp only [List.forall_mem_cons, near, true_and]
    · rw [if_neg near, if_neg fun all => near (all kv (by simp))]

/-- A printed attribute without its separator. -/
def attributePiece (name value : Bytes) : List Bytes :=
  if value = [] then [] else [blank :: (name ++ equals :: value)]

/-- The printed attributes of a cookie. -/
def printedPieces (cookies : HnwSetCookie) : List Bytes :=
  attributePiece (ascii "Domain") cookies.domain ++ attributePiece (ascii "Path") cookies.path ++
    attributePiece (ascii "Expires") cookies.expires ++
    if cookies.isSecure then [] else [ascii " HttpOnly"]

/-- What is printed is the cookie and its attributes, each behind a separator. -/
theorem setCookieToString_eq (cookies : HnwSetCookie) :
    setCookieToString cookies = (cookies.value.key ++ equals :: cookies.value.value) ++
      (printedPieces cookies).flatMap (semicolon :: ·) := by
  have printed : ∀ (name : String) (value : Bytes),
      ascii ("; " ++ name ++ "=") = semicolon :: blank :: (ascii name ++ [equals]) →
      attributeString (ascii ("; " ++ name ++ "=")) value =
        (attributePiece (ascii name) value).flatMap (semicolon :: ·) := by
    intro name value text
    rw [attributeString, attributePiece, text]
    split
    · rfl
    · simp
  have domain := printed "Domain" cookies.domain (by decide)
  have path := printed "Path" cookies.path (by decide)
  have expires := printed "Expires" cookies.expires (by decide)
  have flag : (if cookies.isSecure then [] else ascii "; HttpOnly") =
      (if cookies.isSecure then [] else [ascii " HttpOnly"]).flatMap (semicolon :: ·) := by
    split
    · rfl
    · decide
  rw [setCookieToString, printedPieces, flag]
  show _ ++ attributeString (ascii ("; " ++ "Domain" ++ "=")) cookies.domain ++
    attributeString (ascii ("; " ++ "Path" ++ "=")) cookies.path ++
    attributeString (ascii ("; " ++ "Expires" ++ "=")) cookies.expires ++ _ = _
  rw [domain, path, expires]
  simp only [List.flatMap_append, List.append_assoc]
  rfl

/-- A cookie that may be set: a key, and no separator in any text. -/
structure CleanSetCookie (cookies : HnwSetCookie) : Prop where
  /-- There is a key. -/
  some_ : cookies.value.key ≠ []
  /-- The key. -/
  key : CookieText cookies.value.key
  /-- The value. -/
  value : CookieText cookies.value.value
  /-- The domain. -/
  domain : CookieText cookies.domain
  /-- The path. -/
  path : CookieText cookies.path
  /-- The time of its end. -/
  expires : CookieText cookies.expires

/-- A printed attribute begins with a blank and holds no separator. -/
theorem mem_attributePiece {name value piece : Bytes} (member : piece ∈ attributePiece name value)
    (nameFree : semicolon ∉ name) (valueFree : CookieText value) :
    (∃ rest, piece = blank :: rest) ∧ semicolon ∉ piece := by
  rw [attributePiece] at member
  split at member
  · cases member
  · rw [List.mem_singleton] at member
    subst member
    have marks : semicolon ≠ blank ∧ semicolon ≠ equals := by decide
    refine ⟨⟨_, rfl⟩, ?_⟩
    simp only [List.mem_cons, List.mem_append, not_or]
    exact ⟨marks.1, nameFree, marks.2, valueFree.1⟩

/-- The printed attributes of a cookie begin with blanks and hold no separators. -/
theorem mem_printedPieces {cookies : HnwSetCookie} (clean : CleanSetCookie cookies) {piece : Bytes}
    (member : piece ∈ printedPieces cookies) :
    (∃ rest, piece = blank :: rest) ∧ semicolon ∉ piece := by
  simp only [printedPieces, List.mem_append] at member
  rcases member with ((domain | path) | expires) | flag
  · exact mem_attributePiece domain (by decide) clean.domain
  · exact mem_attributePiece path (by decide) clean.path
  · exact mem_attributePiece expires (by decide) clean.expires
  · split at flag
    · cases flag
    · rw [List.mem_singleton] at flag
      subst flag
      exact ⟨⟨_, rfl⟩, by decide⟩

/-- A printed cookie holds no separator of cookies. -/
theorem printedValue_free {cookies : HnwSetCookie} (clean : CleanSetCookie cookies) :
    semicolon ∉ cookies.value.key ++ equals :: cookies.value.value :=
  not_mem_around clean.key.1 (by decide) clean.value.1

/-- A printed cookie is cut into what was printed. -/
theorem splitOn_setCookieToString {cookies : HnwSetCookie} (clean : CleanSetCookie cookies) :
    (setCookieToString cookies).splitOn semicolon =
      (cookies.value.key ++ equals :: cookies.value.value) :: printedPieces cookies := by
  rw [setCookieToString_eq]
  apply splitOn_prefixed
  intro piece member
  rcases List.mem_cons.mp member with rfl | attribute_
  · exact printedValue_free clean
  · exact (mem_printedPieces clean attribute_).2

/-- The name, the value and the pieces of attributes of a printed cookie are its own. -/
theorem printed_parts {cookies : HnwSetCookie} (clean : CleanSetCookie cookies) :
    cookieName (setCookieToString cookies) = cookies.value.key ∧
      cookieValue (setCookieToString cookies) = some cookies.value.value ∧
      attributePieces (setCookieToString cookies) = printedPieces cookies := by
  have pieces := splitOn_setCookieToString clean
  have front := head_splitOn semicolon (setCookieToString cookies)
  rw [pieces, List.cons.injEq] at front
  refine ⟨?_, ?_, ?_⟩
  · rw [cookieName, ← front.1, cutFirst_append clean.key.2]
  · rw [cookieValue, ← front.1, List.splitOn_append_cons_self_of_not_mem clean.key.2,
      List.splitOn_eq_singleton clean.value.2]
    rfl
  · rw [attributePieces, pieces, List.tail_cons]

/-- What is read of a printed cookie is its key and its value, and nothing else. -/
theorem setCookieFromString_printed {cookies s : HnwSetCookie} (clean : CleanSetCookie cookies)
    (read : setCookieFromString (setCookieToString cookies) {} = .ok s) :
    s = { value := cookies.value } ∧ BytesNear semicolon (setCookieToString cookies) := by
  obtain ⟨name, value, pieces⟩ := printed_parts clean
  have reads : ReadsValue (setCookieToString cookies) := by
    by_contra far
    rw [setCookieFromString_throws far] at read
    cases read
  rw [setCookieFromString_reads reads, pieces,
    readAttributes_blank _ fun kv member => (mem_printedPieces clean member).1] at read
  split at read
  · rw [name, value, Except.ok.injEq] at read
    exact ⟨read.symm, reads.1⟩
  · cases read

/-- A short cookie without attributes is read back. -/
theorem setCookieFromString_plain {key value : Bytes}
    (clean : CleanSetCookie { value := ⟨key, value⟩ })
    (short : key.length + value.length + 2 < 2 ^ 31) :
    setCookieFromString (setCookieToString { value := ⟨key, value⟩ }) {} =
      .ok { value := ⟨key, value⟩ } := by
  obtain ⟨name, valueRead, pieces⟩ := printed_parts clean
  have text : setCookieToString { value := ⟨key, value⟩ } =
      (key ++ equals :: value) ++ semicolon :: ascii " HttpOnly" := setCookieToString_eq _
  have free : semicolon ∉ key ++ equals :: value := printedValue_free clean
  have length : (key ++ equals :: value).length = key.length + value.length + 1 := by
    simp only [List.length_append, List.length_cons]
    omega
  have flagFree : semicolon ∉ ascii " HttpOnly" ∧ equals ∉ ascii " HttpOnly" := by decide
  have reads : ReadsValue (setCookieToString { value := ⟨key, value⟩ }) := by
    rw [ReadsValue, text, cutFirst_append free]
    constructor
    · exact (bytesNear_pair free flagFree.1).mpr (by omega)
    · have keyShort : key.length + 1 < 2 ^ 31 := by omega
      exact (bytesNear_pair clean.key.2 clean.value.2).mpr keyShort
  have flag : printedPieces { value := ⟨key, value⟩ } = [ascii " HttpOnly"] := rfl
  rw [setCookieFromString_reads reads, name, valueRead, pieces, flag,
    readAttributes_blank _ (by simp; exact ⟨_, rfl⟩), if_pos]
  · rfl
  · intro kv member
    rw [List.mem_singleton.mp member]
    exact bytesNear_of_free flagFree.2

variable {σ : Type} [UnorderedMultimap σ]

/-- `get_setcookie` gives back what `set_setcookie` was given: key, value, domain, path, expires
and `is_secure`. -/
def SetCookieRoundTrips (head : σ) (cookies : HnwSetCookie) : Prop :=
  getSetcookie (setSetcookie head cookies) cookies.value.key = .ok (some cookies)

/-- The one `Set-Cookie` header of a head is the text that is searched. -/
theorem getSetcookie_set {head : σ} (nothing : toList head = []) (cookies : HnwSetCookie)
    (name : Bytes) : getSetcookie (setSetcookie head cookies) name =
      findSetcookie name [setCookieToString cookies] := by
  have one : toList (setSetcookie head cookies) = [(httpSetCookie, setCookieToString cookies)] := by
    have added := toList_insert head (httpSetCookie, setCookieToString cookies)
    rw [nothing] at added
    exact List.perm_singleton.mp added
  rw [getSetcookie, getHeads, one, List.dropWhile_cons_of_neg (by simp)]
  rfl

/-- A cookie that may be set comes back exactly where it has no attribute, is not secure, and is
short enough for `split`. -/
theorem setCookieRoundTrips_iff {head : σ} (nothing : toList head = []) {cookies : HnwSetCookie}
    (clean : CleanSetCookie cookies) :
    SetCookieRoundTrips head cookies ↔
      cookies.domain = [] ∧ cookies.path = [] ∧ cookies.expires = [] ∧ cookies.isSecure = false ∧
        cookies.value.key.length + cookies.value.value.length + 2 < 2 ^ 31 := by
  rw [SetCookieRoundTrips, getSetcookie_set nothing]
  constructor
  · intro found
    cases read : setCookieFromString (setCookieToString cookies) {} with
    | error fault =>
      simp only [findSetcookie, read, bind, Except.bind] at found
      cases found
    | ok s =>
      obtain ⟨plain, near⟩ := setCookieFromString_printed clean read
      simp only [findSetcookie, read, bind, Except.bind, pure, Except.pure] at found
      split at found
      · rw [Except.ok.injEq, Option.some.injEq] at found
        rw [← found, plain]
        have same : cookies = { value := cookies.value } := found.symm.trans plain
        rw [same, setCookieToString_eq] at near
        have short := BytesNear.front_short near
        rw [List.length_append, List.length_cons] at short
        exact ⟨rfl, rfl, rfl, rfl, by omega⟩
      · cases found
  · rintro ⟨domain, path, expires, secure, short⟩
    obtain ⟨⟨key, value⟩, _, _, _, _⟩ := cookies
    dsimp only at domain path expires secure short
    subst domain path expires secure
    have read := setCookieFromString_plain clean short
    simp only [findSetcookie, read, bind, Except.bind, pure, Except.pure, if_true]

/-- A cookie without attributes comes back. -/
theorem setCookieRoundTrips_plain :
    SetCookieRoundTrips (empty : ListMultimap) { value := ⟨ascii "k1", ascii "v1"⟩ } := by
  have clean : CleanSetCookie { value := ⟨ascii "k1", ascii "v1"⟩ } :=
    ⟨by decide, by decide, by decide, by decide, by decide, by decide⟩
  exact (setCookieRoundTrips_iff rfl clean).mpr (by decide)

/-- The attributes of a cookie are lost. -/
theorem setCookie_loses_attributes :
    ¬ ∀ (head : ListMultimap) (cookies : HnwSetCookie), toList head = [] →
      CleanSetCookie cookies → SetCookieRoundTrips head cookies := by
  intro always
  let cookies : HnwSetCookie :=
    { value := ⟨ascii "k1", ascii "v1"⟩, domain := ascii "127.0.0.1", path := ascii "/",
      expires := ascii "-1" }
  have clean : CleanSetCookie cookies :=
    ⟨by decide, by decide, by decide, by decide, by decide, by decide⟩
  have found : SetCookieRoundTrips (empty : ListMultimap) cookies := always empty cookies rfl clean
  have lost : getSetcookie (setSetcookie (empty : ListMultimap) cookies) cookies.value.key =
      .ok (some { value := cookies.value }) := by decide +kernel
  rw [SetCookieRoundTrips, lost, Except.ok.injEq, Option.some.injEq] at found
  exact absurd (congrArg HnwSetCookie.path found) (by decide)

/-! ## The cookies of a client -/

/-- A call that changes the cookies of a client. -/
inductive JarCall where
  /-- `set_cookie`. -/
  | setCookie (cookie : HnwCookie)
  /-- `del_cookie`. -/
  | delCookie (name : Bytes)
deriving DecidableEq

namespace JarCall

/-- What a call makes of the cookies that were set and not deleted. -/
def keeps (old : List HnwCookie) : JarCall → List HnwCookie
  | .setCookie cookie => old ++ [cookie]
  | .delCookie name => old.filter (·.key ≠ name)

/-- The cookies set and not since deleted by name, in the order they were set. -/
def kept (calls : List JarCall) : List HnwCookie := calls.foldl keeps []

/-- A cookie that is set has a key, and holds no separator. -/
def Clean : JarCall → Prop
  | .setCookie cookie => cookie.key ≠ [] ∧ CookieText cookie.key ∧ CookieText cookie.value
  | .delCookie _ => True

/-- A call on a head; `none` where it throws. -/
def apply (head : σ) : JarCall → Option σ
  | .setCookie cookie => Http.setCookie head cookie
  | .delCookie name => Http.delCookie head name

/-- Calls on a head. -/
def run (head : σ) (calls : List JarCall) : Option σ := calls.foldlM apply head

end JarCall

/-- After calls on a head the cookies are those that were set and not deleted. A `del_cookie` is
one of the calls, so that it takes all cookies of its name and no other. -/
structure KeepsCookies (head : σ) (calls : List JarCall) (jar : σ) : Prop where
  /-- The calls come to an end. -/
  runs : JarCall.run head calls = some jar
  /-- `get_cookies` gives them in order, and nothing else. -/
  cookies : getCookies jar = some (JarCall.kept calls)
  /-- `get_cookie` finds one exactly where one of the name is left. -/
  finds : ∀ name, ∃ found, getCookie jar name = some found ∧
    (found.isSome ↔ ∃ cookie ∈ JarCall.kept calls, cookie.key = name)

/-- Every cookie that is kept has a key. -/
theorem kept_key {calls : List JarCall} (clean : ∀ call ∈ calls, call.Clean) :
    ∀ cookie ∈ JarCall.kept calls, cookie.key ≠ [] := by
  have keeps : ∀ old : List HnwCookie, (∀ cookie ∈ old, cookie.key ≠ []) →
      ∀ cookie ∈ calls.foldl JarCall.keeps old, cookie.key ≠ [] := by
    induction calls with
    | nil => exact fun _ keys => keys
    | cons call calls ih =>
      intro old keys
      apply ih fun other member => clean other (by simp [member])
      intro cookie member
      have this := clean call (by simp)
      cases call with
      | setCookie set =>
        rcases List.mem_append.mp member with before | here
        · exact keys cookie before
        · rw [List.mem_singleton.mp here]
          exact this.1
      | delCookie name => exact keys cookie (List.mem_filter.mp member).1
  exact keeps [] (by simp)

/-- What a call leaves are printed cookies. -/
theorem apply_stores {head jar : σ} {call : JarCall} (applied : call.apply head = some jar) :
    ∃ data, jar = storeCookies head data := by
  cases call with
  | setCookie cookie =>
    obtain ⟨data, _, rfl⟩ := Option.map_eq_some_iff.mp applied
    exact ⟨_, rfl⟩
  | delCookie name =>
    obtain ⟨data, _, rfl⟩ := Option.map_eq_some_iff.mp applied
    exact ⟨_, rfl⟩

/-- What calls leave are printed cookies, where there is a call. -/
theorem run_stores {head jar : σ} {calls : List JarCall} (some_ : calls ≠ [])
    (ran : JarCall.run head calls = some jar) : ∃ before data, jar = storeCookies before data := by
  induction calls generalizing head with
  | nil => exact absurd rfl some_
  | cons call calls ih =>
    rw [JarCall.run, List.foldlM_cons] at ran
    obtain ⟨next, applied, rest⟩ := Option.bind_eq_some_iff.mp ran
    by_cases last : calls = []
    · subst last
      obtain ⟨data, stored⟩ := apply_stores applied
      cases rest
      exact ⟨head, data, stored⟩
    · exact ih last rest

/-- Behind the last separator of printed cookies an empty cookie is read. -/
theorem cookieFromString_printed {data cookies : List HnwCookie}
    (read : cookieFromString (cookieToString data) = some cookies) : {} ∈ cookies := by
  obtain ⟨kvs, cut, mapped⟩ := Option.bind_eq_some_iff.mp read
  have pieces : [] ∈ (cookieToString data).splitOn semicolon := by
    rcases List.eq_nil_or_concat data with rfl | ⟨front, last, rfl⟩
    · simp [cookieToString]
    · have text : cookieToString (front ++ [last]) =
          (cookieToString front ++ (last.key ++ ascii "=" ++ last.value)) ++ semicolon :: [] := by
        rw [cookieToString, List.flatMap_append, List.flatMap_singleton]
        simp only [cookieToString, List.append_assoc]
        rfl
      rw [List.concat_eq_append, text, List.splitOn_append_cons_self]
      simp
  have whole : split (cookieToString data) [semicolon] = some kvs := cut
  rw [split_byte] at whole
  split at whole
  · rw [Option.some.injEq] at whole
    rw [whole] at pieces
    obtain ⟨cookie, member, made⟩ := mem_of_mapM mapped pieces
    have empty_ : readCookie [] = some {} := by decide
    rw [empty_, Option.some.injEq] at made
    rwa [made]
  · cases whole

/-- The printed cookies of a head are read with an empty one among them. -/
theorem getCookies_stored {head : σ} {data cookies : List HnwCookie}
    (got : getCookies (storeCookies head data) = some cookies) : {} ∈ cookies := by
  obtain ⟨behind, first⟩ :=
    getHeads_first (storedValues_replace head httpCookie (cookieToString data))
  rw [getCookies, storeCookies, first, List.mapM_cons] at got
  obtain ⟨lists, mapped, joined⟩ := Option.bind_eq_some_iff.mp got
  obtain ⟨here, read, mapped⟩ := Option.bind_eq_some_iff.mp mapped
  obtain ⟨later, _, made⟩ := Option.bind_eq_some_iff.mp mapped
  cases made
  cases joined
  exact List.mem_append_left _ (cookieFromString_printed read)

/-- The cookies of a client are right as long as there was no call, and not behind any. -/
theorem keepsCookies_iff {head : σ} (absent : getHeadCount head httpCookie = 0)
    {calls : List JarCall} (clean : ∀ call ∈ calls, call.Clean) :
    (∃ jar, KeepsCookies head calls jar) ↔ calls = [] := by
  constructor
  · rintro ⟨jar, keeps⟩
    by_contra some_
    obtain ⟨before, data, rfl⟩ := run_stores some_ keeps.runs
    have empty_ := getCookies_stored keeps.cookies
    exact kept_key clean {} empty_ rfl
  · rintro rfl
    have nothing : getHeads head httpCookie = [] := by
      rw [getHeads, List.dropWhile_eq_nil_iff.mpr, List.map_nil]
      intro entry member
      simpa using count_eq_zero.mp absent entry member
    have none : getCookies head = some [] := by
      rw [getCookies, nothing]
      rfl
    refine ⟨head, rfl, none, fun name => ⟨.none, ?_, ?_⟩⟩
    · rw [getCookie, none]
      rfl
    · simp [JarCall.kept]

/-- A head with another header, and no call. -/
theorem keepsCookies_noCall :
    ∃ jar, KeepsCookies (addHead empty (ascii "Host") (ascii "h") : ListMultimap) [] jar :=
  (keepsCookies_iff (by decide) (by simp)).mpr rfl

/-- One cookie is set, and two are there. -/
theorem setCookie_adds_empty :
    ¬ ∀ (head : ListMultimap) (calls : List JarCall), getHeadCount head httpCookie = 0 →
      (∀ call ∈ calls, call.Clean) → ∃ jar, KeepsCookies head calls jar := by
  intro always
  let call : JarCall := .setCookie ⟨ascii "a", ascii "1"⟩
  have clean : ∀ other ∈ [call], other.Clean := by
    intro other member
    rw [List.mem_singleton.mp member]
    exact ⟨by decide, by decide, by decide⟩
  obtain ⟨jar, keeps⟩ := always empty [call] rfl clean
  have ran : (JarCall.run (empty : ListMultimap) [call]).bind getCookies =
      some [⟨ascii "a", ascii "1"⟩, {}] := by decide +kernel
  rw [keeps.runs, Option.bind_some, keeps.cookies] at ran
  exact absurd ran (by decide)

/-! ### All but the empty cookies -/

/-- The text of a cookie in front of its separator. -/
def cookiePiece (cookie : HnwCookie) : Bytes := cookie.key ++ equals :: cookie.value

/-- Cookies without separators. -/
def CookieTexts (data : List HnwCookie) : Prop :=
  ∀ cookie ∈ data, CookieText cookie.key ∧ CookieText cookie.value

/-- A printed cookie that is read comes back. -/
theorem readCookie_piece {cookie read : HnwCookie} (key : CookieText cookie.key)
    (value : CookieText cookie.value) (found : readCookie (cookiePiece cookie) = some read) :
    read = cookie := by
  have cut : split (cookiePiece cookie) (ascii "=") =
      if BytesNear equals (cookiePiece cookie) then some [cookie.key, cookie.value] else none := by
    have whole := split_byte (cookiePiece cookie) equals
    rwa [cookiePiece, List.splitOn_append_cons_self_of_not_mem key.2,
      List.splitOn_eq_singleton value.2] at whole
  rw [readCookie, cut] at found
  split at found
  · exact (Option.some.inj found).symm
  · cases found

/-- Printed cookies that are read come back, with an empty one behind them. -/
theorem cookieFromString_texts {data cookies : List HnwCookie} (texts : CookieTexts data)
    (read : cookieFromString (cookieToString data) = some cookies) :
    cookies = data ++ [({} : HnwCookie)] := by
  have printed : cookieToString data = (data.map cookiePiece).flatMap (· ++ [semicolon]) := by
    rw [List.flatMap_map, cookieToString]
    congr 1
    funext cookie
    simp only [cookiePiece, List.append_assoc]
    rfl
  have free : ∀ piece ∈ data.map cookiePiece, semicolon ∉ piece := by
    intro piece member
    obtain ⟨cookie, inside, rfl⟩ := List.mem_map.mp member
    have clean := texts cookie inside
    exact not_mem_around clean.1.1 (by decide) clean.2.1
  obtain ⟨kvs, cut, mapped⟩ := Option.bind_eq_some_iff.mp read
  have whole : split (cookieToString data) [semicolon] = some kvs := cut
  rw [split_byte] at whole
  split at whole
  · rw [printed, splitOn_terminated free, Option.some.injEq] at whole
    rw [← whole, List.mapM_append] at mapped
    obtain ⟨front, first, mapped⟩ := Option.bind_eq_some_iff.mp mapped
    obtain ⟨last, empty_, joined⟩ := Option.bind_eq_some_iff.mp mapped
    have same : front = data := mapM_printed
      (fun cookie inside y found =>
        readCookie_piece (texts cookie inside).1 (texts cookie inside).2 found) first
    have only : last = [({} : HnwCookie)] := by
      have made : [([] : Bytes)].mapM readCookie = some [({} : HnwCookie)] := by decide
      rw [made, Option.some.injEq] at empty_
      exact empty_.symm
    rw [same, only] at joined
    exact (Option.some.inj joined).symm
  · cases whole

/-- What the `Cookie` header of a head holds: apart from empty ones these cookies. -/
def Holds (head : σ) (cookies : List HnwCookie) : Prop :=
  (storedValues head httpCookie = [] ∧ cookies = []) ∨
    ∃ data, storedValues head httpCookie = [cookieToString data] ∧ CookieTexts data ∧
      data.filter (·.key ≠ []) = cookies

/-- Where nothing stands behind the header, `get_cookies` gives the cookies and empty ones. -/
theorem Holds.getCookies {head : σ} {cookies found : List HnwCookie} (holds : Holds head cookies)
    (nothing : NothingBehind head httpCookie) (got : getCookies head = some found) :
    CookieTexts found ∧ found.filter (·.key ≠ []) = cookies := by
  rw [Http.getCookies, getHeads_eq nothing] at got
  obtain ⟨lists, mapped, joined⟩ := Option.bind_eq_some_iff.mp got
  rcases holds with ⟨none, rfl⟩ | ⟨data, one, texts, rfl⟩
  · rw [none] at mapped
    cases mapped
    cases joined
    exact ⟨fun cookie member => (nomatch member), rfl⟩
  · rw [one, List.mapM_cons] at mapped
    obtain ⟨here, read, mapped⟩ := Option.bind_eq_some_iff.mp mapped
    cases mapped
    cases joined
    rw [List.reverse_nil, List.flatten_singleton, cookieFromString_texts texts read]
    refine ⟨fun cookie member => ?_, by simp⟩
    rcases List.mem_append.mp member with inside | last
    · exact texts cookie inside
    · rw [List.mem_singleton.mp last]
      decide

/-- A call keeps what the header holds in step with the cookies that are kept. -/
theorem Holds.apply {head next : σ} {cookies : List HnwCookie} (holds : Holds head cookies)
    (nothing : NothingBehind head httpCookie) {call : JarCall} (clean : call.Clean)
    (applied : call.apply head = some next) : Holds next (call.keeps cookies) := by
  right
  cases call with
  | setCookie cookie =>
    obtain ⟨found, got, rfl⟩ := Option.map_eq_some_iff.mp applied
    obtain ⟨texts, same⟩ := holds.getCookies nothing got
    refine ⟨found ++ [cookie], storedValues_replace _ _ _, ?_, ?_⟩
    · intro other member
      rcases List.mem_append.mp member with before | here
      · exact texts other before
      · rw [List.mem_singleton.mp here]
        exact clean.2
    · rw [List.filter_append, same, List.filter_cons_of_pos (by simpa using clean.1)]
      rfl
  | delCookie name =>
    obtain ⟨found, got, rfl⟩ := Option.map_eq_some_iff.mp applied
    obtain ⟨texts, same⟩ := holds.getCookies nothing got
    refine ⟨found.filter (·.key ≠ name), storedValues_replace _ _ _, ?_, ?_⟩
    · exact fun other member => texts other (List.mem_filter.mp member).1
    · rw [JarCall.keeps, ← same, List.filter_filter, List.filter_filter]
      congr 1
      funext cookie
      exact Bool.and_comm _ _

/-- Apart from empty cookies `get_cookies` gives what was set and not deleted, as long as nothing
stands behind the `Cookie` header before any call. -/
theorem getCookies_exceptEmpty {head jar : σ} (absent : getHeadCount head httpCookie = 0)
    {calls : List JarCall} (clean : ∀ call ∈ calls, call.Clean)
    (nothing : ∀ front mid, front <+: calls → JarCall.run head front = some mid →
      NothingBehind mid httpCookie)
    (ran : JarCall.run head calls = some jar) {found : List HnwCookie}
    (got : getCookies jar = some found) :
    found.filter (·.key ≠ []) = JarCall.kept calls := by
  have values : storedValues head httpCookie = [] := by
    rw [storedValues, List.filter_eq_nil_iff.mpr, List.map_nil]
    intro entry member
    simpa using count_eq_zero.mp absent entry member
  have holds : Holds jar (JarCall.kept calls) := by
    clear got
    induction calls using List.reverseRecOn generalizing jar with
    | nil =>
      cases ran
      exact .inl ⟨values, rfl⟩
    | append_singleton calls call ih =>
      rw [JarCall.run, List.foldlM_append] at ran
      obtain ⟨mid, before, last⟩ := Option.bind_eq_some_iff.mp ran
      rw [List.foldlM_cons] at last
      obtain ⟨next, applied, done⟩ := Option.bind_eq_some_iff.mp last
      cases done
      have held := ih (fun other member => clean other (by simp [member]))
        (fun front mid part => nothing front mid (part.trans (List.prefix_append _ _))) before
      have kept : JarCall.kept (calls ++ [call]) = call.keeps (JarCall.kept calls) := by
        rw [JarCall.kept, List.foldl_append]
        rfl
      rw [kept]
      exact held.apply (nothing calls mid (List.prefix_append _ _) before)
        (clean call (by simp)) applied
  exact (holds.getCookies (nothing calls jar (List.prefix_refl _) ran) got).2

end Hnw.Http
