import Hnw.Http.Auth
import Hnw.Verif.Base64
import Hnw.Verif.Head
import Hnw.Verif.Split

/-!
# Basic authentication

The name and the password are joined by a colon and encoded. The decoded text is split at every
colon, and the second piece is taken for the password: a password with a colon is cut there, and
the piece in front of it is accepted instead.
-/

namespace Hnw.Http

open Hnw.Util Hnw.Theory

/-- A header of a method and a text behind it. -/
theorem authParts_eq {name data : Bytes} (free : blank ∉ name) (some_ : data ≠ []) :
    authParts (name ++ blank :: data) = some (name, data) := by
  have found : Util.find (name ++ blank :: data) space 0 = some name.length := by
    have place := @find_byte [] name data blank free
    rw [List.length_nil, Nat.zero_add] at place
    exact place
  have size : 0 < data.length := List.length_pos_iff.mpr some_
  have long : ¬ (name ++ blank :: data).length ≤ name.length + 1 := by
    rw [List.length_append, List.length_cons]
    omega
  have behind : (name ++ blank :: data).drop (name.length + 1) = data := by
    rw [← List.drop_drop, List.drop_left]
    rfl
  rw [authParts, found]
  simp only [if_neg long, List.take_left, behind]

/-- An encoded text is decoded and cut at the first two colons. -/
theorem readBasic_encodeBase64 {username password : Bytes} (noColon : colonByte ∉ username)
    (noNul : 0 ∉ username) (noNul' : 0 ∉ password) :
    readBasic (encodeBase64 (username ++ ascii ":" ++ password)) =
      if BytesNear colonByte (username ++ colonByte :: password) then
        some { method := .basicAuth, username, password := (cutFirst colonByte password).1 }
      else none := by
  have text : username ++ ascii ":" ++ password = username ++ colonByte :: password := by
    rw [List.append_assoc]
    rfl
  have free : 0 ∉ username ++ colonByte :: password :=
    not_mem_around noNul (by decide) noNul'
  have cut : split (username ++ colonByte :: password) (ascii ":") = _ := split_front noColon
  rw [readBasic, text, decodeBase64_encodeBase64, (cStr_eq_iff _).mpr free, cut]
  split
  · rfl
  · rfl

variable {σ : Type} [UnorderedMultimap σ]

/-- After a name and a password were set, they are read back, and of all passwords exactly the one
that was set is accepted. -/
def AcceptsExactly (md5 : Bytes → Bytes) (head : σ) (auth : HnwAuthorization)
    (http_method : Bytes) : Prop :=
  let answered := (setAuthorization md5 head auth http_method).1
  (∃ read, getAuthorization answered = some read ∧ read.username = auth.username ∧
      read.password = auth.password) ∧
    ∀ q asked : Bytes, 0 ∉ q →
      (checkAuth md5 answered q asked = some true ↔ q = auth.password)

/-- What is read of the header that `set_authorization` wrote. -/
theorem getAuthorization_basic (md5 : Bytes → Bytes) (head : σ) {auth : HnwAuthorization}
    (http_method : Bytes) (basic : auth.method = .basicAuth) :
    getAuthorization (setAuthorization md5 head auth http_method).1 =
      readBasic (encodeBase64 (auth.username ++ ascii ":" ++ auth.password)) := by
  have some_ : encodeBase64 (auth.username ++ ascii ":" ++ auth.password) ≠ [] := by
    have size := encodeBase64_length (auth.username ++ ascii ":" ++ auth.password)
    have colon : (ascii ":").length = 1 := by decide
    rw [List.length_append, List.length_append, colon] at size
    apply List.length_pos_iff.mp
    omega
  have name : ascii "Basic " = ascii "Basic" ++ [blank] := by decide
  have other : ascii "Basic" ≠ ascii "Digest" := by decide
  have written : (setAuthorization md5 head auth http_method).1 =
      addHead (delHead head httpAuth) httpAuth
        (ascii "Basic" ++ blank :: encodeBase64 (auth.username ++ ascii ":" ++ auth.password)) := by
    simp only [setAuthorization, authorizationText, getAuthInfo, basic, name, List.append_assoc,
      List.cons_append, List.nil_append]
  have parts := authParts_eq (by decide : blank ∉ ascii "Basic") some_
  rw [written, getAuthorization, getHead_replace, parts]
  simp only [if_neg other, if_true]

/-- A password that comes back holds no colon, and `split` got behind the name. -/
theorem AcceptsExactly.plain {md5 : Bytes → Bytes} {head : σ} {auth : HnwAuthorization}
    {http_method : Bytes} (exact_ : AcceptsExactly md5 head auth http_method)
    (basic : auth.method = .basicAuth) (noColon : colonByte ∉ auth.username)
    (noNul : 0 ∉ auth.username ∧ 0 ∉ auth.password) :
    colonByte ∉ auth.password ∧ auth.username.length + 1 < 2 ^ 31 := by
  obtain ⟨read, returned, _, password⟩ := exact_.1
  rw [getAuthorization_basic md5 head http_method basic,
    readBasic_encodeBase64 noColon noNul.1 noNul.2] at returned
  split at returned
  · next near =>
    rw [← Option.some.inj returned] at password
    have free : colonByte ∉ auth.password := by
      rw [← password]
      exact not_mem_cutFirst
    exact ⟨free, near.front_short⟩
  · cases returned

/-- The name and the password come back, and only the password is accepted, just where it holds no
colon and the name is short enough for `split`. -/
theorem acceptsExactly_iff (md5 : Bytes → Bytes) (head : σ) {auth : HnwAuthorization}
    (http_method : Bytes) (basic : auth.method = .basicAuth)
    (noColon : colonByte ∉ auth.username) (noNul : 0 ∉ auth.username ∧ 0 ∉ auth.password) :
    AcceptsExactly md5 head auth http_method ↔
      colonByte ∉ auth.password ∧ auth.username.length + 1 < 2 ^ 31 := by
  constructor
  · exact fun exact_ => exact_.plain basic noColon noNul
  · rintro ⟨free, short⟩
    have got := getAuthorization_basic md5 head http_method basic
    have near := (bytesNear_pair noColon free).mpr short
    rw [readBasic_encodeBase64 noColon noNul.1 noNul.2, if_pos near, cutFirst_free free] at got
    refine ⟨⟨_, got, rfl, rfl⟩, fun q asked plain => ?_⟩
    have whole := (cStr_eq_iff auth.password).mpr noNul.2
    have given := (cStr_eq_iff q).mpr plain
    rw [checkAuth, got, Option.map_some, checkAuthOf]
    simp only [whole, given, Option.some.injEq, decide_eq_true_eq]
    exact eq_comm

/-- A password of one letter comes back, and no other is accepted. -/
theorem acceptsExactly_letter :
    AcceptsExactly id (UnorderedMultimap.empty : ListMultimap)
      { method := .basicAuth, username := [117], password := [112] } (ascii "GET") :=
  (acceptsExactly_iff id _ (ascii "GET") rfl (by decide) (by decide)).mpr (by decide)

/-- The password `a:b` does not come back. -/
theorem colon_not_acceptsExactly :
    let auth : HnwAuthorization :=
      { method := .basicAuth, username := ascii "u", password := ascii "a:b" }
    ¬ AcceptsExactly id (UnorderedMultimap.empty : ListMultimap) auth (ascii "GET") := by
  intro auth exact_
  have plain := exact_.plain rfl (by decide) (by decide)
  exact absurd plain.1 (by decide)

end Hnw.Http
