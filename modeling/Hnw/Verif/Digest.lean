import Hnw.Verif.BasicAuth
import Hnw.Verif.SplitKy

/-!
# Digest authentication

A server's question and a client's answer are printed field by field and read back by `split_ky`.
Fields that are plain come back, and the answer is then accepted; a field that is not does not
come back.
-/

namespace Hnw.Http

open Hnw.Util Hnw.Theory

/-! ## The printed fields -/

/-- The fields of a server's question but the last. -/
def questionFields (auth : HnwWWWAuthenticate) : List Field :=
  [⟨ascii "realm", auth.realm, true⟩, ⟨ascii "qop", auth.qop, true⟩,
    ⟨ascii "nonce", auth.nonce, true⟩]

/-- The last field of a server's question. -/
def questionLast (auth : HnwWWWAuthenticate) : Field := ⟨ascii "opaque", auth.opaqueText, true⟩

/-- The fields of a client's answer. -/
def answerFields (auth : HnwAuthorization) (response : Bytes) : List Field :=
  [⟨ascii "username", auth.username, true⟩, ⟨ascii "realm", auth.realm, true⟩,
    ⟨ascii "nonce", auth.nonce, true⟩, ⟨ascii "uri", auth.uri, true⟩,
    ⟨ascii "qop", auth.qop, false⟩, ⟨ascii "nc", auth.nc, false⟩,
    ⟨ascii "cnonce", auth.cnonce, true⟩, ⟨ascii "response", response, true⟩,
    ⟨ascii "opaque", auth.opaqueText, true⟩]

/-- A server's question is its method and its fields. -/
theorem wwwAuthenticateText_digest {auth : HnwWWWAuthenticate}
    (digest : auth.method = .digestAuth) :
    wwwAuthenticateText auth = some (ascii "Digest" ++ blank ::
      (((questionFields auth).flatMap fun field => field.text ++ [comma]) ++
        (questionLast auth).text)) := by
  have first : ascii "Digest realm=\"" =
      ascii "Digest" ++ blank :: (ascii "realm" ++ [equals, doubleQuote]) := by decide
  have qop : ascii "qop=\"" = ascii "qop" ++ [equals, doubleQuote] := by decide
  have nonce : ascii "nonce=\"" = ascii "nonce" ++ [equals, doubleQuote] := by decide
  have last : ascii "opaque=\"" = ascii "opaque" ++ [equals, doubleQuote] := by decide
  have close : ascii "\"" = [doubleQuote] := by decide
  have link : ascii "\"," = [doubleQuote, comma] := by decide
  simp only [wwwAuthenticateText, digest, first, qop, nonce, last, close, link, questionFields,
    questionLast, Field.text, doubleQuote, if_true, List.flatMap_cons, List.flatMap_nil,
    List.append_assoc, List.cons_append, List.nil_append]

/-- A client's answer is its method and its fields. -/
theorem authorizationText_digest (md5 : Bytes → Bytes) {auth : HnwAuthorization}
    (http_method : Bytes) (digest : auth.method = .digestAuth) :
    authorizationText md5 auth http_method = some (ascii "Digest" ++ blank ::
      (answerFields auth (getAuthInfo md5 auth http_method)).flatMap fun field =>
        field.text ++ [comma]) := by
  have first : ascii "Digest username=\"" =
      ascii "Digest" ++ blank :: (ascii "username" ++ [equals, doubleQuote]) := by decide
  have realm : ascii "realm=\"" = ascii "realm" ++ [equals, doubleQuote] := by decide
  have nonce : ascii "nonce=\"" = ascii "nonce" ++ [equals, doubleQuote] := by decide
  have uri : ascii "uri=\"" = ascii "uri" ++ [equals, doubleQuote] := by decide
  have qop : ascii "qop=" = ascii "qop" ++ [equals] := by decide
  have nc : ascii "nc=" = ascii "nc" ++ [equals] := by decide
  have cnonce : ascii "cnonce=\"" = ascii "cnonce" ++ [equals, doubleQuote] := by decide
  have response : ascii "response=\"" = ascii "response" ++ [equals, doubleQuote] := by decide
  have last : ascii "opaque=\"" = ascii "opaque" ++ [equals, doubleQuote] := by decide
  have link : ascii "\"," = [doubleQuote, comma] := by decide
  have separator : ascii "," = [comma] := by decide
  simp only [authorizationText, digest, first, realm, nonce, uri, qop, nc, cnonce, response, last,
    link, separator, answerFields, Field.text, doubleQuote, if_true, Bool.false_eq_true, if_false,
    List.flatMap_cons, List.flatMap_nil, List.append_assoc, List.cons_append, List.nil_append]

/-! ## Reading the question -/

/-- The printed fields of a question. -/
def questionText (auth : HnwWWWAuthenticate) : Bytes :=
  ((questionFields auth).flatMap fun field => field.text ++ [comma]) ++ (questionLast auth).text

/-- The keys of a question. -/
def questionKeys : List Bytes := [ascii "realm", ascii "qop", ascii "nonce", ascii "opaque"]

/-- The keys of a question are plain, and each is another. -/
theorem questionKeys_plain :
    (∀ key ∈ questionKeys, Plain key ∧ equals ∉ key) ∧ questionKeys.Nodup := by decide

variable {σ : Type} [UnorderedMultimap σ]

/-- What is read of the header that `set_www_authenticate` wrote. -/
theorem getWwwAuthenticate_digest (head : σ) {auth : HnwWWWAuthenticate}
    (digest : auth.method = .digestAuth) :
    getWwwAuthenticate (setWwwAuthenticate head auth).1 =
      { method := .digestAuth
        realm := getValueForMap (splitKy (questionText auth)) (ascii "realm")
        nonce := getValueForMap (splitKy (questionText auth)) (ascii "nonce")
        opaqueText := getValueForMap (splitKy (questionText auth)) (ascii "opaque")
        qop := getValueForMap (splitKy (questionText auth)) (ascii "qop") } := by
  have some_ : questionText auth ≠ [] := by
    rw [questionText, Field.text]
    simp
  have parts := authParts_eq (by decide : blank ∉ ascii "Digest") some_
  have written : (setWwwAuthenticate head auth).1 = addHead (delHead head httpWwwAuth) httpWwwAuth
      (ascii "Digest" ++ blank :: questionText auth) := by
    rw [setWwwAuthenticate, wwwAuthenticateText_digest digest, questionText]
  rw [written, getWwwAuthenticate, getHead_replace, parts]
  simp only [if_true]

/-- The fields of a question come back just where they are plain. -/
theorem getWwwAuthenticate_iff (head : σ) {auth : HnwWWWAuthenticate}
    (digest : auth.method = .digestAuth) :
    getWwwAuthenticate (setWwwAuthenticate head auth).1 = auth ↔
      Plain auth.realm ∧ Plain auth.nonce ∧ Plain auth.opaqueText ∧ Plain auth.qop := by
  rw [getWwwAuthenticate_digest head digest]
  constructor
  · intro same
    rw [← same]
    exact ⟨getValueForMap_plain _ _, getValueForMap_plain _ _, getValueForMap_plain _ _,
      getValueForMap_plain _ _⟩
  · rintro ⟨realm, nonce, last, qop⟩
    have names : (questionFields auth ++ [questionLast auth]).map Field.name = questionKeys := rfl
    have readable : ∀ field ∈ questionFields auth ++ [questionLast auth], field.Readable := by
      apply readable_of_plain names questionKeys_plain.1
      · simp only [questionFields, questionLast, List.cons_append, List.nil_append, List.map_cons,
          List.map_nil, List.forall_mem_cons]
        exact ⟨realm, qop, nonce, last, fun text member => absurd member List.not_mem_nil⟩
      · simp [questionFields, questionLast]
    have once : ((questionFields auth ++ [questionLast auth]).map Field.name).Nodup := by
      rw [names]
      exact questionKeys_plain.2
    have printable := fun field member => (readable field member).printable
    have found := map_getValueForMap readable once
    have some_ : (questionLast auth).name ≠ [] := by
      show ascii "opaque" ≠ []
      decide
    rw [names, ← splitKy_separated printable some_, ← questionText] at found
    generalize splitKy (questionText auth) = map at found ⊢
    simp only [questionKeys, questionFields, questionLast, List.map_cons, List.map_nil,
      List.cons_append, List.nil_append, List.cons.injEq, and_true] at found
    rw [found.1, found.2.1, found.2.2.1, found.2.2.2, ← digest]

/-! ## Reading the answer -/

/-- The texts of an answer that are printed as they are. -/
def answerTexts (auth : HnwAuthorization) : List Bytes :=
  [auth.username, auth.realm, auth.nonce, auth.uri, auth.qop, auth.nc, auth.cnonce,
    auth.opaqueText]

/-- The printed fields of an answer. -/
def answerText (auth : HnwAuthorization) (response : Bytes) : Bytes :=
  (answerFields auth response).flatMap fun field => field.text ++ [comma]

/-- The keys of an answer. -/
def answerKeys : List Bytes :=
  [ascii "username", ascii "realm", ascii "nonce", ascii "uri", ascii "qop", ascii "nc",
    ascii "cnonce", ascii "response", ascii "opaque"]

/-- The keys of an answer are plain, and each is another. -/
theorem answerKeys_plain :
    (∀ key ∈ answerKeys, Plain key ∧ equals ∉ key) ∧ answerKeys.Nodup := by decide

/-- What is read of the header that `set_authorization` wrote. -/
theorem getAuthorization_digest (md5 : Bytes → Bytes) (head : σ) {auth : HnwAuthorization}
    (http_method : Bytes) (digest : auth.method = .digestAuth) :
    getAuthorization (setAuthorization md5 head auth http_method).1 =
      some (readDigest (answerText auth (getAuthInfo md5 auth http_method))) := by
  have some_ : answerText auth (getAuthInfo md5 auth http_method) ≠ [] := by
    rw [answerText, answerFields, List.flatMap_cons, Field.text]
    simp
  have parts := authParts_eq (by decide : blank ∉ ascii "Digest") some_
  have written : (setAuthorization md5 head auth http_method).1 =
      addHead (delHead head httpAuth) httpAuth
        (ascii "Digest" ++ blank :: answerText auth (getAuthInfo md5 auth http_method)) := by
    rw [setAuthorization, authorizationText_digest md5 http_method digest, answerText]
  rw [written, getAuthorization, getHead_replace, parts]
  simp only [if_true]

/-- The fields of an answer come back just where they are plain. -/
theorem readDigest_iff {auth : HnwAuthorization} (digest : auth.method = .digestAuth)
    (qopWord : comma ∉ auth.qop) (ncWord : comma ∉ auth.nc) (response : Bytes) :
    readDigest (answerText auth response) = { auth with password := [], response } ↔
      (∀ text ∈ answerTexts auth, Plain text) ∧ Plain response := by
  constructor
  · intro same
    have read := fun key => getValueForMap_plain (answerText auth response) key
    rw [readDigest, HnwAuthorization.mk.injEq] at same
    obtain ⟨_, username, _, realm, nonce, uri, qop, nc, cnonce, sent, last⟩ := same
    refine ⟨?_, sent ▸ read _⟩
    simp only [answerTexts, List.forall_mem_cons]
    exact ⟨username ▸ read _, realm ▸ read _, nonce ▸ read _, uri ▸ read _, qop ▸ read _,
      nc ▸ read _, cnonce ▸ read _, last ▸ read _,
      fun text member => absurd member List.not_mem_nil⟩
  · rintro ⟨plain, sent⟩
    have names : (answerFields auth response).map Field.name = answerKeys := rfl
    have readable : ∀ field ∈ answerFields auth response, field.Readable := by
      apply readable_of_plain names answerKeys_plain.1
      · simp only [answerTexts, List.forall_mem_cons] at plain
        simp only [answerFields, List.map_cons, List.map_nil, List.forall_mem_cons]
        obtain ⟨username, realm, nonce, uri, qop, nc, cnonce, last, none_⟩ := plain
        exact ⟨username, realm, nonce, uri, qop, nc, cnonce, sent, last, none_⟩
      · simp [answerFields, qopWord, ncWord]
    have once : ((answerFields auth response).map Field.name).Nodup := by
      rw [names]
      exact answerKeys_plain.2
    have printable := fun field member => (readable field member).printable
    have found := map_getValueForMap readable once
    rw [names, ← splitKy_terminated printable, ← answerText] at found
    rw [readDigest]
    generalize splitKy (answerText auth response) = map at found ⊢
    simp only [answerKeys, answerFields, List.map_cons, List.map_nil, List.cons.injEq,
      and_true] at found
    obtain ⟨username, realm, nonce, uri, qop, nc, cnonce, response_, last⟩ := found
    simp only [username, realm, nonce, uri, qop, nc, cnonce, response_, last, digest]

/-! ## The response -/

/-- A hexadecimal digit is neither a blank nor a quote. -/
theorem hexDigit_plain :
    ∀ digit < 16, hexDigit digit ≠ blank ∧ hexDigit digit ≠ doubleQuote ∧
      hexDigit digit ≠ singleQuote := by decide

/-- Hexadecimal digits are as many as asked for, and neither blanks nor quotes. -/
theorem hexDigits_spec (count value : Nat) :
    (hexDigits count value).length = count ∧ ∀ byte ∈ hexDigits count value,
      byte ≠ blank ∧ byte ≠ doubleQuote ∧ byte ≠ singleQuote := by
  induction count generalizing value with
  | zero => exact ⟨rfl, fun byte member => absurd member List.not_mem_nil⟩
  | succ count ih =>
    have front := ih (value / 16)
    refine ⟨by rw [hexDigits, List.length_append, front.1, List.length_singleton], ?_⟩
    intro byte member
    rcases List.mem_append.mp member with before | last
    · exact front.2 byte before
    · rw [List.mem_singleton.mp last]
      exact hexDigit_plain _ (Nat.mod_lt _ (by decide))

/-- What `md5` returns is plain. -/
theorem md5_plain (get_digest : Bytes → Fin 4 → UInt32) (src : Bytes) :
    Plain (md5 get_digest src) := by
  have bytes : ∀ byte ∈ md5 get_digest src,
      byte ≠ blank ∧ byte ≠ doubleQuote ∧ byte ≠ singleQuote := by
    rw [md5]
    split
    · exact fun byte member => absurd member List.not_mem_nil
    · intro byte member
      obtain ⟨word, _, inside⟩ := List.mem_flatMap.mp member
      exact (hexDigits_spec _ _).2 byte inside
  have size : (md5 get_digest src).length ≤ 32 := by
    rw [md5]
    split
    · exact Nat.zero_le _
    · simp only [List.length_flatMap, (hexDigits_spec 8 _).1]
      decide
  exact
    { noDouble := fun inside => (bytes _ inside).2.1 rfl
      noSingle := fun inside => (bytes _ inside).2.2 rfl
      front := fun begins => (bytes _ (List.mem_of_head? begins)).1 rfl
      behind := fun ends => (bytes _ (List.mem_of_getLast? ends)).1 rfl
      short := size.trans (by decide) }

/-- The response of a digest is what `md5` returns. -/
theorem getAuthInfo_plain (get_digest : Bytes → Fin 4 → UInt32) {auth : HnwAuthorization}
    (digest : auth.method = .digestAuth) (http_method : Bytes) :
    Plain (getAuthInfo (md5 get_digest) auth http_method) := by
  rw [getAuthInfo, digest]
  exact md5_plain get_digest _

/-! ## The handshake -/

/-- The question that a client answers: the server's realm, nonce, opaque text and `qop` are the
client's. -/
def questionOf (auth : HnwAuthorization) : HnwWWWAuthenticate :=
  { method := .digestAuth
    realm := auth.realm
    qop := auth.qop
    nonce := auth.nonce
    opaqueText := auth.opaqueText }

/-- A byte of `qop` or `nc`: a letter, a digit or `-`. -/
def wordByte (byte : UInt8) : Bool :=
  (48 ≤ byte ∧ byte ≤ 57) ∨ (65 ≤ byte ∧ byte ≤ 90) ∨ (97 ≤ byte ∧ byte ≤ 122) ∨ byte = 45

/-- The texts of a handshake: none holds a double quote or the end of a line, and `qop` and `nc`
are words. -/
structure HandshakeTexts (auth : HnwAuthorization) : Prop where
  /-- The method is a digest. -/
  digest : auth.method = .digestAuth
  /-- No text holds a double quote or the end of a line. -/
  texts : ∀ text ∈ answerTexts auth, doubleQuote ∉ text ∧ cr ∉ text ∧ lf ∉ text
  /-- `qop` is a word. -/
  qop_word : auth.qop.all wordByte = true
  /-- `nc` is a word. -/
  nc_word : auth.nc.all wordByte = true

/-- The question comes back, the answer comes back with its response, and the answer is
accepted. -/
def HandshakeCompletes (md5 : Bytes → Bytes) (serverHead clientHead : σ) (auth : HnwAuthorization)
    (http_method : Bytes) : Prop :=
  let answered := (setAuthorization md5 clientHead auth http_method).1
  getWwwAuthenticate (setWwwAuthenticate serverHead (questionOf auth)).1 = questionOf auth ∧
    getAuthorization answered = some
      { auth with password := [], response := getAuthInfo md5 auth http_method } ∧
    checkAuth md5 answered auth.password http_method = some true

/-- The texts that come back are plain. -/
theorem HandshakeCompletes.plain {md5 : Bytes → Bytes} {serverHead clientHead : σ}
    {auth : HnwAuthorization} {http_method : Bytes}
    (completes : HandshakeCompletes md5 serverHead clientHead auth http_method)
    (formed : HandshakeTexts auth) :
    (∀ text ∈ answerTexts auth, Plain text) ∧ Plain (getAuthInfo md5 auth http_method) := by
  have returned := completes.2.1
  have qop : comma ∉ auth.qop := fun inside =>
    absurd (List.all_eq_true.mp formed.qop_word _ inside) (by decide)
  have nc : comma ∉ auth.nc := fun inside =>
    absurd (List.all_eq_true.mp formed.nc_word _ inside) (by decide)
  rw [getAuthorization_digest md5 clientHead http_method formed.digest] at returned
  exact (readDigest_iff formed.digest qop nc _).mp (Option.some.inj returned)

/-- An answer is checked by computing its response again. -/
theorem checkAuthOf_digest (md5 : Bytes → Bytes) {auth : HnwAuthorization}
    (digest : auth.method = .digestAuth) (password http_method : Bytes) :
    checkAuthOf md5 auth password http_method =
      decide (getAuthInfo md5 { auth with password } http_method = auth.response) := by
  rw [checkAuthOf, digest]

/-- Plain texts complete the handshake. -/
theorem handshakeCompletes_of_plain {md5 : Bytes → Bytes} (serverHead clientHead : σ)
    {auth : HnwAuthorization} (http_method : Bytes) (formed : HandshakeTexts auth)
    (plain : ∀ text ∈ answerTexts auth, Plain text)
    (response : Plain (getAuthInfo md5 auth http_method)) :
    HandshakeCompletes md5 serverHead clientHead auth http_method := by
  have qop : comma ∉ auth.qop := fun inside =>
    absurd (List.all_eq_true.mp formed.qop_word _ inside) (by decide)
  have nc : comma ∉ auth.nc := fun inside =>
    absurd (List.all_eq_true.mp formed.nc_word _ inside) (by decide)
  have returned := getAuthorization_digest md5 clientHead http_method formed.digest
  rw [(readDigest_iff formed.digest qop nc _).mpr ⟨plain, response⟩] at returned
  refine ⟨(getWwwAuthenticate_iff serverHead rfl).mpr ?_, returned, ?_⟩
  · exact ⟨plain _ (by simp [answerTexts, questionOf]), plain _ (by simp [answerTexts, questionOf]),
      plain _ (by simp [answerTexts, questionOf]), plain _ (by simp [answerTexts, questionOf])⟩
  · have computed : getAuthInfo md5 { auth with response := getAuthInfo md5 auth http_method }
        http_method = getAuthInfo md5 auth http_method := by
      rw [getAuthInfo, getAuthInfo]
    rw [checkAuth, returned, Option.map_some, checkAuthOf_digest]
    · simp only [computed, decide_true]
    · exact formed.digest

/-- The handshake completes just where all its texts are plain; what the program's `md5` returns
always is. -/
theorem handshakeCompletes_iff (serverHead clientHead : σ) {auth : HnwAuthorization}
    (http_method : Bytes) (formed : HandshakeTexts auth) :
    (∀ md5, HandshakeCompletes md5 serverHead clientHead auth http_method ↔
        (∀ text ∈ answerTexts auth, Plain text) ∧ Plain (getAuthInfo md5 auth http_method)) ∧
      ∀ get_digest, HandshakeCompletes (md5 get_digest) serverHead clientHead auth http_method ↔
        ∀ text ∈ answerTexts auth, Plain text := by
  refine ⟨fun md5 => ⟨fun completes => completes.plain formed, fun plain =>
    handshakeCompletes_of_plain serverHead clientHead http_method formed plain.1 plain.2⟩,
    fun get_digest => ⟨fun completes => (completes.plain formed).1, fun plain => ?_⟩⟩
  apply handshakeCompletes_of_plain serverHead clientHead http_method formed plain
  exact getAuthInfo_plain get_digest formed.digest http_method

/-- A client that answers a server. -/
def mufasa : HnwAuthorization :=
  { method := .digestAuth
    username := ascii "Mufasa"
    password := ascii "Circle Of Life"
    realm := ascii "testrealm@host.com"
    nonce := ascii "dcd98b"
    uri := ascii "/dir/index.html"
    qop := ascii "auth"
    nc := ascii "00000001"
    cnonce := ascii "0a4f"
    opaqueText := ascii "5ccc" }

/-- The texts of the example. -/
theorem mufasa_texts : HandshakeTexts mufasa :=
  { digest := rfl
    texts := by decide
    qop_word := by decide
    nc_word := by decide }

/-- The texts of the example are plain, and its handshake completes whatever digest `md5` prints. -/
theorem handshakeCompletes_mufasa :
    (∀ text ∈ answerTexts mufasa, Plain text) ∧
      ∀ get_digest, HandshakeCompletes (md5 get_digest) (UnorderedMultimap.empty : ListMultimap)
        (UnorderedMultimap.empty : ListMultimap) mufasa (ascii "GET") := by
  have plain : ∀ text ∈ answerTexts mufasa, Plain text := by decide
  exact ⟨plain, fun get_digest =>
    ((handshakeCompletes_iff _ _ (ascii "GET") mufasa_texts).2 get_digest).mpr plain⟩

/-- A realm with an apostrophe. -/
def apostropheRealm : HnwAuthorization := { mufasa with realm := ascii "it's" }

/-- A realm with an apostrophe does not come back, whatever `md5` is. -/
theorem apostrophe_not_handshakeCompletes :
    HandshakeTexts apostropheRealm ∧
      ∀ md5, ¬ HandshakeCompletes md5 (UnorderedMultimap.empty : ListMultimap)
        (UnorderedMultimap.empty : ListMultimap) apostropheRealm (ascii "GET") := by
  have formed : HandshakeTexts apostropheRealm :=
    { digest := rfl
      texts := by decide
      qop_word := by decide
      nc_word := by decide }
  refine ⟨formed, fun md5 completes => ?_⟩
  have realm := (completes.plain formed).1 (ascii "it's") (by simp [answerTexts, apostropheRealm])
  exact absurd realm (by decide)

end Hnw.Http
