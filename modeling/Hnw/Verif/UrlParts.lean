import Hnw.Util.Url
import Hnw.Verif.Split

/-!
# The parts of a URL

`parser_url` looks for `://`, then for a `/`, and splits what stands between them at `:`. A query
without a path in front of it is therefore taken for a part of the host or of the port.
-/

namespace Hnw.Util

open Hnw.Theory

/-- A URL in its parts. -/
structure UrlText where
  /-- The scheme. -/
  scheme : Bytes
  /-- The host. -/
  host : Bytes
  /-- The port, where there is one. -/
  port : Option Bytes
  /-- The path and the query. -/
  rest : Bytes

/-- The port as it stands behind the host. -/
def UrlText.portText (url : UrlText) : Bytes :=
  match url.port with
  | some digits => colonByte :: digits
  | none => []

/-- The URL. -/
def UrlText.text (url : UrlText) : Bytes :=
  (url.scheme ++ ascii "://") ++ ((url.host ++ url.portText) ++ url.rest)

/-- The parts hold no byte that ends them, and what follows the port begins with `/` or `?`. -/
structure UrlText.WellFormed (url : UrlText) : Prop where
  /-- The scheme holds no colon. -/
  scheme_colon : colonByte ∉ url.scheme
  /-- The scheme holds no slash. -/
  scheme_slash : slash ∉ url.scheme
  /-- There is a host. -/
  host_some : url.host ≠ []
  /-- The host holds no colon. -/
  host_colon : colonByte ∉ url.host
  /-- The host holds no slash. -/
  host_slash : slash ∉ url.host
  /-- The host holds no question mark. -/
  host_question : questionMark ∉ url.host
  /-- A port is digits. -/
  port_digits : ∀ digits ∈ url.port, digits ≠ [] ∧ digits.all isDigit = true
  /-- A path or a query follows, or nothing. -/
  rest_begins : url.rest = [] ∨ ∃ more, url.rest = slash :: more ∨ url.rest = questionMark :: more

/-- The parser finds the parts, and the host is printed as it stands in the URL. -/
def UrlText.Decomposes (url : UrlText) : Prop :=
  parserUrl url.text {} = some
      { protocol := url.scheme
        host := url.host
        port := url.port.getD []
        path := (cutFirst questionMark url.rest).1
        queryString := (cutFirst questionMark url.rest).2 } ∧
    getHostForUrl url.text = some (url.scheme ++ ascii "://" ++ url.host ++ url.portText)

/-! ## The host and the port -/

/-- Without a colon everything is the host. -/
theorem readHost_host {str : Bytes} (free : colonByte ∉ str) (out : UrlParam) :
    readHost str out = some { out with host := str } := by
  have cut : split str (ascii ":") = some [str] := split_byte_free free
  rw [readHost, cut]
  rfl

/-- What stands in front of the first colon is the host, and what stands up to the next one the
port; `split` throws where a colon is too far behind. -/
theorem readHost_port {host rest : Bytes} (free : colonByte ∉ host) (out : UrlParam) :
    readHost (host ++ colonByte :: rest) out =
      if BytesNear colonByte (host ++ colonByte :: rest) then
        some { out with host, port := (cutFirst colonByte rest).1 }
      else none := by
  have cut : split (host ++ colonByte :: rest) (ascii ":") = _ := split_front free
  rw [readHost, cut]
  split
  · rfl
  · rfl

/-- A text with something behind it is another text. -/
theorem append_cons_ne (front rest : Bytes) (byte : UInt8) : front ++ byte :: rest ≠ front := by
  intro same
  have size := congrArg List.length same
  rw [List.length_append, List.length_cons] at size
  omega

/-- The host that is read is what stands in front of the first colon. -/
theorem readHost_front {str : Bytes} {out param : UrlParam} (read : readHost str out = some param) :
    param.host = (cutFirst colonByte str).1 := by
  by_cases member : colonByte ∈ str
  · obtain ⟨front, behind, rfl, free⟩ := List.eq_append_cons_of_mem member
    rw [readHost_port free] at read
    rw [cutFirst_append free]
    split at read
    · rw [← Option.some.inj read]
    · cases read
  · rw [readHost_host member] at read
    rw [cutFirst_free member, ← Option.some.inj read]

/-- The bytes of a port are neither colons nor slashes. -/
theorem UrlText.WellFormed.digits_free {url : UrlText} (formed : url.WellFormed) {digits : Bytes}
    (given : url.port = some digits) : colonByte ∉ digits ∧ slash ∉ digits := by
  have all := List.all_eq_true.mp (formed.port_digits digits (by rw [given]; rfl)).2
  exact ⟨fun inside => absurd (all _ inside) (by decide),
    fun inside => absurd (all _ inside) (by decide)⟩

/-- With a query behind the port, or behind the host where there is no port, the two are not
found. -/
theorem readHost_question {url : UrlText} (formed : url.WellFormed) (more : Bytes)
    {out param : UrlParam}
    (read : readHost (url.host ++ url.portText ++ questionMark :: more) out = some param) :
    ¬ (param.host = url.host ∧ param.port = url.port.getD []) := by
  rintro ⟨host, port⟩
  have differs : questionMark ≠ colonByte := by decide
  cases given : url.port with
  | none =>
    have front := readHost_front read
    rw [UrlText.portText, given] at front
    simp only [List.append_nil] at front
    rw [host, cutFirst_other formed.host_colon differs] at front
    exact append_cons_ne _ _ _ front.symm
  | some digits =>
    have whole : url.host ++ url.portText ++ questionMark :: more =
        url.host ++ colonByte :: (digits ++ questionMark :: more) := by
      rw [UrlText.portText, given, List.append_assoc, List.cons_append]
    rw [whole, readHost_port formed.host_colon,
      cutFirst_other (formed.digits_free given).1 differs] at read
    rw [given] at port
    split at read
    · rw [← Option.some.inj read] at port
      exact append_cons_ne _ _ _ port
    · cases read

/-! ## The whole URL -/

/-- The first `://` stands behind the scheme. -/
theorem find_scheme {scheme : Bytes} (free : colonByte ∉ scheme) (behind : Bytes) :
    find (scheme ++ ascii "://" ++ behind) (ascii "://") 0 = some scheme.length := by
  have pattern : ascii "://" = [colonByte, slash, slash] := by decide
  rw [pattern, List.append_assoc]
  apply find_eq_some (Nat.zero_le _) (by simp)
  · rw [OccursAt, List.drop_left]
    exact List.prefix_append _ _
  · intro earlier _ before occurs
    have first : (scheme ++ ([colonByte, slash, slash] ++ behind))[earlier]? = some colonByte := by
      rw [← List.head?_drop]
      obtain ⟨rest, same⟩ := occurs
      rw [← same]
      rfl
    rw [List.getElem?_append_left before] at first
    exact free (List.mem_of_getElem? first)

/-- A byte that does not stand behind a text is not found there. -/
theorem find_byte_none {front rest : Bytes} {byte : UInt8} (free : byte ∉ rest) :
    find (front ++ rest) [byte] front.length = none :=
  find_eq_none (not_occursAt_behind free)

/-- A byte that stands behind a text is found where it cuts the rest. -/
theorem find_byte_cutFirst (front : Bytes) {rest : Bytes} {byte : UInt8} (member : byte ∈ rest) :
    ∃ pos, find (front ++ rest) [byte] front.length = some pos ∧
      (front ++ rest).extract front.length pos = (cutFirst byte rest).1 ∧
      (front ++ rest).drop (pos + 1) = (cutFirst byte rest).2 := by
  obtain ⟨before, behind, rfl, free⟩ := List.eq_append_cons_of_mem member
  rw [cutFirst_append free]
  refine ⟨front.length + before.length, find_byte free, extract_piece front before _, ?_⟩
  rw [← List.append_assoc, ← List.length_append, ← List.drop_drop, List.drop_left]
  rfl

/-- Without a path everything behind the scheme is the host and the port. -/
theorem parserUrl_bare {scheme authority : Bytes} (free : colonByte ∉ scheme)
    (slashFree : slash ∉ authority) (out : UrlParam) :
    parserUrl (scheme ++ ascii "://" ++ authority) out =
      readHost authority { out with protocol := scheme } := by
  have size : (scheme ++ ascii "://").length = scheme.length + 3 := List.length_append
  have path : find (scheme ++ ascii "://" ++ authority) (ascii "/") (scheme.length + 3) = none := by
    rw [← size]
    exact find_byte_none slashFree
  have left : (scheme ++ ascii "://" ++ authority).drop (scheme.length + 3) = authority := by
    rw [← size, List.drop_left]
  have taken : (scheme ++ ascii "://" ++ authority).take scheme.length = scheme := by
    rw [List.append_assoc, List.take_left]
  rw [parserUrl, find_scheme free authority]
  simp only [path, left, taken]

/-- With a path, the host and the port are what stands in front of it, and the path ends at the
first question mark. -/
theorem parserUrl_path {url scheme authority more : Bytes} (free : colonByte ∉ scheme)
    (slashFree : slash ∉ authority)
    (whole : url = (scheme ++ ascii "://" ++ authority) ++ slash :: more) (out : UrlParam) :
    parserUrl url out =
      (readHost authority { out with protocol := scheme }).map fun param =>
        { param with
          path := (cutFirst questionMark (slash :: more)).1
          queryString := if questionMark ∈ slash :: more then
            (cutFirst questionMark (slash :: more)).2 else param.queryString } := by
  have size : (scheme ++ ascii "://").length = scheme.length + 3 := List.length_append
  have front : (scheme ++ ascii "://" ++ authority).length =
      scheme.length + 3 + authority.length := by
    rw [List.length_append, size]
  have parts : url = scheme ++ ascii "://" ++ (authority ++ slash :: more) := by
    rw [whole, List.append_assoc]
  have scheme_ : find url (ascii "://") 0 = some scheme.length := by
    rw [parts]
    exact find_scheme free _
  have path : find url (ascii "/") (scheme.length + 3) =
      some (scheme.length + 3 + authority.length) := by
    rw [parts, ← size]
    exact find_byte slashFree
  have left : url.extract (scheme.length + 3) (scheme.length + 3 + authority.length) =
      authority := by
    rw [parts, ← size]
    exact extract_piece _ authority _
  have taken : url.take scheme.length = scheme := by
    rw [parts, List.append_assoc, List.take_left]
  by_cases member : questionMark ∈ slash :: more
  · obtain ⟨pos, found, upTo, after⟩ := find_byte_cutFirst
      (scheme ++ ascii "://" ++ authority) member
    rw [← whole] at found upTo after
    rw [front] at found upTo
    have query : find url (ascii "?") (scheme.length + 3 + authority.length) = some pos := found
    simp only [parserUrl, scheme_, path, left, taken, query, upTo, after, if_pos member]
    cases readHost authority { out with protocol := scheme } with
    | none => rfl
    | some param => rfl
  · have query : find url (ascii "?") (scheme.length + 3 + authority.length) = none := by
      rw [← front, whole]
      exact find_byte_none member
    have after : url.drop (scheme.length + 3 + authority.length) = slash :: more := by
      rw [← front, whole, List.drop_left]
    simp only [parserUrl, scheme_, path, left, taken, query, after, if_neg member,
      cutFirst_free member]
    cases readHost authority { out with protocol := scheme } with
    | none => rfl
    | some param => rfl

namespace UrlText

variable {url : UrlText}

/-- There is no port, or the colon in front of it is near enough for `split`. -/
def PortNear (url : UrlText) : Prop := url.port = none ∨ url.host.length + 1 < 2 ^ 31

instance (url : UrlText) : Decidable url.PortNear := inferInstanceAs (Decidable (_ ∨ _))

/-- The host and the port hold no slash. -/
theorem WellFormed.authority_slash (formed : url.WellFormed) :
    slash ∉ url.host ++ url.portText := by
  cases given : url.port with
  | none =>
    rw [portText, given, List.append_nil]
    exact formed.host_slash
  | some digits =>
    rw [portText, given]
    exact not_mem_around formed.host_slash (by decide) (formed.digits_free given).2

/-- The host and the port are read as they are, where the port is near. -/
theorem readHost_authority (formed : url.WellFormed) (out : UrlParam) (fresh : out.port = []) :
    readHost (url.host ++ url.portText) out =
      if url.PortNear then some { out with host := url.host, port := url.port.getD [] }
      else none := by
  cases given : url.port with
  | none =>
    have near : url.PortNear := Or.inl given
    rw [if_pos near, portText, given]
    simp only [List.append_nil, readHost_host formed.host_colon, Option.getD_none]
    rw [← fresh]
  | some digits =>
    have free := (formed.digits_free given).1
    have near : url.PortNear ↔ url.host.length + 1 < 2 ^ 31 := by
      rw [PortNear, given]
      simp only [reduceCtorEq, false_or]
    rw [portText, given]
    simp only [readHost_port formed.host_colon, bytesNear_pair formed.host_colon free,
      cutFirst_free free, near, Option.getD_some]

/-- With a path or nothing behind the port, the parser finds the parts. -/
theorem parserUrl_text (formed : url.WellFormed) (plain : url.rest.head? ≠ some questionMark) :
    parserUrl url.text {} =
      if url.PortNear then some
        { protocol := url.scheme
          host := url.host
          port := url.port.getD []
          path := (cutFirst questionMark url.rest).1
          queryString := (cutFirst questionMark url.rest).2 }
      else none := by
  have read := readHost_authority formed { ({} : UrlParam) with protocol := url.scheme } rfl
  rcases formed.rest_begins with empty_ | ⟨more, path | query⟩
  · have bare : url.text = url.scheme ++ ascii "://" ++ (url.host ++ url.portText) := by
      rw [text, empty_, List.append_nil]
    rw [bare, parserUrl_bare formed.scheme_colon formed.authority_slash, read, empty_]
    rfl
  · have whole : url.text =
        (url.scheme ++ ascii "://" ++ (url.host ++ url.portText)) ++ slash :: more := by
      rw [text, path, List.append_assoc (url.scheme ++ ascii "://")]
    rw [parserUrl_path formed.scheme_colon formed.authority_slash whole, read, path]
    by_cases near : url.PortNear
    · rw [if_pos near, if_pos near, Option.map_some]
      by_cases member : questionMark ∈ slash :: more
      · rw [if_pos member]
      · rw [if_neg member, cutFirst_free member]
    · rw [if_neg near, if_neg near, Option.map_none]
  · rw [query] at plain
    exact absurd rfl plain

/-- A query without a path is taken for a part of the host or of the port. -/
theorem parserUrl_question (formed : url.WellFormed) {more : Bytes}
    (query : url.rest = questionMark :: more) {param : UrlParam}
    (parsed : parserUrl url.text {} = some param) :
    ¬ (param.host = url.host ∧ param.port = url.port.getD []) := by
  have differs : slash ≠ questionMark := by decide
  have start : ∀ front, slash ∉ front →
      slash ∉ url.host ++ url.portText ++ questionMark :: front :=
    fun front free => not_mem_around formed.authority_slash differs free
  by_cases path : slash ∈ more
  · obtain ⟨front, behind, rfl, free⟩ := List.eq_append_cons_of_mem path
    have whole : url.text = (url.scheme ++ ascii "://" ++
        (url.host ++ url.portText ++ questionMark :: front)) ++ slash :: behind := by
      rw [text, query]
      simp only [List.append_assoc, List.cons_append]
    rw [parserUrl_path formed.scheme_colon (start front free) whole] at parsed
    obtain ⟨read, found, rfl⟩ := Option.map_eq_some_iff.mp parsed
    exact fun same => readHost_question formed front found same
  · have whole : url.text = url.scheme ++ ascii "://" ++
        (url.host ++ url.portText ++ questionMark :: more) := by
      rw [text, query]
    rw [whole, parserUrl_bare formed.scheme_colon (start more path)] at parsed
    exact readHost_question formed more parsed

/-- The host is printed behind the scheme, which is `http` where there is none. -/
theorem getHostForUrl_text (formed : url.WellFormed) {path query : Bytes}
    (parsed : parserUrl url.text {} = some
      { protocol := url.scheme
        host := url.host
        port := url.port.getD []
        path := path
        queryString := query }) :
    getHostForUrl url.text = some
      ((if url.scheme = [] then ascii "http://" else url.scheme ++ ascii "://") ++ url.host ++
        url.portText) := by
  rw [getHostForUrl, parsed]
  simp only [Option.bind_eq_bind, Option.bind_some, if_neg formed.host_some]
  cases given : url.port with
  | none =>
    rw [portText, given]
    simp only [Option.getD_none, if_true, List.append_nil]
    rfl
  | some digits =>
    have some_ := (formed.port_digits digits (by rw [given]; rfl)).1
    rw [portText, given]
    simp only [Option.getD_some, if_neg some_, List.append_assoc]
    rfl

/-- The parser finds the parts of a URL and prints its host just where no query follows the host or
the port, there is a scheme, and the port is near. -/
theorem decomposes_iff (formed : url.WellFormed) :
    url.Decomposes ↔
      url.rest.head? ≠ some questionMark ∧ url.scheme ≠ [] ∧ url.PortNear := by
  constructor
  · rintro ⟨parsed, printed⟩
    have plain : url.rest.head? ≠ some questionMark := by
      intro begins
      obtain ⟨more, query⟩ := List.head?_eq_some_iff.mp begins
      exact parserUrl_question formed query parsed ⟨rfl, rfl⟩
    have near : url.PortNear := by
      by_contra far
      rw [parserUrl_text formed plain, if_neg far] at parsed
      cases parsed
    refine ⟨plain, ?_, near⟩
    intro empty_
    rw [getHostForUrl_text formed parsed, if_pos empty_, empty_] at printed
    have size := congrArg List.length (Option.some.inj printed)
    have long : (ascii "http://").length = 7 := by decide
    have short : (ascii "://").length = 3 := by decide
    simp only [List.length_append, List.length_nil] at size
    omega
  · rintro ⟨plain, some_, near⟩
    have parsed := parserUrl_text formed plain
    rw [if_pos near] at parsed
    refine ⟨parsed, ?_⟩
    rw [getHostForUrl_text formed parsed, if_neg some_]

/-- A URL with all its parts. -/
def whole : UrlText := ⟨ascii "http", ascii "h", some (ascii "80"), ascii "/in?q=1"⟩

/-- The parts of the URL. -/
theorem whole_wellFormed : whole.WellFormed :=
  { scheme_colon := by decide
    scheme_slash := by decide
    host_some := by decide
    host_colon := by decide
    host_slash := by decide
    host_question := by decide
    port_digits := by
      intro digits member
      rw [← Option.some.inj member]
      decide
    rest_begins := Or.inr ⟨_, Or.inl rfl⟩ }

/-- A URL with all its parts decomposes. -/
theorem whole_decomposes : whole.Decomposes :=
  (decomposes_iff whole_wellFormed).mpr ⟨by decide, by decide, .inr (by decide)⟩

/-- A URL with a query behind the host. -/
def queried : UrlText := ⟨ascii "http", ascii "h", none, ascii "?a=b"⟩

/-- A query behind the host is taken for a part of the host. -/
theorem queried_not_decomposes : queried.WellFormed ∧ ¬ queried.Decomposes := by
  have formed : queried.WellFormed :=
    { scheme_colon := by decide
      scheme_slash := by decide
      host_some := by decide
      host_colon := by decide
      host_slash := by decide
      host_question := by decide
      port_digits := fun digits member => by cases member
      rest_begins := Or.inr ⟨_, Or.inr rfl⟩ }
  have query : queried.rest = questionMark :: ascii "a=b" := by decide
  refine ⟨formed, fun parts => ?_⟩
  exact parserUrl_question formed query parts.1 ⟨rfl, rfl⟩

end UrlText

end Hnw.Util
