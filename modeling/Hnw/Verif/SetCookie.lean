import Mathlib.Data.List.Perm.Basic
import Hnw.Http.Cookie
import Hnw.Verif.Head
import Hnw.Verif.Split

/-!
# The cookies of a server

How `set_cookie_from_string` reads a text: it goes wrong where a piece behind the first is the
bare name of an attribute. `del_setcookie` looks at the first `Set-Cookie` header alone. What is
printed for an attribute is not what is looked for when it is read: there is a blank in front.
-/

namespace Hnw.Http

open Hnw.Util Hnw.Util.UnorderedMultimap Hnw.Util.ErasesAt Hnw.Theory

/-! ## One piece -/

/-- `split` of a header cuts it, or throws. -/
theorem splitCookie_byte (text : Bytes) (byte : UInt8) :
    splitCookie text [byte] =
      if BytesNear byte text then .ok (text.splitOn byte) else .error .throws := by
  by_cases near : BytesNear byte text
  · simp only [splitCookie, split_byte, if_pos near]
  · simp only [splitCookie, split_byte, if_neg near]

/-- The names of the attributes whose value is indexed. -/
def bareAttributes : List Bytes := [ascii "Expires", ascii "Path", ascii "Domain"]

/-- A bare name holds no `=`. -/
theorem bareAttributes_free {piece : Bytes} (bare : piece ∈ bareAttributes) : equals ∉ piece := by
  have all : ∀ piece ∈ bareAttributes, equals ∉ piece := by decide
  exact all piece bare

/-- A piece with a `=` is read. -/
theorem setAttribute_pair (cookies : HnwSetCookie) (name value : Bytes) (more : List Bytes) :
    ∃ next, setAttribute cookies (name :: value :: more) = .ok next := by
  simp only [setAttribute, index, List.getElem?_cons_zero, List.getElem?_cons_succ, bind,
    Except.bind, pure, Except.pure]
  split_ifs
  all_goals exact ⟨_, rfl⟩

/-- A piece without a `=` is read where it is not the bare name of an attribute. -/
theorem setAttribute_single (cookies : HnwSetCookie) {name : Bytes}
    (other : name ∉ bareAttributes) : ∃ next, setAttribute cookies [name] = .ok next := by
  simp only [bareAttributes, List.mem_cons, List.not_mem_nil, or_false, not_or] at other
  obtain ⟨notExpires, notPath, notDomain⟩ := other
  simp only [setAttribute, index, List.getElem?_cons_zero, bind, Except.bind, pure, Except.pure,
    if_neg notExpires, if_neg notPath, if_neg notDomain]
  split_ifs
  all_goals exact ⟨_, rfl⟩

/-- The bare name of an attribute is indexed behind its end. -/
theorem setAttribute_bare (cookies : HnwSetCookie) {name : Bytes} (bare : name ∈ bareAttributes) :
    setAttribute cookies [name] = .error .outOfBounds := by
  simp only [bareAttributes, List.mem_cons, List.not_mem_nil, or_false] at bare
  rcases bare with rfl | rfl | rfl
  · rfl
  · rfl
  · rfl

/-- A piece is read where it is not the bare name of an attribute. -/
theorem setAttribute_splitOn (cookies : HnwSetCookie) {piece : Bytes}
    (other : piece ∉ bareAttributes) :
    ∃ next, setAttribute cookies (piece.splitOn equals) = .ok next := by
  by_cases cut : equals ∈ piece
  · obtain ⟨name, rest, rfl, free⟩ := List.eq_append_cons_of_mem cut
    rw [List.splitOn_append_cons_self_of_not_mem free]
    cases later : rest.splitOn equals with
    | nil => exact absurd later (List.splitOn_ne_nil equals rest)
    | cons value more => exact setAttribute_pair cookies name value more
  · rw [List.splitOn_eq_singleton cut]
    exact setAttribute_single cookies other

/-! ## All pieces -/

/-- The loop over the pieces, one piece on. -/
theorem readAttributes_cons (cookies : HnwSetCookie) (kv : Bytes) (kvs : List Bytes) :
    readAttributes cookies (kv :: kvs) =
      if BytesNear equals kv then
        (setAttribute cookies (kv.splitOn equals)).bind (readAttributes · kvs)
      else .error .throws := by
  have cut : splitCookie kv (ascii "=") =
      if BytesNear equals kv then .ok (kv.splitOn equals) else .error .throws :=
    splitCookie_byte kv equals
  by_cases near : BytesNear equals kv
  · simp only [readAttributes, cut, if_pos near, bind, Except.bind]
  · simp only [readAttributes, cut, if_neg near, bind, Except.bind]

/-- Some piece is the bare name of an attribute, and `split` gets through those in front. -/
def ReachesBare (kvs : List Bytes) : Prop :=
  ∃ front piece back, kvs = front ++ piece :: back ∧ piece ∈ bareAttributes ∧
    ∀ kv ∈ front, BytesNear equals kv

/-- What is reached from the first piece on. -/
theorem reachesBare_cons {kv : Bytes} {kvs : List Bytes} :
    ReachesBare (kv :: kvs) ↔
      kv ∈ bareAttributes ∨ (BytesNear equals kv ∧ ReachesBare kvs) := by
  constructor
  · rintro ⟨front, piece, back, whole, bare, near⟩
    cases front with
    | nil =>
      rw [List.nil_append, List.cons.injEq] at whole
      exact .inl (whole.1 ▸ bare)
    | cons first front =>
      rw [List.cons_append, List.cons.injEq] at whole
      obtain ⟨rfl, later⟩ := whole
      exact .inr ⟨near kv (by simp), front, piece, back, later, bare,
        fun other member => near other (by simp [member])⟩
  · rintro (bare | ⟨near, front, piece, back, rfl, bare, nears⟩)
    · exact ⟨[], kv, kvs, rfl, bare, by simp⟩
    · refine ⟨kv :: front, piece, back, rfl, bare, fun other member => ?_⟩
      rcases List.mem_cons.mp member with rfl | behind
      · exact near
      · exact nears other behind

/-- The loop over the pieces indexes a piece that is not there exactly where it gets to the bare
name of an attribute. -/
theorem readAttributes_outOfBounds (cookies : HnwSetCookie) (kvs : List Bytes) :
    readAttributes cookies kvs = .error .outOfBounds ↔ ReachesBare kvs := by
  induction kvs generalizing cookies with
  | nil =>
    constructor
    · intro out
      cases out
    · rintro ⟨front, piece, back, whole, _⟩
      exact absurd whole.symm (by simp)
  | cons kv kvs ih =>
    rw [readAttributes_cons, reachesBare_cons]
    by_cases bare : kv ∈ bareAttributes
    · have free := bareAttributes_free bare
      rw [if_pos (bytesNear_of_free free), List.splitOn_eq_singleton free,
        setAttribute_bare cookies bare]
      exact ⟨fun _ => .inl bare, fun _ => rfl⟩
    · obtain ⟨next, read⟩ := setAttribute_splitOn cookies bare
      by_cases near : BytesNear equals kv
      · rw [if_pos near, read]
        show readAttributes next kvs = _ ↔ _
        rw [ih]
        simp only [bare, near, false_or, true_and]
      · rw [if_neg near]
        simp [bare, near]

/-! ## The whole text -/

/-- The name of the cookie of a `Set-Cookie` header: the text up to the first `;`, up to the first
`=`. -/
def cookieName (str : Bytes) : Bytes := (cutFirst equals (cutFirst semicolon str).1).1

/-- The value of the cookie of a `Set-Cookie` header: the piece behind the first `=`. -/
def cookieValue (str : Bytes) : Option Bytes := ((cutFirst semicolon str).1.splitOn equals)[1]?

/-- The pieces behind the first. -/
def attributePieces (str : Bytes) : List Bytes := (str.splitOn semicolon).tail

/-- `split` gets to the pieces behind the first. -/
def ReadsValue (str : Bytes) : Prop :=
  BytesNear semicolon str ∧ BytesNear equals (cutFirst semicolon str).1

instance (str : Bytes) : Decidable (ReadsValue str) :=
  inferInstanceAs
    (Decidable (BytesNear semicolon str ∧ BytesNear equals (cutFirst semicolon str).1))

/-- Where `split` gets to them, the pieces behind the first are read into the cookie of the name. -/
theorem setCookieFromString_reads {str : Bytes} (reads : ReadsValue str) (cookies : HnwSetCookie) :
    setCookieFromString str cookies =
      readAttributes
        { cookies with value := ⟨cookieName str, (cookieValue str).getD cookies.value.value⟩ }
        (attributePieces str) := by
  have pieces : splitCookie str (ascii ";") =
      .ok ((cutFirst semicolon str).1 :: attributePieces str) := by
    rw [show ascii ";" = [semicolon] from rfl, splitCookie_byte, if_pos reads.1,
      head_splitOn semicolon str]
    rfl
  have first : splitCookie (cutFirst semicolon str).1 (ascii "=") =
      .ok (cookieName str :: ((cutFirst semicolon str).1.splitOn equals).tail) := by
    rw [show ascii "=" = [equals] from rfl, splitCookie_byte, if_pos reads.2,
      head_splitOn equals (cutFirst semicolon str).1]
    rfl
  have value : (cookieName str :: ((cutFirst semicolon str).1.splitOn equals).tail)[1]? =
      cookieValue str := by
    rw [cookieValue, head_splitOn equals (cutFirst semicolon str).1]
    rfl
  simp only [setCookieFromString, pieces, first, setValue, index, List.getElem?_cons_zero, value,
    bind, Except.bind, pure, Except.pure]

/-- Where `split` does not get to them, it throws. -/
theorem setCookieFromString_throws {str : Bytes} (far : ¬ ReadsValue str)
    (cookies : HnwSetCookie) : setCookieFromString str cookies = .error .throws := by
  by_cases near : BytesNear semicolon str
  · have first : ¬ BytesNear equals (cutFirst semicolon str).1 := fun here => far ⟨near, here⟩
    have pieces : splitCookie str (ascii ";") =
        .ok ((cutFirst semicolon str).1 :: attributePieces str) := by
      rw [show ascii ";" = [semicolon] from rfl, splitCookie_byte, if_pos near,
        head_splitOn semicolon str]
      rfl
    have value : splitCookie (cutFirst semicolon str).1 (ascii "=") = .error .throws := by
      rw [show ascii "=" = [equals] from rfl, splitCookie_byte, if_neg first]
    simp only [setCookieFromString, pieces, value, bind, Except.bind]
  · have pieces : splitCookie str (ascii ";") = .error .throws := by
      rw [show ascii ";" = [semicolon] from rfl, splitCookie_byte, if_neg near]
    simp only [setCookieFromString, pieces, bind, Except.bind]

/-- An attribute leaves the value. -/
theorem setAttribute_value {cookies next : HnwSetCookie} {kV : List Bytes}
    (read : setAttribute cookies kV = .ok next) : next.value = cookies.value := by
  have bound : ∀ (i : Nat) (update : Bytes → HnwSetCookie),
      (∀ piece, (update piece).value = cookies.value) →
      ((index kV i).bind fun piece => Except.ok (update piece)) = Except.ok next →
        next.value = cookies.value := by
    intro i update keeps found
    cases piece : index kV i with
    | error fault =>
      rw [piece] at found
      cases found
    | ok piece' =>
      rw [piece] at found
      cases found
      exact keeps piece'
  cases name : index kV 0 with
  | error fault =>
    simp only [setAttribute, name, bind, Except.bind] at read
    cases read
  | ok name' =>
    simp only [setAttribute, name, bind, Except.bind, pure, Except.pure] at read
    split_ifs at read
    · exact bound 1 (fun expires => { cookies with expires }) (fun _ => rfl) read
    · exact bound 1 (fun path => { cookies with path }) (fun _ => rfl) read
    · exact bound 1 (fun domain => { cookies with domain }) (fun _ => rfl) read
    · cases read
      rfl
    · cases read
      rfl

/-- The loop over the attributes leaves the value. -/
theorem readAttributes_value {cookies next : HnwSetCookie} {kvs : List Bytes}
    (read : readAttributes cookies kvs = .ok next) : next.value = cookies.value := by
  induction kvs generalizing cookies with
  | nil =>
    cases read
    rfl
  | cons kv kvs ih =>
    rw [readAttributes_cons] at read
    split at read
    · cases step : setAttribute cookies (kv.splitOn equals) with
      | error fault =>
        rw [step] at read
        cases read
      | ok later =>
        rw [step] at read
        exact (ih read).trans (setAttribute_value step)
    · cases read

/-- A header that is read has the name of its cookie. -/
theorem setCookieFromString_name {str : Bytes} {cookies s : HnwSetCookie}
    (read : setCookieFromString str cookies = .ok s) : s.value.key = cookieName str := by
  by_cases reads : ReadsValue str
  · rw [setCookieFromString_reads reads] at read
    rw [readAttributes_value read]
  · rw [setCookieFromString_throws reads] at read
    cases read

/-! ## Reading inside the pieces -/

/-- `split` gets to a piece behind the first that is the bare name of an attribute. -/
def ReachesBareAttribute (str : Bytes) : Prop :=
  ReadsValue str ∧ ReachesBare (attributePieces str)

/-- A piece that is not there is indexed exactly where `split` gets to a bare attribute. -/
theorem setCookieFromString_outOfBounds (str : Bytes) (cookies : HnwSetCookie) :
    setCookieFromString str cookies = .error .outOfBounds ↔ ReachesBareAttribute str := by
  by_cases reads : ReadsValue str
  · rw [setCookieFromString_reads reads, readAttributes_outOfBounds, ReachesBareAttribute]
    exact ⟨fun bare => ⟨reads, bare⟩, And.right⟩
  · rw [setCookieFromString_throws reads]
    exact ⟨fun out => (nomatch out), fun bare => absurd bare.1 reads⟩

section Head

variable {σ : Type} [UnorderedMultimap σ] [ErasesAt σ] {head : σ} {name : Bytes}

/-- No call that reads the cookies of a head indexes a piece that is not there. -/
structure StaysInBounds (head : σ) (name : Bytes) : Prop where
  /-- `get_setcookies`. -/
  getSetcookies : getSetcookies head ≠ .error .outOfBounds
  /-- `get_setcookie`. -/
  getSetcookie : getSetcookie head name ≠ .error .outOfBounds
  /-- `del_setcookie`. -/
  delSetcookie : ∀ result, DelSetcookie head name result → result ≠ .error .outOfBounds

omit [UnorderedMultimap σ] [ErasesAt σ] in
/-- Values that are all read inside their pieces are read one after the other. -/
theorem mapM_inBounds {strs : List Bytes}
    (inside : ∀ str ∈ strs, setCookieFromString str {} ≠ .error .outOfBounds) :
    (strs.mapM fun str => setCookieFromString str {}) ≠ .error .outOfBounds := by
  induction strs with
  | nil => exact fun out => (nomatch out)
  | cons str strs ih =>
    rw [List.mapM_cons]
    have here := inside str (by simp)
    have later := ih fun other member => inside other (by simp [member])
    cases read : setCookieFromString str {} with
    | error fault =>
      rw [read] at here
      exact fun out => here (congrArg Except.error (Except.error.inj out))
    | ok s =>
      cases rest : strs.mapM fun str => setCookieFromString str {} with
      | error fault =>
        rw [rest] at later
        exact fun out => later (congrArg Except.error (Except.error.inj out))
      | ok all => exact fun out => (nomatch out)

omit [UnorderedMultimap σ] [ErasesAt σ] in
/-- A search stays inside the pieces of values that are. -/
theorem findSetcookie_inBounds {strs : List Bytes}
    (inside : ∀ str ∈ strs, setCookieFromString str {} ≠ .error .outOfBounds) :
    findSetcookie name strs ≠ .error .outOfBounds := by
  induction strs with
  | nil => exact fun out => (nomatch out)
  | cons str strs ih =>
    have here := inside str (by simp)
    have later := ih fun other member => inside other (by simp [member])
    cases read : setCookieFromString str {} with
    | error fault =>
      rw [read] at here
      simp only [findSetcookie, read, bind, Except.bind]
      exact fun out => here (congrArg Except.error (Except.error.inj out))
    | ok s =>
      simp only [findSetcookie, read, bind, Except.bind, pure, Except.pure]
      split
      · exact fun out => (nomatch out)
      · exact later

omit [ErasesAt σ] in
/-- The iterator of `find` stands at what it finds. -/
theorem getElem?_find (head : σ) (key : Bytes) :
    (toList head)[(toList head).findIdx (·.1 = key)]? = find head key :=
  List.find?_eq_getElem?_findIdx.symm

/-- Where there is no `Set-Cookie` header, `del_setcookie` returns false. -/
theorem delSetcookie_absent (absent : find head httpSetCookie = none)
    {result : Except CookieFault (Bool × σ)} :
    DelSetcookie head name result ↔ result = .ok (false, head) := by
  have here := (getElem?_find head httpSetCookie).trans absent
  constructor
  · rintro ⟨rounds, returns⟩
    cases rounds with
    | zero => cases returns
    | succ rounds =>
      simp only [delSetcookieLoop, here, Option.some.injEq] at returns
      exact returns.symm
  · rintro rfl
    exact ⟨1, by simp only [delSetcookieLoop, here]⟩

/-- Where the first `Set-Cookie` header is not read, `del_setcookie` does not return. -/
theorem delSetcookie_fault {entry : Entry} (first : find head httpSetCookie = some entry)
    {fault : CookieFault} (fails : setCookieFromString entry.2 {} = .error fault)
    {result : Except CookieFault (Bool × σ)} :
    DelSetcookie head name result ↔ result = .error fault := by
  have here := (getElem?_find head httpSetCookie).trans first
  constructor
  · rintro ⟨rounds, returns⟩
    cases rounds with
    | zero => cases returns
    | succ rounds =>
      simp only [delSetcookieLoop, here, fails, Option.some.injEq] at returns
      exact returns.symm
  · rintro rfl
    exact ⟨1, by simp only [delSetcookieLoop, here, fails]⟩

/-- Where the first `Set-Cookie` header is of that name it is erased; where it is of another name
the loop stays at it for ever. -/
theorem delSetcookie_first {entry : Entry} (first : find head httpSetCookie = some entry)
    {s : HnwSetCookie} (reads : setCookieFromString entry.2 {} = .ok s)
    {result : Except CookieFault (Bool × σ)} :
    DelSetcookie head name result ↔ s.value.key = name ∧
      result = .ok (true, eraseAt head ((toList head).findIdx (·.1 = httpSetCookie))) := by
  have here := (getElem?_find head httpSetCookie).trans first
  constructor
  · rintro ⟨rounds, returns⟩
    induction rounds with
    | zero => cases returns
    | succ rounds ih =>
      simp only [delSetcookieLoop, here, reads] at returns
      split at returns
      · next same =>
        rw [Option.some.injEq] at returns
        exact ⟨same, returns.symm⟩
      · exact ih returns
  · rintro ⟨same, rfl⟩
    exact ⟨1, by simp only [delSetcookieLoop, here, reads, if_pos same]⟩

omit [ErasesAt σ] in
/-- The first `Set-Cookie` header is one that `get_heads` walks. -/
theorem find_mem_getHeads {entry : Entry} (first : find head httpSetCookie = some entry) :
    entry.2 ∈ getHeads head httpSetCookie := by
  rw [getHeads, List.mem_map]
  refine ⟨entry, ?_, rfl⟩
  rw [UnorderedMultimap.find] at first
  have same : entry.1 = httpSetCookie := by simpa using List.find?_some first
  have stays : entry ∈ (toList head).filter (·.1 = httpSetCookie) :=
    List.mem_filter.mpr ⟨List.mem_of_find?_eq_some first, by simpa using same⟩
  rw [← filter_dropWhile] at stays
  exact (List.mem_filter.mp stays).1

/-- A text is read inside its pieces exactly where `split` does not get to the bare name of an
attribute, and every call on a head reads inside the pieces where all the texts it walks are so. -/
theorem setCookies_inBounds :
    (∀ (str : Bytes) (cookies : HnwSetCookie),
      setCookieFromString str cookies ≠ .error .outOfBounds ↔ ¬ ReachesBareAttribute str) ∧
    ∀ (head : σ) (name : Bytes),
      (∀ str ∈ getHeads head httpSetCookie, ¬ ReachesBareAttribute str) →
        StaysInBounds head name := by
  refine ⟨fun str cookies => (setCookieFromString_outOfBounds str cookies).not, ?_⟩
  intro head name inside
  have texts : ∀ str ∈ getHeads head httpSetCookie,
      setCookieFromString str {} ≠ .error .outOfBounds :=
    fun str member => (setCookieFromString_outOfBounds str {}).not.mpr (inside str member)
  refine ⟨mapM_inBounds texts, findSetcookie_inBounds texts, fun result returns => ?_⟩
  cases first : UnorderedMultimap.find head httpSetCookie with
  | none =>
    rw [(delSetcookie_absent first).mp returns]
    exact fun out => (nomatch out)
  | some entry =>
    have here := texts entry.2 (find_mem_getHeads first)
    cases reads : setCookieFromString entry.2 {} with
    | error fault =>
      rw [reads] at here
      rw [(delSetcookie_fault first reads).mp returns]
      exact fun out => here (congrArg Except.error (Except.error.inj out))
    | ok s =>
      rw [((delSetcookie_first first reads).mp returns).2]
      exact fun out => (nomatch out)

omit [UnorderedMultimap σ] [ErasesAt σ] in
/-- An attribute without a value is indexed behind its end. -/
theorem bareAttribute_outOfBounds :
    ¬ ∀ str : Bytes, setCookieFromString str {} ≠ .error .outOfBounds := by
  intro always
  exact always (ascii "a=1;Path") (by decide)

/-! ## Deleting -/

/-- Some `Set-Cookie` header's cookie has the name. -/
def HasCookie (head : σ) (name : Bytes) : Prop :=
  ∃ entry ∈ toList head, entry.1 = httpSetCookie ∧ cookieName entry.2 = name

/-- `del_setcookie` returns, says whether there is a cookie of the name, and where there is takes
exactly one header of it. -/
structure DeletesExactly (head : σ) (name : Bytes) (result : Bool) (after : σ) : Prop where
  /-- It returns. -/
  returns : DelSetcookie head name (.ok (result, after))
  /-- It returns true exactly where there is a cookie of the name. -/
  found : result = true ↔ HasCookie head name
  /-- Then one header of the name goes, and all others stay. -/
  one : result = true → ∃ entry, entry.1 = httpSetCookie ∧ cookieName entry.2 = name ∧
    (toList head).Perm (entry :: toList after)
  /-- Otherwise all headers stay. -/
  none : result = false → (toList head).Perm (toList after)

/-- `del_setcookie` is exact where there is no `Set-Cookie` header, or the first one is read and
is of the name, and only there. -/
theorem deletesExactly_iff (head : σ) (name : Bytes) :
    (∃ result after, DeletesExactly head name result after) ↔
      getHeadCount head httpSetCookie = 0 ∨
        ∃ entry s, UnorderedMultimap.find head httpSetCookie = some entry ∧
          setCookieFromString entry.2 {} = .ok s ∧ cookieName entry.2 = name := by
  constructor
  · rintro ⟨result, after, exact_⟩
    cases first : UnorderedMultimap.find head httpSetCookie with
    | none =>
      refine .inl (count_eq_zero.mpr fun entry member => ?_)
      have other := List.find?_eq_none.mp first entry member
      simpa using other
    | some entry =>
      right
      cases reads : setCookieFromString entry.2 {} with
      | error fault => exact (nomatch (delSetcookie_fault first reads).mp exact_.returns)
      | ok s =>
        have same := ((delSetcookie_first first reads).mp exact_.returns).1
        exact ⟨entry, s, rfl, reads, by rw [← setCookieFromString_name reads, same]⟩
  · rintro (absent | ⟨entry, s, first, reads, same⟩)
    · have nothing := count_eq_zero.mp absent
      have none : UnorderedMultimap.find head httpSetCookie = none := by
        rw [UnorderedMultimap.find, List.find?_eq_none]
        intro entry member
        simpa using nothing entry member
      refine ⟨false, head, (delSetcookie_absent none).mpr rfl, ?_, by simp, fun _ => .refl _⟩
      constructor
      · simp
      · rintro ⟨entry, member, here, _⟩
        exact absurd here (nothing entry member)
    · let pos := (toList head).findIdx (·.1 = httpSetCookie)
      have here : (toList head)[pos]? = some entry := (getElem?_find head httpSetCookie).trans first
      obtain ⟨inside, value⟩ := List.getElem?_eq_some_iff.mp here
      have key : entry.1 = httpSetCookie := by simpa using List.find?_some first
      have member : entry ∈ toList head := List.mem_of_find?_eq_some first
      refine ⟨true, eraseAt head pos, ?_, ?_, fun _ => ⟨entry, key, same, ?_⟩, by simp⟩
      · exact (delSetcookie_first first reads).mpr
          ⟨by rw [setCookieFromString_name reads, same], rfl⟩
      · exact ⟨fun _ => ⟨entry, member, key, same⟩, fun _ => rfl⟩
      · rw [toList_eraseAt, ← value]
        exact (List.getElem_cons_eraseIdx_perm inside).symm

omit [UnorderedMultimap σ] [ErasesAt σ] in
/-- With one `Set-Cookie` header of another name in front, `del_setcookie` does not return. -/
theorem delSetcookie_never_returns :
    ¬ ∀ (head : ListMultimap) (name : Bytes),
      ∃ result after, DeletesExactly head name result after := by
  intro always
  let head : ListMultimap := addHead empty httpSetCookie (ascii "a=1")
  have first : UnorderedMultimap.find head httpSetCookie = some (httpSetCookie, ascii "a=1") := rfl
  have reads : setCookieFromString (ascii "a=1") {} =
      .ok { value := ⟨ascii "a", ascii "1"⟩ } := by decide
  obtain ⟨result, after, exact_⟩ := always head (ascii "b")
  have same := ((delSetcookie_first first reads).mp exact_.returns).1
  exact absurd same (by decide)

end Head

end Hnw.Http
