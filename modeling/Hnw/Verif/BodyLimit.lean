import Hnw.Verif.PartialFile

/-!
# The limit of bodies in memory

`auto_create_body` compares the signed `Content-Length` with the limit and hands it over as an
unsigned capacity. A length below zero passes the comparison and is the largest capacity there is.
-/

namespace Hnw.Parser

open Hnw.Http Hnw.Util Hnw.Theory

variable {σ : Type}

/-- What holds between two calls as long as no length is below zero. -/
structure LimitInv (s : ParserState ResponseLine σ) : Prop where
  /-- The application leaves the messages alone. -/
  passive : Passive s
  /-- A body is made when the head ends. -/
  before : s.status ≠ .body → s.tmp.body = none
  /-- Its capacity. -/
  capacity : ∀ raw, s.tmp.body = some (.raw raw) → (raw.maximumCapacity : Int) ≤ rawBodyLimit

/-- A state without a body has none that is too large. -/
theorem LimitInv.of_none {s : ParserState ResponseLine σ} (passive : Passive s)
    (none : s.tmp.body = none) : LimitInv s :=
  ⟨passive, fun _ => none, fun raw present => by rw [none] at present; cases present⟩

variable [UnorderedMultimap σ]

/-- The body that a response is received into in memory holds no more than the limit, has no
larger capacity, and in the body at least one byte and at most so many are still to come. -/
def WithinLimit (setting : Setting ResponseLine σ) (s : ParserState ResponseLine σ) : Prop :=
  ∀ raw, s.tmp.body = some (.raw raw) →
    (raw.body.length : Int) ≤ rawBodyLimit ∧ (raw.maximumCapacity : Int) ≤ rawBodyLimit ∧
      (s.status = .body → ∃ remaining : Nat, 1 ≤ remaining ∧ (remaining : Int) ≤ rawBodyLimit ∧
        TakesExactly setting s remaining)

/-- A call that ends a head ends one whose `Content-Length` is not below zero. -/
def NonNegative (r : Reading (ParserState ResponseLine σ) UInt8) : ReadingLabel UInt8 → Prop
  | .chunk _ => True
  | .call =>
    r.state.status = .head → r.state.cache = [] → r.unread.head? = some lf →
      0 ≤ r.state.tmp.declaredSize

/-- A response parser for an application that leaves the messages alone. -/
abbrev responseSetting (surroundings : Surroundings) (holds : Bool) : Setting ResponseLine σ :=
  ⟨httpResponseParser, surroundings, holds⟩

variable {surroundings : Surroundings} {holds : Bool} {s : ParserState ResponseLine σ}

/-- The end of a head makes a body whose capacity is the length. -/
theorem endOfHead_limit (inv : LimitInv s) (inHead : s.status = .head)
    (nonNegative : 0 ≤ s.tmp.declaredSize) :
    LimitInv (endOfHead (responseSetting surroundings holds) s).state := by
  have passive := @endOfHead_passive _ _ (responseSetting surroundings holds) s
    httpResponseParser_lawful inv.passive inHead
  have missing : s.tmp.body = none := inv.before (by simp [inHead])
  revert passive
  simp only [endOfHead, headEvent_passive inv.passive]
  cases made : createBody (responseSetting surroundings holds) s with
  | none => exact fun passive => .of_none passive missing
  | some ready =>
    obtain ⟨_, some_⟩ | ⟨tmp, files, created, rfl⟩ := createBody_cases made
    · exact absurd missing some_
    · simp only [enterBody]
      split
      · next none =>
        exact fun passive => .of_none passive none
      · next body present =>
        split
        · exact fun passive => .of_none passive rfl
        · refine fun passive => ⟨passive, fun elsewhere => absurd rfl elsewhere, ?_⟩
          intro raw same
          simp only [httpResponseParser, Response.autoCreateBody] at created
          split at created
          · next fits =>
            cases created
            cases same
            simp only [RawBody.generateSized]
            have limit : rawBodyLimit = 10485760 := rfl
            omega
          · cases created
            obtain ⟨_, _, other⟩ := Option.map_eq_some_iff.mp same
            cases other

/-- `on_head` at a byte that does not end the head leaves the body alone. -/
theorem onHead_body {ch : UInt8} (goes : ch = lf → s.cache ≠ []) :
    (onHead (responseSetting surroundings holds) s ch).state.tmp.body = s.tmp.body := by
  rcases onHead_cases (responseSetting surroundings holds) s ch with
    ⟨ends, nothing, _⟩ | ⟨_, call, _⟩ | call | ⟨_, call⟩
  · exact absurd nothing (goes ends)
  · rw [call]
  · rw [call]
  · rw [call]

/-- `on_head` keeps the limit. -/
theorem onHead_limit (inv : LimitInv s) (inHead : s.status = .head) (ch : UInt8)
    (nonNegative : s.cache = [] → ch = lf → 0 ≤ s.tmp.declaredSize) :
    LimitInv (onHead (responseSetting surroundings holds) s ch).state := by
  by_cases ends : ch = lf ∧ s.cache = []
  · obtain ⟨rfl, empty⟩ := ends
    have other : lf ≠ cr := by decide
    rw [onHead, if_neg other, if_pos rfl, if_pos empty]
    exact endOfHead_limit inv inHead (nonNegative empty rfl)
  · have missing : s.tmp.body = none := inv.before (by simp [inHead])
    apply LimitInv.of_none (onHead_passive httpResponseParser_lawful inv.passive inHead ch)
    rw [onHead_body fun same empty => ends ⟨same, empty⟩, missing]

/-- `on_start_line` leaves the body alone. -/
theorem onStartLine_body (ch : UInt8) :
    (onStartLine (responseSetting surroundings holds) s ch).state.tmp.body = s.tmp.body := by
  rcases onStartLine_cases (responseSetting surroundings holds) s ch with
    ⟨_, call, _⟩ | call | ⟨_, call⟩
  · rw [call]
  · rw [call]
  · rw [call]

/-- `on_body` keeps the limit: a write leaves the capacity alone. -/
theorem onBody_limit (inv : LimitInv s) (inBody : s.status = .body) (data : Bytes) :
    LimitInv (onBody (responseSetting surroundings holds) s data).state := by
  have passive := @onBody_passive _ _ (responseSetting surroundings holds) s
    httpResponseParser_lawful inv.passive inBody data
  obtain ⟨body, present, accepting⟩ := inv.passive.receiving inBody
  rw [onBody_eq _ present accepting] at passive ⊢
  revert passive
  simp only
  split
  · exact fun passive => .of_none passive rfl
  · refine fun passive => ⟨passive, fun elsewhere => absurd inBody elsewhere, fun raw same => ?_⟩
    cases body with
    | raw old =>
      cases same
      exact inv.capacity old present
    | file old => cases same
    | empty => cases same

/-- A call keeps the limit unless it ends a head with a length below zero. -/
theorem callParserCb_limit (inv : LimitInv s) {data : Bytes}
    (nonNegative : NonNegative ⟨s, data⟩ .call) :
    LimitInv (callParserCb (responseSetting surroundings holds) s data).state := by
  cases data with
  | nil => exact inv
  | cons ch rest =>
    have passive := @callParserCb_passive _ _ (responseSetting surroundings holds) s _
      httpResponseParser_lawful inv.passive (ch :: rest)
    rcases inv.passive.listed with status | status | status <;>
      simp only [callParserCb, status] at passive ⊢
    · apply LimitInv.of_none passive
      rw [onStartLine_body, inv.before (by simp [status])]
    · apply onHead_limit inv status ch
      rintro empty rfl
      exact nonNegative status empty rfl
    · exact onBody_limit inv status (ch :: rest)

/-- Below zero nothing else is too large: what holds between the calls is the limit. -/
theorem LimitInv.within (inv : LimitInv s) :
    WithinLimit (responseSetting surroundings holds) s := by
  intro raw present
  have inBody : s.status = .body := by
    by_contra elsewhere
    rw [inv.before elsewhere] at present
    cases present
  obtain ⟨body, same, accepting⟩ := inv.passive.receiving inBody
  have capacity := inv.capacity raw present
  have takes := @takesExactly_of_accepting _ _ (responseSetting surroundings holds) s _ inBody body
    same accepting
  have some_ := Body.left_pos accepting
  rw [present, Option.some.injEq] at same
  subst same
  have room := RawBody.Accepting.room accepting
  have left : Body.left (.raw raw) = raw.maximumCapacity - raw.writePos := rfl
  exact ⟨by omega, capacity, fun _ => ⟨_, some_, by omega, takes⟩⟩

/-- In every run of calls in which no head ends with a length below zero, the limit holds in every
state that is reached. -/
theorem withinLimit_of_nonNegative (surroundings : Surroundings) (holds : Bool)
    {r : Reading (ParserState ResponseLine σ) UInt8}
    (reached : (parserReadings (responseSetting surroundings holds) []).ReachableWith
      NonNegative r) :
    WithinLimit (responseSetting surroundings holds) r.state := by
  have inv : LimitInv r.state := by
    refine reached.invariant (P := fun r => LimitInv r.state) ?_ ?_
    · rintro first ⟨⟨files, same⟩, _⟩
      rw [same]
      exact .of_none (fresh_passive httpResponseParser_lawful files) rfl
    · intro first label next inv guard step
      cases label with
      | chunk data =>
        obtain ⟨_, rfl⟩ := step
        exact inv
      | call =>
        obtain ⟨_, _, rfl⟩ := step
        exact callParserCb_limit inv guard
  exact inv.within

/-- A response parser under Linux for an application that leaves the messages alone. -/
def memorySetting : Setting ResponseLine ListMultimap :=
  responseSetting ⟨linux, fun _ => []⟩ false

/-- A new parser with a response of a body of two bytes, one of which is there. -/
def twoBytes : Reading (ParserState ResponseLine ListMultimap) UInt8 where
  state := fresh memorySetting ⟨fun _ => none, 0⟩ []
  unread := ascii "HTTP/1.1 200 OK" ++ crlf ++ ascii "Content-Length: 2" ++ crlf ++ crlf ++
    ascii "a"

/-- The two bytes are announced with no length below zero, and the parser is in the body. -/
theorem withinLimit_twoBytes :
    (twoBytes.calls (callParserCb memorySetting) 39).state.status = .body ∧
      WithinLimit memorySetting (twoBytes.calls (callParserCb memorySetting) 39).state := by
  have meets : ∀ k < 39, NonNegative (twoBytes.calls (callParserCb memorySetting) k) .call ∧
      (twoBytes.calls (callParserCb memorySetting) k).unread ≠ [] ∧
      (callParserCb memorySetting (twoBytes.calls (callParserCb memorySetting) k).state
        (twoBytes.calls (callParserCb memorySetting) k).unread).stop.any Stop.fatal = false := by
    unfold NonNegative
    decide +kernel
  refine ⟨by decide +kernel, withinLimit_of_nonNegative ⟨linux, fun _ => []⟩ false ?_⟩
  obtain ⟨labels, run⟩ := run_of_calls meets
  have given : (parserReadings memorySetting []).step ⟨twoBytes.state, []⟩
      (.chunk twoBytes.unread) twoBytes := ⟨rfl, rfl⟩
  have free : NonNegative ⟨twoBytes.state, []⟩ (.chunk twoBytes.unread) := trivial
  exact ⟨_, _, ⟨⟨_, rfl⟩, rfl⟩, .cons free given run⟩

/-- The head of a response whose `Content-Length` is below zero. -/
def negativeHead :
    Option (Outcome (ParserState ResponseLine ListMultimap) (Event ResponseLine ListMultimap)
      Stop) :=
  feed (callParserCb memorySetting) 60 (fresh memorySetting ⟨fun _ => none, 0⟩ [])
    (ascii "HTTP/1.1 200 OK" ++ crlf ++ ascii "Content-Length: -1" ++ crlf ++ crlf)

/-- A length of `-1` makes the largest body there is. -/
theorem negativeHead_eq :
    negativeHead.map (fun o => (o.stop, o.state.tmp.body)) =
      some (none, some (.raw (RawBody.generateSized (-1)))) := by
  decide +kernel

/-- A length below zero passes the limit. -/
theorem negative_not_withinLimit :
    ¬ ∀ r, (parserReadings memorySetting []).Reachable r → WithinLimit memorySetting r.state := by
  intro always
  obtain ⟨o, found, here⟩ := Option.map_eq_some_iff.mp negativeHead_eq
  rw [Prod.mk.injEq] at here
  have fed : Fed memorySetting [] o.state :=
    .input (.fresh _) ⟨60, found⟩ (by simp [here.1])
  have capacity := (always _ fed.reachable _ here.2).2.1
  exact absurd capacity (by decide)

end Hnw.Parser
