import Hnw.Parser.Parser
import Hnw.Theory.Readings
import Hnw.Verif.Body

/-!
# Reading does not depend on the chunks

The start line and the head are read a byte at a time, the body as far as it takes. As long as
the application leaves the messages alone, a body that is being received accepts bytes in the
sense of `Body.Accepting`, and then the calls of a parser satisfy the laws of `Splits`.
-/

namespace Hnw.Parser

open Hnw.Http Hnw.Util Hnw.Theory

/-- What a kind of message must provide. -/
structure ParserKind.Lawful {ι σ : Type} (kind : ParserKind ι σ) : Prop where
  /-- A new message has no body that waits for bytes. -/
  fresh : ∀ body, kind.generate.body = some body → body.isComplete = true
  /-- A body that `auto_create_body` makes is complete or accepts. -/
  created : ∀ surroundings files message made left body,
    kind.autoCreateBody surroundings files message = some (made, left) →
      made.body = some body → body.isComplete = false → body.Accepting left.fs

/-- The states of a parser whose application leaves the messages alone. -/
structure Passive {ι σ : Type} (s : ParserState ι σ) : Prop where
  /-- The application will leave the coming messages alone. -/
  leaves : s.actions = []
  /-- Only three states have a handler that is registered. -/
  listed : s.status = .startLine ∨ s.status = .head ∨ s.status = .body
  /-- Before the body no body waits for bytes. -/
  idle : s.status ≠ .body → ∀ body, s.tmp.body = some body → body.isComplete = true
  /-- In the body there is one that accepts them. -/
  receiving : s.status = .body → ∃ body, s.tmp.body = some body ∧ body.Accepting s.files.fs

variable {ι σ : Type} {setting : Setting ι σ} {s : ParserState ι σ}

/-- A new parser is passive. -/
theorem fresh_passive (lawful : setting.kind.Lawful) (files : Files) :
    Passive (fresh setting files []) :=
  ⟨rfl, .inl rfl, fun _ => lawful.fresh, nofun⟩

/-- A parser that begins a new message is passive. -/
theorem reset_passive (lawful : setting.kind.Lawful) (leaves : s.actions = []) :
    Passive (reset setting s) :=
  ⟨leaves, .inl rfl, fun _ => lawful.fresh, nofun⟩

/-- Changes of the line, the head and the cache before the body keep a parser passive. -/
theorem Passive.edit (passive : Passive s) {status : PStatus} {line : ι} {head : σ}
    {cache : Bytes} (before : s.status ≠ .body) (stays : status = .startLine ∨ status = .head) :
    Passive { s with status, tmp := { s.tmp with line, head }, cache } := by
  refine ⟨passive.leaves, ?_, fun _ => passive.idle before, ?_⟩
  · rcases stays with rfl | rfl
    · exact .inl rfl
    · exact .inr (.inl rfl)
  · intro body
    rcases stays with rfl | rfl <;> cases body

/-- What `on_start_line` does with a byte: it changes nothing, and fails only at the end of a line
of fewer than three words; or it keeps the byte; or it takes the line and goes on to the head. -/
theorem onStartLine_cases (setting : Setting ι σ) (s : ParserState ι σ) (ch : UInt8) :
    (∃ stop, onStartLine setting s ch = ⟨s, [], 1, stop⟩ ∧
      ∀ code, stop = some (.code code) →
        ch = lf ∧ ∃ words, split s.cache space = some words ∧ words.length < 3) ∨
      onStartLine setting s ch = ⟨{ s with cache := s.cache ++ [ch] }, [], 1, none⟩ ∨
      ∃ line, onStartLine setting s ch =
        ⟨{ s with tmp := { s.tmp with line }, cache := [], status := .head }, [], 1, none⟩ := by
  unfold onStartLine
  split
  · exact .inl ⟨none, rfl, nofun⟩
  · split
    · next ends =>
      split
      · exact .inl ⟨some .fault, rfl, nofun⟩
      · next words found =>
        split
        · next few =>
          exact .inl ⟨some (.code .badStartLine), rfl, fun _ _ => ⟨ends, words, found, few⟩⟩
        · split
          · exact .inl ⟨some .fault, rfl, nofun⟩
          · next line _ => exact .inr (.inr ⟨line, rfl⟩)
    · exact .inr (.inl rfl)

/-- `on_start_line` keeps a parser passive. -/
theorem onStartLine_passive (passive : Passive s) (before : s.status = .startLine) (ch : UInt8) :
    Passive (onStartLine setting s ch).state := by
  have here : s.status ≠ .body := by simp [before]
  rcases onStartLine_cases setting s ch with ⟨_, call, _⟩ | call | ⟨_, call⟩
  · rw [call]
    exact passive
  · rw [call]
    exact passive.edit here (.inl before)
  · rw [call]
    exact passive.edit here (.inr rfl)

/-- Where the application leaves the message alone, the head event changes nothing. -/
theorem headEvent_passive (passive : Passive s) : headEvent setting s = some s := by
  rw [headEvent, passive.leaves]

/-- What the head event does to the message: nothing, or it receives the body into a file. -/
theorem headEvent_cases {handled : ParserState ι σ}
    (event : headEvent setting s = some handled) :
    handled.status = s.status ∧ (handled.tmp = s.tmp ∨ ∃ filepath flag files,
      setting.kind.recvFile setting.surroundings s.files s.tmp filepath flag =
        some (handled.tmp, files)) := by
  unfold headEvent at event
  split at event
  · cases event
    exact ⟨rfl, .inl rfl⟩
  · cases event
    exact ⟨rfl, .inl rfl⟩
  · next filepath flag _ _ =>
    obtain ⟨⟨tmp, files⟩, received, rfl⟩ := Option.map_eq_some_iff.mp event
    exact ⟨rfl, .inr ⟨filepath, flag, files, received⟩⟩

/-- What `createBody` changes: only the message's body and the files. -/
theorem createBody_cases {ready : ParserState ι σ} (made : createBody setting s = some ready) :
    ready = s ∧ s.tmp.body ≠ none ∨
      ∃ tmp files, setting.kind.autoCreateBody setting.surroundings s.files s.tmp =
        some (tmp, files) ∧ ready = { s with tmp, files } := by
  unfold createBody at made
  split at made
  · obtain ⟨⟨tmp, files⟩, created, rfl⟩ := Option.map_eq_some_iff.mp made
    exact .inr ⟨tmp, files, created, rfl⟩
  · next present =>
    cases made
    exact .inl ⟨rfl, fun none => present (.inl none)⟩

/-- A body made for a passive parser is complete or accepts. -/
theorem createBody_ready (lawful : setting.kind.Lawful) (passive : Passive s)
    (before : s.status ≠ .body) {ready : ParserState ι σ} (made : createBody setting s = some ready)
    {body : Body} (present : ready.tmp.body = some body) (open_ : body.isComplete = false) :
    body.Accepting ready.files.fs := by
  rcases createBody_cases made with ⟨rfl, _⟩ | ⟨tmp, files, created, rfl⟩
  · rw [passive.idle before body present] at open_
    cases open_
  · exact lawful.created _ _ _ _ _ body created present open_

/-- A message whose body is missing, complete or accepting is entered in a passive state. -/
theorem enterBody_passive (lawful : setting.kind.Lawful) {ready : ParserState ι σ}
    (leaves : ready.actions = []) (before : ready.status = .head)
    (accepts : ∀ body, ready.tmp.body = some body → body.isComplete = false →
      body.Accepting ready.files.fs) (events : List (Event ι σ)) :
    Passive (enterBody setting ready events).state := by
  unfold enterBody
  split
  · next missing =>
    have waits : Passive ready :=
      ⟨leaves, .inr (.inl before), by simp [missing], by simp [before]⟩
    split <;> exact waits
  · next body present =>
    split
    · exact reset_passive lawful leaves
    · next open_ =>
      exact ⟨leaves, .inr (.inr rfl), by simp, fun _ =>
        ⟨body, present, accepts body present (by simpa using open_)⟩⟩

/-- The end of the head keeps a parser passive. -/
theorem endOfHead_passive (lawful : setting.kind.Lawful) (passive : Passive s)
    (before : s.status = .head) : Passive (endOfHead setting s).state := by
  have here : s.status ≠ .body := by simp [before]
  simp only [endOfHead, headEvent_passive passive]
  cases made : createBody setting s with
  | none => exact passive
  | some ready =>
    have same : ready.actions = s.actions ∧ ready.status = s.status := by
      rcases createBody_cases made with ⟨rfl, _⟩ | ⟨tmp, files, _, rfl⟩ <;> exact ⟨rfl, rfl⟩
    exact enterBody_passive lawful (same.1.trans passive.leaves) (same.2.trans before)
      (fun body => createBody_ready lawful passive here made) _

/-- What `on_body` does with bytes for a body that accepts: it takes what is left, hands the
message over if that was all, and goes on otherwise. -/
theorem onBody_eq (setting : Setting ι σ) {s : ParserState ι σ} {body : Body}
    (present : s.tmp.body = some body) (accepting : body.Accepting s.files.fs) (data : Bytes) :
    onBody setting s data =
      let written := body.writeBody s.files.fs data
      let next := { s with tmp := { s.tmp with body := some written.2.1 },
                           files := { s.files with fs := written.2.2 } }
      if body.left ≤ data.length then push setting next [] body.left written.2.1
      else ⟨next, [], data.length, none⟩ := by
  have size := Body.writeBody_size accepting data
  have complete := Body.writeBody_complete accepting data
  simp only [onBody, present]
  by_cases full : body.left ≤ data.length
  · rw [if_pos full, if_pos (complete.mpr full), size, Nat.min_eq_right full]
  · rw [if_neg full, if_neg (fun filled => full (complete.mp filled)), size,
      Nat.min_eq_left (by omega)]

/-- `on_body` keeps a parser passive. -/
theorem onBody_passive (lawful : setting.kind.Lawful) (passive : Passive s)
    (inBody : s.status = .body) (data : Bytes) : Passive (onBody setting s data).state := by
  obtain ⟨body, present, accepting⟩ := passive.receiving inBody
  rw [onBody_eq setting present accepting]
  simp only
  split
  · exact reset_passive lawful passive.leaves
  · next room =>
    exact ⟨passive.leaves, .inr (.inr inBody), fun elsewhere => absurd inBody elsewhere, fun _ =>
      ⟨_, rfl, (Body.writeBody_accepting accepting (by omega)).1⟩⟩

/-- Bytes for a body, cut in two, are written to it as one. -/
theorem onBody_cut (setting : Setting ι σ) {body : Body} (present : s.tmp.body = some body)
    (accepting : body.Accepting s.files.fs) (first second : Bytes) :
    onBody setting s (first ++ second) = onBody setting s first ∨
      (onBody setting s first).stop = none ∧ (onBody setting s first).used = first.length ∧
        (onBody setting s first).state.status = s.status ∧
        onBody setting s (first ++ second) =
          ⟨(onBody setting (onBody setting s first).state second).state,
            (onBody setting s first).out ++
              (onBody setting (onBody setting s first).state second).out,
            first.length + (onBody setting (onBody setting s first).state second).used,
            (onBody setting (onBody setting s first).state second).stop⟩ := by
  by_cases full : body.left ≤ first.length
  · left
    have whole : body.left ≤ (first ++ second).length := by
      rw [List.length_append]
      omega
    rw [onBody_eq setting present accepting, onBody_eq setting present accepting, if_pos full,
      if_pos whole, Body.writeBody_full accepting second full]
  · right
    have room : first.length < body.left := by omega
    obtain ⟨later, rest⟩ := Body.writeBody_accepting accepting room
    have begun := onBody_eq setting present accepting first
    have both := onBody_eq setting present accepting (first ++ second)
    simp only [if_neg full] at begun
    have again := @onBody_eq _ _ setting (onBody setting s first).state
      (body.writeBody s.files.fs first).2.1 (by rw [begun]) (by rw [begun]; exact later) second
    rw [Body.writeBody_append accepting second room] at both
    rw [begun] at again ⊢
    refine ⟨rfl, rfl, rfl, ?_⟩
    rw [again, both, rest]
    simp only [List.length_append, List.nil_append]
    by_cases enough : body.left ≤ first.length + second.length
    · have enough' : body.left - first.length ≤ second.length := by omega
      have sum : first.length + (body.left - first.length) = body.left := by omega
      rw [if_pos enough, if_pos enough']
      simp only [push, reset, List.nil_append, sum]
    · have short : ¬ body.left - first.length ≤ second.length := by omega
      rw [if_neg enough, if_neg short]

/-- The end of the head uses the byte it stands on. -/
theorem endOfHead_used (s : ParserState ι σ) : (endOfHead setting s).used = 1 := by
  unfold endOfHead
  split
  · rfl
  · split
    · rfl
    · unfold enterBody
      split
      · split <;> rfl
      · split <;> rfl

/-- `on_start_line` uses one byte. -/
theorem onStartLine_used (s : ParserState ι σ) (ch : UInt8) :
    (onStartLine setting s ch).used = 1 := by
  rcases onStartLine_cases setting s ch with ⟨_, call, _⟩ | call | ⟨_, call⟩
  · rw [call]
  · rw [call]
  · rw [call]

variable [UnorderedMultimap σ]

/-- What `on_head` does with a byte: at the empty line it ends the head; else it changes nothing,
and fails only at the end of a line without a colon and a blank; or it keeps the byte; or it takes
the header. -/
theorem onHead_cases (setting : Setting ι σ) (s : ParserState ι σ) (ch : UInt8) :
    (ch = lf ∧ s.cache = [] ∧ onHead setting s ch = endOfHead setting s) ∨
      (∃ stop, onHead setting s ch = ⟨s, [], 1, stop⟩ ∧
        ∀ code, stop = some (.code code) →
          ch = lf ∧ s.cache ≠ [] ∧ ∃ parts, split s.cache headSeq = some parts ∧
            parts.length < 2) ∨
      onHead setting s ch = ⟨{ s with cache := s.cache ++ [ch] }, [], 1, none⟩ ∨
      ∃ head, onHead setting s ch =
        ⟨{ s with tmp := { s.tmp with head }, cache := [], status := .head }, [], 1, none⟩ := by
  unfold onHead
  split
  · exact .inr (.inl ⟨none, rfl, nofun⟩)
  · split
    · next ends =>
      split
      · next nothing => exact .inl ⟨ends, nothing, rfl⟩
      · next something =>
        split
        · exact .inr (.inl ⟨some .fault, rfl, nofun⟩)
        · exact .inr (.inr (.inr ⟨_, rfl⟩))
        · next parts few found =>
          have short : parts.length < 2 := by
            cases parts with
            | nil => exact Nat.zero_lt_two
            | cons key rest =>
              cases rest with
              | nil => exact Nat.one_lt_two
              | cons value rest => exact absurd rfl (few key value rest)
          exact .inr (.inl ⟨some (.code .badHeadKey), rfl, fun _ _ =>
            ⟨ends, something, parts, found, short⟩⟩)
    · exact .inr (.inr (.inl rfl))

/-- `on_head` keeps a parser passive. -/
theorem onHead_passive (lawful : setting.kind.Lawful) (passive : Passive s)
    (before : s.status = .head) (ch : UInt8) : Passive (onHead setting s ch).state := by
  have here : s.status ≠ .body := by simp [before]
  rcases onHead_cases setting s ch with ⟨_, _, call⟩ | ⟨_, call, _⟩ | call | ⟨_, call⟩
  · rw [call]
    exact endOfHead_passive lawful passive before
  · rw [call]
    exact passive
  · rw [call]
    exact passive.edit here (.inr before)
  · rw [call]
    exact passive.edit here (.inr rfl)

/-- A call of `call_parser_cb` keeps a parser passive, whatever it returns. -/
theorem callParserCb_passive (lawful : setting.kind.Lawful) (passive : Passive s) (data : Bytes) :
    Passive (callParserCb setting s data).state := by
  cases data with
  | nil => exact passive
  | cons ch rest =>
    rcases passive.listed with status | status | status <;> simp only [callParserCb, status]
    · exact onStartLine_passive passive status ch
    · exact onHead_passive lawful passive status ch
    · exact onBody_passive lawful passive status (ch :: rest)

/-! ## The laws of `Splits` -/

/-- `on_head` uses one byte. -/
theorem onHead_used (s : ParserState ι σ) (ch : UInt8) : (onHead setting s ch).used = 1 := by
  rcases onHead_cases setting s ch with ⟨_, _, call⟩ | ⟨_, call, _⟩ | call | ⟨_, call⟩
  · rw [call]
    exact endOfHead_used s
  · rw [call]
  · rw [call]
  · rw [call]

/-- A byte handler does not see the bytes behind. -/
theorem callParserCb_byte (setting : Setting ι σ) {first : Bytes} (unread : first ≠ [])
    (second : Bytes) (before : s.status = .startLine ∨ s.status = .head) :
    callParserCb setting s (first ++ second) = callParserCb setting s first ∧
      (callParserCb setting s first).used = 1 := by
  cases first with
  | nil => exact absurd rfl unread
  | cons ch rest =>
    rcases before with status | status <;> simp only [List.cons_append, callParserCb, status]
    · exact ⟨trivial, onStartLine_used s ch⟩
    · exact ⟨trivial, onHead_used s ch⟩

/-- `call_parser_cb` in the body. -/
theorem callParserCb_body (inBody : s.status = .body) {data : Bytes} (unread : data ≠ []) :
    callParserCb setting s data = onBody setting s data := by
  cases data with
  | nil => exact absurd rfl unread
  | cons ch rest => simp only [callParserCb, inBody]

/-- Bytes for a body that takes them all are read in one call. -/
theorem inputData_body (inBody : s.status = .body) {body : Body} (present : s.tmp.body = some body)
    (accepting : body.Accepting s.files.fs) {data : Bytes} (unread : data ≠ [])
    (fits : data.length ≤ body.left) :
    InputData setting s data
      ⟨(onBody setting s data).state, (onBody setting s data).out, none⟩ := by
  have same := @callParserCb_body _ _ setting s _ inBody data unread
  have all : (onBody setting s data).stop = none ∧
      (onBody setting s data).used = data.length := by
    rw [onBody_eq setting present accepting]
    simp only
    split
    · next full => exact ⟨rfl, Nat.le_antisymm full fits⟩
    · exact ⟨rfl, rfl⟩
  have read := returns_of_next (callParserCb setting) s unread (by rw [same]; exact all.1)
    (by rw [same, all.2, List.drop_length]; exact returns_nil)
  simpa [same, Outcome.after] using read

/-- The calls of a passive parser do not depend on where a chunk is cut. -/
theorem callParserCb_splits (lawful : setting.kind.Lawful) :
    Splits (callParserCb setting) Passive where
  preserves s chunk passive _ _ := callParserCb_passive lawful passive chunk
  progress s chunk passive unread _ := by
    have length := List.length_pos_iff.mpr unread
    rcases passive.listed with status | status | status
    · have byte := (callParserCb_byte setting unread [] (.inl status)).2
      omega
    · have byte := (callParserCb_byte setting unread [] (.inr status)).2
      omega
    · obtain ⟨body, present, accepting⟩ := passive.receiving status
      have room := Body.left_pos accepting
      rw [callParserCb_body status unread, onBody_eq setting present accepting]
      simp only
      split
      · exact ⟨room, by assumption⟩
      · exact ⟨length, Nat.le_refl _⟩
  cut s first second passive unread more := by
    rcases passive.listed with status | status | status
    · exact .inl (callParserCb_byte setting unread second (.inl status)).1
    · exact .inl (callParserCb_byte setting unread second (.inr status)).1
    · obtain ⟨body, present, accepting⟩ := passive.receiving status
      have both : first ++ second ≠ [] := by simp [unread]
      rw [callParserCb_body status unread, callParserCb_body status both]
      rcases onBody_cut setting present accepting first second with
        same | ⟨goes, all, kept, joined⟩
      · exact .inl same
      · right
        rw [callParserCb_body (kept.trans status) more]
        exact ⟨goes, all, joined⟩

/-- Chunks for a passive parser are one reading, unless that stops with an error code. -/
theorem inputChunks_eq (lawful : setting.kind.Lawful) (passive : Passive s) {chunks : List Bytes}
    {o : Outcome (ParserState ι σ) (Event ι σ) Stop}
    (read : InputData setting s chunks.flatten o)
    (harmless : ∀ reason, o.stop = some reason → reason.fatal = true) :
    inputChunks setting s chunks = some o :=
  (callParserCb_splits lawful).deliver_flatten passive read harmless

/-- Every reading of a passive parser returns. -/
theorem inputData_total (lawful : setting.kind.Lawful) (passive : Passive s) (data : Bytes) :
    ∃ o, InputData setting s data o := by
  obtain ⟨o, found⟩ := (callParserCb_splits lawful).feed_total passive data
  exact ⟨o, _, found⟩

/-- Every sequence of chunks for a passive parser is read. -/
theorem inputChunks_total (lawful : setting.kind.Lawful) (passive : Passive s)
    (chunks : List Bytes) : ∃ o, inputChunks setting s chunks = some o :=
  (callParserCb_splits lawful).deliver_total
    (fun _ chunk kept _ => callParserCb_passive lawful kept chunk) passive chunks

/-- One chunk puts out what its reading does. -/
theorem inputChunks_single (lawful : setting.kind.Lawful) (passive : Passive s) {data : Bytes}
    {o : Outcome (ParserState ι σ) (Event ι σ) Stop} (read : InputData setting s data o) :
    ∃ last, inputChunks setting s [data] = some last ∧ last.out = o.out :=
  (callParserCb_splits lawful).deliver_single Stop.fatal passive read

/-- Where the front of what chunks hold is read without a stop, the rest is read from there. -/
theorem inputChunks_front (lawful : setting.kind.Lawful) (passive : Passive s)
    {chunks : List Bytes} {front rest : Bytes} {middle : ParserState ι σ} {out : List (Event ι σ)}
    (read : InputData setting s front ⟨middle, out, none⟩) (cut : chunks.flatten = front ++ rest) :
    inputChunks setting s chunks =
      (inputChunks setting middle (dropSymbols front.length chunks)).map (·.after out) :=
  (callParserCb_splits lawful).deliver_front passive read cut

/-! ## Bodies of a known length -/

/-- A call of a state handler takes so many bytes as the end of a message, hands the message over
and begins the next one. -/
structure HandsOver (setting : Setting ι σ) (call : Call ι σ) (used : Nat) : Prop where
  /-- The message is all that is handed over. -/
  out : ∃ line head body, call.out = [.recv line head body]
  /-- It ends behind these bytes. -/
  used : call.used = used
  /-- The reading goes on. -/
  goes : call.stop = none
  /-- With a start line, -/
  status : call.state.status = .startLine
  /-- of which nothing is read, -/
  cache : call.state.cache = []
  /-- of a new message. -/
  tmp : call.state.tmp = setting.kind.generate

/-- The parser takes exactly `n` bytes as the rest of its message, in whatever chunks they come:
fewer bytes are no message, the last of them hands the message over, and the next message starts
right after them. -/
def TakesExactly (setting : Setting ι σ) (s : ParserState ι σ) (n : Nat) : Prop :=
  ∀ chunks : List Bytes, chunks.flatten.length < n →
    ∃ later, inputChunks setting s chunks = some ⟨later, [], none⟩ ∧ later.status = .body ∧
      ∀ data more : Bytes, data ≠ [] → chunks.flatten.length + data.length = n →
        HandsOver setting (callParserCb setting later (data ++ more)) data.length

/-- A chunk that leaves room in the body is taken and not handed over. -/
theorem feed_body (inBody : s.status = .body) {body : Body} (present : s.tmp.body = some body)
    (accepting : body.Accepting s.files.fs) {chunk : Bytes} (room : chunk.length < body.left) :
    ∃ later next, feed (callParserCb setting) (chunk.length + 1) s chunk =
        some ⟨later, [], none⟩ ∧
      later.status = .body ∧ later.tmp.body = some next ∧ next.Accepting later.files.fs ∧
      next.left = body.left - chunk.length := by
  by_cases unread : chunk = []
  · subst unread
    exact ⟨s, body, feed_nil 1, inBody, present, accepting, rfl⟩
  · obtain ⟨later, left⟩ := Body.writeBody_accepting accepting room
    have call := @callParserCb_body _ _ setting s _ inBody chunk unread
    rw [onBody_eq setting present accepting] at call
    simp only [if_neg (Nat.not_le_of_lt room)] at call
    have read := @feed_of_next _ _ _ _ (callParserCb setting) s chunk chunk.length unread
      (by rw [call])
    rw [call, List.drop_length, feed_nil] at read
    exact ⟨_, _, read, inBody, rfl, later, left⟩

/-- Chunks that leave room in the body are taken and not handed over. -/
theorem inputChunks_body (inBody : s.status = .body) {body : Body}
    (present : s.tmp.body = some body) (accepting : body.Accepting s.files.fs)
    {chunks : List Bytes} (room : chunks.flatten.length < body.left) :
    ∃ later next, inputChunks setting s chunks = some ⟨later, [], none⟩ ∧
      later.status = .body ∧ later.tmp.body = some next ∧ next.Accepting later.files.fs ∧
      next.left = body.left - chunks.flatten.length := by
  induction chunks generalizing s body with
  | nil => exact ⟨s, body, rfl, inBody, present, accepting, rfl⟩
  | cons chunk chunks ih =>
    rw [List.flatten_cons, List.length_append] at room ⊢
    obtain ⟨middle, begun, first, status, found, accepts, left⟩ :=
      @feed_body _ _ setting s _ inBody _ present accepting chunk (by omega)
    obtain ⟨later, next, rest, done⟩ := ih status found accepts (by omega)
    refine ⟨later, next, ?_, done.1, done.2.1, done.2.2.1, by omega⟩
    rw [inputChunks, deliver, first]
    show (inputChunks setting middle chunks).map _ = _
    rw [rest]
    rfl

/-- A parser whose body accepts takes exactly the bytes that are left of it. -/
theorem takesExactly_of_accepting (inBody : s.status = .body) {body : Body}
    (present : s.tmp.body = some body) (accepting : body.Accepting s.files.fs) :
    TakesExactly setting s body.left := by
  intro chunks room
  obtain ⟨later, next, read, status, found, accepts, left⟩ :=
    @inputChunks_body _ _ setting s _ inBody _ present accepting chunks room
  refine ⟨later, read, status, fun data more unread all => ?_⟩
  have both : data ++ more ≠ [] := by simp [unread]
  have full : next.left = data.length := by omega
  have fits : data.length ≤ (data ++ more).length := by
    rw [List.length_append]
    omega
  rw [callParserCb_body status both, onBody_eq setting found accepts]
  simp only [full, if_pos fits]
  exact ⟨⟨_, _, _, rfl⟩, rfl, rfl, rfl, rfl, rfl⟩

/-! ## The two kinds of message -/

/-- A request is created with a body that is complete at once, whatever it is sent. -/
theorem httpRequestParser_lawful : (@httpRequestParser σ _).Lawful where
  fresh body made := by
    cases made
    rfl
  created _ _ message made left body created present waits := by
    simp only [httpRequestParser, Request.autoCreateBody] at created
    split at created
    · cases created
      cases present
      exact RawBody.generateSized_accepting waits
    · cases created

/-- A response is created without a body. -/
theorem httpResponseParser_lawful : (@httpResponseParser σ _).Lawful where
  fresh body made := by cases made
  created surroundings files message made left body created present waits := by
    simp only [httpResponseParser, Response.autoCreateBody] at created
    split at created
    · cases created
      cases present
      exact RawBody.generateSized_accepting waits
    · cases created
      obtain ⟨opened, made, rfl⟩ := Option.map_eq_some_iff.mp present
      exact FileBody.generate_accepting (Prod.ext made rfl) (by decide) rfl

/-- A new response parser is passive. -/
theorem freshResponse_passive (surroundings : Surroundings) (holds : Bool) (files : Files) :
    Passive (fresh ⟨@httpResponseParser σ _, surroundings, holds⟩ files []) :=
  fresh_passive httpResponseParser_lawful files

/-- Every reading of a new response parser returns. -/
theorem freshResponse_reads (surroundings : Surroundings) (holds : Bool) (files : Files)
    (data : Bytes) :
    ∃ o, InputData ⟨@httpResponseParser σ _, surroundings, holds⟩
      (fresh ⟨httpResponseParser, surroundings, holds⟩ files []) data o :=
  inputData_total httpResponseParser_lawful (freshResponse_passive surroundings holds files) data

/-! ## Chunking independence -/

/-- The states of a parser that was only ever fed bytes, while the application took these actions
in the head events. An error code does not keep the caller from feeding on. -/
inductive Fed (setting : Setting ι σ) (actions : List HeadAction) : ParserState ι σ → Prop where
  | fresh (files : Files) : Fed setting actions (fresh setting files actions)
  | input {s : ParserState ι σ} {data : Bytes}
      {o : Outcome (ParserState ι σ) (Event ι σ) Stop} (fed : Fed setting actions s)
      (read : InputData setting s data o) (survived : o.stop ≠ some .fault) :
      Fed setting actions o.state

/-- A parser that was fed bytes for an application that leaves the messages alone is passive. -/
theorem Fed.passive (lawful : setting.kind.Lawful) (fed : Fed setting [] s) : Passive s := by
  induction fed with
  | fresh files => exact fresh_passive lawful files
  | input _ read _ ih =>
    exact read.invariant (fun _ chunk passive _ => callParserCb_passive lawful passive chunk) ih

/-- The readings of a parser, call by call, while the application takes these actions in the head
events. -/
abbrev parserReadings (setting : Setting ι σ) (actions : List HeadAction) :
    System (Reading (ParserState ι σ) UInt8) (ReadingLabel UInt8) :=
  readings (callParserCb setting) Stop.fatal fun s => ∃ files, s = fresh setting files actions

/-- What a parser that was fed bytes is in is reached by its calls. -/
theorem Fed.reachable {actions : List HeadAction} (fed : Fed setting actions s) :
    (parserReadings setting actions).Reachable ⟨s, []⟩ := by
  induction fed with
  | fresh files => exact ⟨_, [], ⟨⟨files, rfl⟩, rfl⟩, .nil _⟩
  | @input s data o _ read survived ih =>
    apply reachable_returns ih read
    cases stop : o.stop with
    | none => rfl
    | some reason =>
      cases reason with
      | code code => rfl
      | fault => exact absurd stop survived

/-- `input_data` of two chunks as one does what it does of the first and then, if and only if
that returned `HNW_BASE_OK`, of the second: the same events, the same return code, the same last
state. -/
def ChunkingIndependent (setting : Setting ι σ) : Prop :=
  ∀ s, Fed setting [] s → ∀ a b : Bytes, ∃ first, InputData setting s a first ∧
    (first.stop = none → ∃ second, InputData setting first.state b second ∧
      InputData setting s (a ++ b) (second.after first.out)) ∧
    (first.stop ≠ none → InputData setting s (a ++ b) first)

/-- A parser of a lawful kind does not depend on the chunks. -/
theorem chunkingIndependent_of_lawful (lawful : setting.kind.Lawful) :
    ChunkingIndependent setting := by
  intro s fed a b
  have laws := callParserCb_splits lawful
  have passive := fed.passive lawful
  obtain ⟨first, found⟩ := laws.feed_total passive a
  have read : InputData setting s a first := ⟨_, found⟩
  refine ⟨first, read, fun ok => ?_, fun stopped => ?_⟩
  · obtain ⟨second, later⟩ := laws.feed_total (laws.returns_inv passive read ok) b
    exact ⟨second, ⟨_, later⟩, laws.returns_append passive read ok ⟨_, later⟩⟩
  · exact laws.returns_append_stop b passive read stopped

/-- Neither parser depends on how its bytes are cut into chunks, whatever the bytes are. -/
theorem parsers_chunkingIndependent (surroundings : Surroundings) (holds : Bool) :
    ChunkingIndependent (⟨httpRequestParser, surroundings, holds⟩ : Setting RequestLine σ) ∧
      ChunkingIndependent (⟨httpResponseParser, surroundings, holds⟩ : Setting ResponseLine σ) :=
  ⟨chunkingIndependent_of_lawful httpRequestParser_lawful,
    chunkingIndependent_of_lawful httpResponseParser_lawful⟩

end Hnw.Parser
