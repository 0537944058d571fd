import Hnw.Base.AsioSend

/-!
# Short writes

The handler of a short write passes the rest of the length on but offers the buffer from its
beginning again. The wire therefore carries the buffer exactly when every later piece happens to
repeat the beginning of the buffer, and the narrowing of the rest to an `int` loses nothing.
-/

namespace Hnw.Base

variable {channel : ClientChannel} {block : Bytes} {later : List Bytes} {last : List SendEvent}
  {answers : List Nat}

/-- The block is sent whole, once, and `complete` runs once, after it. -/
def SentOnce (events : List SendEvent) (block : Bytes) : Prop :=
  ∃ before, events = before ++ [.complete] ∧ .complete ∉ before ∧ .outOfBounds ∉ before ∧
    wire before = block

/-- Each piece accepted after a short write repeats the beginning of the block it belongs to, and
each rest left by one is within the range of `int`. `sent` bytes of the block were accepted
before; the chunks of `later` follow it. -/
def Repeats : Bytes → Nat → List Bytes → List Nat → Prop
  | _, _, _, [] => True
  | block, sent, later, s :: answers =>
    (0 < sent → (block.drop sent).take s = block.take s) ∧
      if sent + s < block.length then
        block.length - (sent + s) < 2 ^ 31 ∧ Repeats block (sent + s) later answers
      else
        match later with
        | [] => True
        | chunk :: rest => Repeats chunk 0 rest answers

/-- `Repeats` for a list of chunks sent one after another. -/
def RepeatsAll : List Bytes → List Nat → Prop
  | [], _ => True
  | chunk :: later, answers => Repeats chunk 0 later answers

/-- What a function called at the end of a block goes on with: the chunks of a callback, or
nothing but the call of `complete`. -/
inductive Continues (channel : ClientChannel) :
    Option Complete → List Bytes → List SendEvent → Prop where
  | call : Continues channel (some .call) [] [.complete]
  | next {buff : Bytes} {later : List Bytes} (whole : buff.length = channel.sendBuffSize)
      (small : channel.sendBuffSize < 2 ^ 63)
      (chunks : ∀ chunk ∈ later, chunk ≠ [] ∧ chunk.length ≤ channel.sendBuffSize) :
      Continues channel (some (.next buff channel.sendBuffSize later)) later []

/-- A pending write has `sent` bytes of its block behind it and offers as many as are left. -/
structure Sends (channel : ClientChannel) (block : Bytes) (later : List Bytes)
    (last : List SendEvent) (sent : Nat) (write : PendingWrite) : Prop where
  offered : sent + write.buffLen = block.length
  positive : 0 < write.buffLen
  buffer : write.buff.take block.length = block
  small : write.buff.length < 2 ^ 63
  continues : Continues channel write.complete later last

@[simp] theorem wire_nil : wire [] = [] := rfl

@[simp] theorem wire_append (first second : List SendEvent) :
    wire (first ++ second) = wire first ++ wire second := by
  simp [wire]

@[simp] theorem wire_wrote (bytes : Bytes) (rest : List SendEvent) :
    wire (.wrote bytes :: rest) = bytes ++ wire rest := by
  simp [wire]

@[simp] theorem wire_sendData (rest : List SendEvent) : wire (.sendData :: rest) = wire rest := by
  simp [wire]

@[simp] theorem wire_outOfBounds (rest : List SendEvent) :
    wire (.outOfBounds :: rest) = wire rest := by
  simp [wire]

@[simp] theorem wire_complete (rest : List SendEvent) : wire (.complete :: rest) = wire rest := by
  simp [wire]

@[simp] theorem answered_none : answered channel none answers = [] := by
  cases answers <;> rfl

/-- The end of the last block puts nothing on the wire. -/
theorem Continues.wire_last {complete : Option Complete}
    (continues : Continues channel complete later last) : wire last = [] := by
  cases continues <;> rfl

/-- A rest within the range of `int` is passed on as it is. -/
theorem nowLen_exact {buffLen s : Nat} (small : buffLen - s < 2 ^ 31) :
    nowLen buffLen s = buffLen - s := by
  have bits : (buffLen - s) % 2 ^ 32 = buffLen - s := Nat.mod_eq_of_lt (by omega)
  simp only [nowLen, bits, if_pos small]

/-- A rest that is passed on as less than an object's size is never passed on as more. -/
theorem nowLen_le {buffLen s : Nat} (small : nowLen buffLen s < 2 ^ 63) :
    nowLen buffLen s ≤ buffLen - s ∧ nowLen buffLen s < 2 ^ 31 := by
  have bits := Nat.mod_le (buffLen - s) (2 ^ 32)
  by_cases low : (buffLen - s) % 2 ^ 32 < 2 ^ 31
  · simp only [nowLen, if_pos low] at small ⊢
    omega
  · simp only [nowLen, if_neg low] at small
    omega

/-- Laying a chunk over a buffer keeps the buffer's length. -/
theorem overlay_length {chunk buff : Bytes} (fits : chunk.length ≤ buff.length) :
    (chunk ++ buff.drop chunk.length).length = buff.length := by
  rw [List.length_append, List.length_drop]
  omega

/-- A chunk laid over the callback's buffer is offered whole. -/
theorem asyncSendData_chunk {chunk buff : Bytes} (connected : channel.bconn = true)
    (small : channel.sendBuffSize < 2 ^ 63) (whole : buff.length = channel.sendBuffSize)
    (chunks : ∀ c ∈ chunk :: later, c ≠ [] ∧ c.length ≤ channel.sendBuffSize) :
    ∃ write, asyncSendData channel (chunk ++ buff.drop chunk.length) chunk.length 0
        (some (.next (chunk ++ buff.drop chunk.length) channel.sendBuffSize later)) =
          ([], some write) ∧ Sends channel chunk later [] 0 write := by
  obtain ⟨nonempty, fits⟩ := chunks chunk (by simp)
  have positive : 0 < chunk.length := List.length_pos_iff.mpr nonempty
  have kept : (chunk ++ buff.drop chunk.length).length = channel.sendBuffSize := by
    rw [overlay_length (by omega), whole]
  refine ⟨⟨chunk ++ buff.drop chunk.length, chunk.length, 0,
    some (.next (chunk ++ buff.drop chunk.length) channel.sendBuffSize later)⟩, ?_, ?_⟩
  · rw [asyncSendData, if_neg (by simp [connected]), if_neg (by omega)]
  · exact ⟨Nat.zero_add _, positive, by simp, by rw [kept]; exact small,
      .next kept small fun c member => chunks c (by simp [member])⟩

/-- The callback overload, called without a buffer, offers the first chunk whole. -/
theorem asyncSendCb_fresh {chunk : Bytes} (connected : channel.bconn = true)
    (alloc : channel.makeShared = true) (small : channel.sendBuffSize < 2 ^ 63)
    (chunks : ∀ c ∈ chunk :: later, c ≠ [] ∧ c.length ≤ channel.sendBuffSize) :
    ∃ write, asyncSendCb channel none 0 (chunk :: later) = ([], some write) ∧
      Sends channel chunk later [] 0 write := by
  have nonempty : chunk ≠ [] := (chunks chunk (by simp)).1
  obtain ⟨write, reached, sends⟩ :=
    asyncSendData_chunk connected small List.length_replicate chunks
  exact ⟨write, by simpa [asyncSendCb, connected, alloc, nonempty] using reached, sends⟩

/-- At the end of the last block nothing is left pending. -/
theorem callComplete_nil {complete : Option Complete} (connected : channel.bconn = true)
    (continues : Continues channel complete [] last) :
    callComplete channel complete = (last, none) := by
  cases continues with
  | call => rfl
  | next whole small chunks => simp [callComplete, asyncSendCb, connected]

/-- At the end of a block the next chunk is offered whole. -/
theorem callComplete_cons {complete : Option Complete} {chunk : Bytes}
    (connected : channel.bconn = true)
    (continues : Continues channel complete (chunk :: later) last) :
    ∃ write, callComplete channel complete = ([], some write) ∧
      Sends channel chunk later last 0 write := by
  cases continues with
  | next whole small chunks =>
    have nonempty : chunk ≠ [] := (chunks chunk (by simp)).1
    obtain ⟨write, reached, sends⟩ := asyncSendData_chunk connected small whole chunks
    exact ⟨write, by simpa [callComplete, asyncSendCb, connected, nonempty] using reached, sends⟩

/-- After the last byte of a block the transport runs what follows it. -/
theorem written_of_eq (channel : ClientChannel) (write : PendingWrite) :
    written channel write write.buffLen =
      (.wrote (write.buff.take write.buffLen) :: (callComplete channel write.complete).1,
        (callComplete channel write.complete).2) := by
  simp [written, sendHandler]

/-- After a short write the rest is sent through `async_send`. -/
theorem written_of_lt (channel : ClientChannel) {write : PendingWrite} {s : Nat}
    (short : s < write.buffLen) :
    written channel write s =
      (.wrote (write.buff.take s) ::
          (asyncSend channel (some write.buff) (nowLen write.buffLen s) (write.beg + s)
            write.complete).1,
        (asyncSend channel (some write.buff) (nowLen write.buffLen s) (write.beg + s)
          write.complete).2) := by
  simp [written, sendHandler, Nat.not_le.mpr short]

namespace Sends

variable {sent s : Nat} {write : PendingWrite}

/-- A short write whose rest is within the range of `int` leaves that rest pending. -/
theorem short (sends : Sends channel block later last sent write)
    (connected : channel.bconn = true) (less : sent + s < block.length)
    (rest : block.length - (sent + s) < 2 ^ 31) :
    ∃ next, written channel write s = ([.wrote (write.buff.take s)], some next) ∧
      Sends channel block later last (sent + s) next := by
  have offered := sends.offered
  have room : block.length ≤ write.buff.length := by
    have length := congrArg List.length sends.buffer
    rw [List.length_take] at length
    omega
  have exact : nowLen write.buffLen s = write.buffLen - s := nowLen_exact (by omega)
  refine ⟨{ write with buffLen := write.buffLen - s, beg := write.beg + s }, ?_, ?_⟩
  · rw [written_of_lt channel (by omega), exact]
    simp only [asyncSend]
    rw [if_neg (by omega), asyncSendData, if_neg (by simp [connected]), if_neg (by omega)]
  · exact ⟨by simp only; omega, by simp only; omega, sends.buffer, sends.small, sends.continues⟩

end Sends

/-- Nothing is reported but the bytes taken, then what the last block ends with. -/
def Reports (events last : List SendEvent) (bytes : Bytes) : Prop :=
  ∃ before, events = before ++ last ∧ .complete ∉ before ∧ .outOfBounds ∉ before ∧
    wire before = bytes

/-- A report that begins with accepted bytes. -/
theorem Reports.wrote {events : List SendEvent} {bytes : Bytes} (piece : Bytes)
    (reports : Reports events last bytes) :
    Reports (.wrote piece :: events) last (piece ++ bytes) := by
  obtain ⟨before, rfl, once, inside, sent⟩ := reports
  exact ⟨.wrote piece :: before, rfl, by simp [once], by simp [inside], by simp [sent]⟩

/-- The rest of a block is its next piece and what follows that. -/
theorem piece_append {write : PendingWrite} {sent s : Nat}
    (sends : Sends channel block later last sent write) (inside : sent + s ≤ block.length)
    (piece : 0 < sent → (block.drop sent).take s = block.take s) :
    write.buff.take s ++ block.drop (sent + s) = block.drop sent := by
  have taken : write.buff.take s = block.take s := by
    conv_rhs => rw [← sends.buffer, List.take_take]
    rw [Nat.min_eq_left (by omega)]
  have same : (block.drop sent).take s = block.take s := by
    rcases Nat.eq_zero_or_pos sent with zero | positive
    · simp [zero]
    · exact piece positive
  rw [taken, ← same, ← List.drop_drop, List.take_append_drop]

/-- Where every piece repeats the beginning of its block, the blocks go out whole. -/
theorem reports_of_repeats (connected : channel.bconn = true) {sent : Nat} {write : PendingWrite}
    (sends : Sends channel block later last sent write)
    (accepts : Accepts channel (some write) answers) (repeats : Repeats block sent later answers) :
    Reports (answered channel (some write) answers) last (block.drop sent ++ later.flatten) := by
  induction answers generalizing block sent later write with
  | nil => exact accepts.elim
  | cons s answers ih =>
    obtain ⟨⟨_, inside⟩, accepts⟩ := accepts
    obtain ⟨piece, repeats⟩ := repeats
    have offered := sends.offered
    rw [answered, ← piece_append sends (by omega) piece, List.append_assoc]
    by_cases less : sent + s < block.length
    · rw [if_pos less] at repeats
      obtain ⟨next, reached, goes⟩ := sends.short connected less repeats.1
      rw [reached] at accepts ⊢
      exact (ih goes accepts repeats.2).wrote _
    · have all : s = write.buffLen := by omega
      rw [if_neg less] at repeats
      rw [all, written_of_eq] at accepts ⊢
      rw [List.drop_eq_nil_of_le (by omega), List.nil_append]
      cases later with
      | nil =>
        rw [callComplete_nil connected sends.continues, answered_none]
        exact ⟨[.wrote (write.buff.take write.buffLen)], by simp, by simp, by simp, by simp⟩
      | cons chunk rest =>
        obtain ⟨next, reached, goes⟩ := callComplete_cons connected sends.continues
        rw [reached] at accepts ⊢
        simpa using (ih goes accepts repeats).wrote _

/-! ## No accident repairs a wrong rest -/

/-- Whatever write is pending, it and what follows put no more on the wire than was meant. -/
def Bounded (channel : ClientChannel) (answers : List Nat) : Prop :=
  ∀ (later : List Bytes) (last : List SendEvent) (write : PendingWrite),
    write.buff.length < 2 ^ 63 → Continues channel write.complete later last →
      Accepts channel (some write) answers →
        (wire (answered channel (some write) answers)).length ≤
          write.buffLen + later.flatten.length

/-- What `complete` leads to adds at most the chunks that are left. -/
theorem callComplete_le (bounded : Bounded channel answers) (connected : channel.bconn = true)
    {complete : Option Complete} (continues : Continues channel complete later last)
    (accepts : Accepts channel (callComplete channel complete).2 answers) :
    (wire (events channel (callComplete channel complete) answers)).length ≤
      later.flatten.length := by
  cases later with
  | nil =>
    rw [events, callComplete_nil connected continues, answered_none, List.append_nil,
      continues.wire_last]
    exact Nat.le_refl _
  | cons chunk rest =>
    obtain ⟨next, reached, goes⟩ := callComplete_cons connected continues
    rw [reached] at accepts
    rw [events, reached]
    have bound := bounded _ _ _ goes.small goes.continues accepts
    have offered := goes.offered
    simp only [List.nil_append, List.flatten_cons, List.length_append]
    omega

/-- A length greater than the buffer is undefined behaviour at once. -/
theorem asyncSend_outside {buff : Bytes} {buffLen beg : Nat} {complete : Option Complete}
    (connected : channel.bconn = true) (outside : buff.length < buffLen) :
    asyncSend channel (some buff) buffLen beg complete = ([.outOfBounds], none) := by
  have nonzero : buffLen ≠ 0 := by omega
  simp [asyncSend, asyncSendData, connected, nonzero, outside]

/-- A send within its buffer adds at most its length and the chunks that are left. -/
theorem asyncSend_le (bounded : Bounded channel answers) (connected : channel.bconn = true)
    {buff : Bytes} {buffLen beg : Nat} {complete : Option Complete}
    (small : buff.length < 2 ^ 63) (inside : buffLen ≤ buff.length)
    (continues : Continues channel complete later last)
    (accepts : Accepts channel (asyncSend channel (some buff) buffLen beg complete).2 answers) :
    (wire (events channel (asyncSend channel (some buff) buffLen beg complete) answers)).length ≤
      buffLen + later.flatten.length := by
  simp only [asyncSend] at accepts ⊢
  by_cases zero : buffLen = 0
  · rw [if_pos zero] at accepts ⊢
    have bound := callComplete_le bounded connected continues accepts
    simp only [events, List.cons_append, wire_sendData] at bound ⊢
    omega
  · rw [if_neg zero, asyncSendData, if_neg (by simp [connected]), if_neg (by omega)] at accepts ⊢
    exact bounded _ _ ⟨buff, buffLen, beg, complete⟩ small continues accepts

/-- Every list of answers is bounded so. -/
theorem bounded (connected : channel.bconn = true) (answers : List Nat) :
    Bounded channel answers := by
  induction answers with
  | nil => exact fun _ _ _ _ _ accepts => accepts.elim
  | cons s answers ih =>
    intro later last write small continues ⟨⟨_, inside⟩, accepts⟩
    have taken : (write.buff.take s).length ≤ s := by
      rw [List.length_take]
      omega
    rw [answered]
    rcases Nat.eq_or_lt_of_le inside with all | less
    · subst all
      rw [written_of_eq] at accepts ⊢
      have bound := callComplete_le ih connected continues accepts
      simp only [events, List.cons_append, wire_wrote, List.length_append] at bound ⊢
      omega
    · rw [written_of_lt channel less] at accepts ⊢
      by_cases outside : write.buff.length < nowLen write.buffLen s
      · rw [asyncSend_outside connected outside, answered_none]
        simp only [List.append_nil, wire_wrote, wire_outOfBounds, wire_nil]
        omega
      · have bound := asyncSend_le ih connected small (by omega) continues accepts
        have shorter := (nowLen_le (by omega : nowLen write.buffLen s < 2 ^ 63)).1
        simp only [events, List.cons_append, wire_wrote, List.length_append] at bound ⊢
        omega

/-- A short write that leaves a rest beyond the range of `int` loses part of what was meant, or
offers more than the buffer has. -/
theorem lost_of_wide (connected : channel.bconn = true) {write : PendingWrite} {s : Nat}
    (small : write.buff.length < 2 ^ 63) (continues : Continues channel write.complete later last)
    (wide : 2 ^ 31 ≤ write.buffLen - s) (accepts : Accepts channel (some write) (s :: answers)) :
    .outOfBounds ∈ answered channel (some write) (s :: answers) ∨
      (wire (answered channel (some write) (s :: answers))).length <
        write.buffLen + later.flatten.length := by
  obtain ⟨_, accepts⟩ := accepts
  rw [written_of_lt channel (by omega)] at accepts
  rw [answered, written_of_lt channel (by omega)]
  by_cases outside : write.buff.length < nowLen write.buffLen s
  · rw [asyncSend_outside connected outside]
    exact .inl (by simp)
  · have bound := asyncSend_le (bounded connected answers) connected small (by omega) continues
      accepts
    have narrow := (nowLen_le (by omega : nowLen write.buffLen s < 2 ^ 63)).2
    have taken : (write.buff.take s).length ≤ s := by
      rw [List.length_take]
      omega
    right
    simp only [events, List.cons_append, wire_wrote, List.length_append] at bound ⊢
    omega

/-- The first bytes a write that goes out whole puts on the wire are the beginning of the buffer,
and so of its block. -/
theorem piece_of_wire {sent s : Nat} {write : PendingWrite}
    (sends : Sends channel block later last sent write) (most : s ≤ write.buffLen)
    (whole : wire (answered channel (some write) (s :: answers)) =
      block.drop sent ++ later.flatten) :
    (block.drop sent).take s = block.take s := by
  have offered := sends.offered
  have front := congrArg (List.take s) whole
  have first : ∃ rest, wire (answered channel (some write) (s :: answers)) =
      write.buff.take s ++ rest := by
    rw [answered]
    simp [written]
  obtain ⟨rest, begins⟩ := first
  have length : (block.take s).length = s := by
    rw [List.length_take]
    omega
  have taken : write.buff.take s = block.take s := by
    conv_rhs => rw [← sends.buffer, List.take_take]
    rw [Nat.min_eq_left (by omega)]
  rw [begins, taken, List.take_append_of_le_length (by omega),
    List.take_append_of_le_length (by rw [List.length_drop]; omega), List.take_take,
    Nat.min_self] at front
  exact front.symm

/-- Blocks that went out whole were accepted in pieces that repeat their block's beginning. -/
theorem repeats_of_wire (connected : channel.bconn = true) {sent : Nat} {write : PendingWrite}
    (sends : Sends channel block later last sent write)
    (accepts : Accepts channel (some write) answers)
    (inside : .outOfBounds ∉ answered channel (some write) answers)
    (whole : wire (answered channel (some write) answers) = block.drop sent ++ later.flatten) :
    Repeats block sent later answers := by
  induction answers generalizing block sent later write with
  | nil => exact accepts.elim
  | cons s answers ih =>
    have offered := sends.offered
    obtain ⟨⟨positive, most⟩, goesOn⟩ := accepts
    have piece := piece_of_wire sends most whole
    refine ⟨fun _ => piece, ?_⟩
    have front := piece_append sends (by omega) fun _ => piece
    by_cases less : sent + s < block.length
    · rw [if_pos less]
      by_cases narrow : block.length - (sent + s) < 2 ^ 31
      · refine ⟨narrow, ?_⟩
        obtain ⟨next, reached, goes⟩ := sends.short connected less narrow
        rw [answered, reached] at inside whole
        rw [reached] at goesOn
        refine ih goes goesOn (by simpa using inside) ?_
        rw [← front, List.append_assoc] at whole
        simpa using whole
      · exfalso
        rcases lost_of_wide connected sends.small sends.continues (by omega)
          ⟨⟨positive, most⟩, goesOn⟩ with outside | short
        · exact inside outside
        · rw [whole, List.length_append, List.length_drop] at short
          omega
    · rw [if_neg less]
      cases later with
      | nil => trivial
      | cons chunk rest =>
        have all : s = write.buffLen := by omega
        obtain ⟨next, reached, goes⟩ := callComplete_cons connected sends.continues
        rw [answered, all, written_of_eq, reached] at inside whole
        rw [all, written_of_eq, reached] at goesOn
        refine ih goes goesOn (by simpa using inside) ?_
        rw [← front, all, List.drop_eq_nil_of_le (by omega), List.append_nil] at whole
        simpa using whole

/-! ## Exactly when a send is right -/

/-- A connected send of a block is complete and in order exactly when its pieces repeat. -/
theorem asyncSend_sentOnce_iff (channel : ClientChannel) (buff : Bytes) (buffLen : Nat)
    (answers : List Nat) (room : buffLen ≤ buff.length) (small : buff.length < 2 ^ 63)
    (accepts : Accepts channel (asyncSend channel (some buff) buffLen 0 (some .call)).2 answers) :
    SentOnce (events channel (asyncSend channel (some buff) buffLen 0 (some .call)) answers)
        (buff.take buffLen) ↔
      buffLen = 0 ∨ channel.bconn = true ∧ Repeats (buff.take buffLen) 0 [] answers := by
  by_cases zero : buffLen = 0
  · subst zero
    refine ⟨fun _ => .inl rfl, fun _ => ⟨[.sendData], ?_, by simp, by simp, by simp⟩⟩
    simp [events, asyncSend, callComplete]
  by_cases connected : channel.bconn = true
  · have length : (buff.take buffLen).length = buffLen := by
      rw [List.length_take]
      omega
    have sends : Sends channel (buff.take buffLen) [] [.complete] 0
        ⟨buff, buffLen, 0, some .call⟩ :=
      ⟨by rw [length, Nat.zero_add], by simp only; omega, by rw [length], small, .call⟩
    have reached : asyncSend channel (some buff) buffLen 0 (some .call) =
        ([], some ⟨buff, buffLen, 0, some .call⟩) := by
      rw [asyncSend, if_neg zero, asyncSendData, if_neg (by simp [connected]), if_neg (by omega)]
    rw [reached] at accepts ⊢
    simp only [events, List.nil_append, zero, connected, true_and, false_or]
    constructor
    · rintro ⟨before, all, _, inside, whole⟩
      refine repeats_of_wire connected sends accepts (by simp [all, inside]) ?_
      simp [all, whole]
    · intro repeats
      simpa [SentOnce, Reports] using reports_of_repeats connected sends accepts repeats
  · refine ⟨?_, fun meets => absurd (meets.resolve_left zero).1 connected⟩
    rintro ⟨before, all, _⟩
    have reached : asyncSend channel (some buff) buffLen 0 (some .call) =
        ([.error .channelNotConn], none) := by
      rw [asyncSend, if_neg zero, asyncSendData, if_pos (by simpa using connected)]
    rw [reached, events, answered_none] at all
    simpa using congrArg List.getLast? all

/-- A callback's chunks are all sent, in order, exactly when the pieces of each repeat. -/
theorem asyncSendCb_wire_iff (channel : ClientChannel) (chunks : List Bytes) (answers : List Nat)
    (small : channel.sendBuffSize < 2 ^ 63)
    (fits : ∀ chunk ∈ chunks, chunk ≠ [] ∧ chunk.length ≤ channel.sendBuffSize)
    (accepts : Accepts channel (asyncSendCb channel none 0 chunks).2 answers) :
    (wire (events channel (asyncSendCb channel none 0 chunks) answers) = chunks.flatten ∧
        .outOfBounds ∉ events channel (asyncSendCb channel none 0 chunks) answers) ↔
      chunks = [] ∨
        (channel.bconn = true ∧ channel.makeShared = true) ∧ RepeatsAll chunks answers := by
  by_cases connected : channel.bconn = true
  · by_cases alloc : channel.makeShared = true
    · cases chunks with
      | nil => simp [asyncSendCb, connected, alloc, events]
      | cons chunk later =>
        obtain ⟨write, reached, sends⟩ := asyncSendCb_fresh connected alloc small fits
        rw [reached] at accepts ⊢
        simp only [events, List.nil_append, connected, alloc, reduceCtorEq, false_or, true_and,
          RepeatsAll, List.flatten_cons]
        constructor
        · rintro ⟨whole, inside⟩
          exact repeats_of_wire connected sends accepts inside (by simpa using whole)
        · intro repeats
          obtain ⟨before, all, _, inside, whole⟩ :=
            reports_of_repeats connected sends accepts repeats
          rw [all, List.append_nil]
          exact ⟨by simpa using whole, inside⟩
    · have silent : asyncSendCb channel none 0 chunks = ([.error .allocFail], none) := by
        simp [asyncSendCb, connected, alloc]
      rw [silent]
      cases chunks with
      | nil => simp [events, wire]
      | cons chunk later => simp [events, wire, alloc, (fits chunk (by simp)).1]
  · have silent : asyncSendCb channel none 0 chunks = ([.error .channelNotConn], none) := by
      simp [asyncSendCb, connected]
    rw [silent]
    cases chunks with
    | nil => simp [events, wire]
    | cons chunk later => simp [events, wire, connected, (fits chunk (by simp)).1]

/-- A connected channel whose buffer blocks hold 16 bytes. -/
def smallChannel : ClientChannel := { bconn := true, sendBuffSize := 16, makeShared := true }

/-- Exactly when short writes do no harm: a block goes out whole, once, and completes once, when
the channel is connected and its pieces repeat; a callback's chunks do under the same condition
on each chunk. -/
theorem asyncSend_exact (channel : ClientChannel) (answers : List Nat) :
    (∀ (buff : Bytes) (buffLen : Nat), buffLen ≤ buff.length → buff.length < 2 ^ 63 →
      Accepts channel (asyncSend channel (some buff) buffLen 0 (some .call)).2 answers →
        (SentOnce (events channel (asyncSend channel (some buff) buffLen 0 (some .call)) answers)
            (buff.take buffLen) ↔
          buffLen = 0 ∨ channel.bconn = true ∧ Repeats (buff.take buffLen) 0 [] answers)) ∧
    (∀ chunks : List Bytes, channel.sendBuffSize < 2 ^ 63 →
      (∀ chunk ∈ chunks, chunk ≠ [] ∧ chunk.length ≤ channel.sendBuffSize) →
      Accepts channel (asyncSendCb channel none 0 chunks).2 answers →
        ((wire (events channel (asyncSendCb channel none 0 chunks) answers) = chunks.flatten ∧
            .outOfBounds ∉ events channel (asyncSendCb channel none 0 chunks) answers) ↔
          chunks = [] ∨
            (channel.bconn = true ∧ channel.makeShared = true) ∧ RepeatsAll chunks answers)) :=
  ⟨fun buff buffLen room small accepts =>
    asyncSend_sentOnce_iff channel buff buffLen answers room small accepts,
    fun chunks small fits accepts => asyncSendCb_wire_iff channel chunks answers small fits accepts⟩

/-- Four equal bytes survive a short write after the first, sent either way. -/
theorem asyncSend_exact_equal_bytes :
    SentOnce (events smallChannel (asyncSend smallChannel (some [7, 7, 7, 7]) 4 0 (some .call))
      [1, 3]) [7, 7, 7, 7] ∧
    wire (events smallChannel (asyncSendCb smallChannel none 0 [[7, 7, 7, 7]]) [1, 3]) =
      [7, 7, 7, 7] :=
  ⟨((asyncSend_exact smallChannel [1, 3]).1 [7, 7, 7, 7] 4 (by decide) (by decide)
      (by decide)).2 (.inr ⟨rfl, by simp [Repeats]⟩),
    (((asyncSend_exact smallChannel [1, 3]).2 [[7, 7, 7, 7]] (by decide) (by decide)
      (by decide)).2 (.inr ⟨⟨rfl, rfl⟩, by simp [RepeatsAll, Repeats]⟩)).1⟩

/-- Two different bytes do not: a write that takes one byte is followed by the same byte again. -/
theorem asyncSend_repeats_beginning :
    Accepts smallChannel (asyncSend smallChannel (some [97, 98]) 2 0 (some .call)).2 [1, 1] ∧
    wire (events smallChannel (asyncSend smallChannel (some [97, 98]) 2 0 (some .call)) [1, 1]) =
      [97, 97] ∧
    ¬ SentOnce (events smallChannel (asyncSend smallChannel (some [97, 98]) 2 0 (some .call))
      [1, 1]) [97, 98] := by
  have twice : wire (events smallChannel (asyncSend smallChannel (some [97, 98]) 2 0 (some .call))
      [1, 1]) = [97, 97] := by decide
  refine ⟨by decide, twice, ?_⟩
  rintro ⟨before, all, _, _, whole⟩
  rw [all, wire_append, whole] at twice
  exact absurd twice (by decide)

end Hnw.Base
