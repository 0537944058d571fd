import Hnw.Http.RawWords

/-!
# A raw body is a bounded queue of bytes

Where nobody sets a position, a write adds to the end of the body what still fits, and a read goes
on where the last one ended. In words this holds as long as the differences of the positions do not
wrap.
-/

namespace Hnw.Http

/-! ## Numbers -/

/-- The positions of a body that nobody repositioned. -/
structure RawBody.Queue (body : RawBody) : Prop where
  /-- What is written goes to the end. -/
  written : body.writePos = body.body.length
  /-- What is read was written. -/
  read : body.readPos ≤ body.body.length
  /-- A capacity is kept. -/
  clipped : body.increment = false → body.body.length ≤ body.maximumCapacity

/-- How much of a buffer a body takes. -/
def RawBody.taken (body : RawBody) (size : Nat) : Nat :=
  if body.increment then size else min size (body.maximumCapacity - body.body.length)

/-- No more is taken than is offered. -/
theorem RawBody.taken_le (body : RawBody) (size : Nat) : body.taken size ≤ size := by
  unfold RawBody.taken
  split
  · exact Nat.le_refl _
  · exact Nat.min_le_left _ _

/-- A write adds what still fits. -/
theorem RawBody.Queue.writeBody {body : RawBody} (queue : body.Queue) (buff : Bytes) :
    body.writeBody buff = (body.taken buff.length,
      { body with
        body := body.body ++ buff.take (body.taken buff.length)
        writePos := body.writePos + body.taken buff.length }) := by
  have atEnd := queue.written
  have clipped := queue.clipped
  have size : (if body.increment = false ∧ body.maximumCapacity ≤ body.writePos + buff.length then
      body.maximumCapacity - body.writePos else buff.length) = body.taken buff.length := by
    unfold RawBody.taken
    cases mode : body.increment with
    | true => simp
    | false =>
      simp only [true_and, Bool.false_eq_true, if_false]
      split
      · omega
      · omega
  unfold RawBody.writeBody
  simp only [size]
  rw [if_pos (Nat.le_of_eq atEnd.symm)]

/-- A write keeps the positions. -/
theorem RawBody.Queue.written_queue {body : RawBody} (queue : body.Queue) (buff : Bytes) :
    (body.writeBody buff).2.Queue := by
  have size : (buff.take (body.taken buff.length)).length = body.taken buff.length := by
    rw [List.length_take]
    exact Nat.min_eq_left (body.taken_le buff.length)
  rw [queue.writeBody buff]
  refine ⟨?_, ?_, ?_⟩
  · show body.writePos + _ = _
    rw [List.length_append, size, queue.written]
  · show body.readPos ≤ _
    have before := queue.read
    rw [List.length_append]
    omega
  · intro mode
    have before := queue.clipped mode
    have bounded : body.increment = false := mode
    show (body.body ++ _).length ≤ body.maximumCapacity
    rw [List.length_append, size, RawBody.taken, bounded]
    simp only [Bool.false_eq_true, if_false]
    omega

/-- A read keeps the positions. -/
theorem RawBody.Queue.read_queue {body : RawBody} (queue : body.Queue) (buffSize : Nat) :
    (body.readBody buffSize).2.Queue := by
  refine ⟨queue.written, ?_, queue.clipped⟩
  have before := queue.read
  show body.readPos + _ ≤ body.body.length
  rw [List.length_take, List.length_drop]
  omega

/-! ## Words -/

/-- A word below the sign is not negative. -/
theorem toInt64_nonpos_iff {word : UInt64} (small : word.toNat < 2 ^ 63) :
    word.toInt64 ≤ 0 ↔ word.toNat = 0 := by
  have same : word.toInt64 = Int64.ofNat word.toNat := by
    rw [← UInt64.toInt64_ofNat', UInt64.ofNat_toNat]
  rw [same, Int64.le_iff_toInt_le, Int64.toInt_ofNat_of_lt small, Int64.toInt_zero]
  omega

namespace RawWords

/-- The same body with numbers. -/
def numbers (body : RawWords) : RawBody where
  body := body.body
  maximumCapacity := body.maximumCapacity.toNat
  increment := body.increment
  readPos := body.readPos.toNat
  writePos := body.writePos.toNat

variable {body : RawWords}

/-- The size of a small body is a word. -/
theorem toNat_bodySize (small : body.body.length < 2 ^ 62) :
    body.bodySize.toNat = body.body.length := by
  rw [bodySize, UInt64.toNat_ofNat']
  omega

/-- What is copied is what stands behind the position, as far as the buffer has room. -/
theorem readBodyCb_eq (queue : body.numbers.Queue) (small : body.body.length < 2 ^ 62)
    (buffSize : UInt64) :
    body.readBodyCb buffSize body.readPos =
      (body.body.drop body.readPos.toNat).take buffSize.toNat := by
  have before : body.readPos.toNat ≤ body.body.length := queue.read
  have size := toNat_bodySize small
  have ordered : body.readPos ≤ body.bodySize := by
    rw [UInt64.le_iff_toNat_le]
    omega
  have left : (body.bodySize - body.readPos).toNat = body.body.length - body.readPos.toNat := by
    rw [UInt64.toNat_sub_of_le _ _ ordered, size]
  have behind : (body.body.drop body.readPos.toNat).length =
      (body.bodySize - body.readPos).toNat := by
    rw [List.length_drop, left]
  rw [readBodyCb]
  simp only [toInt64_nonpos_iff (by omega : (body.bodySize - body.readPos).toNat < 2 ^ 63)]
  split
  · next none_ =>
    rw [none_] at behind
    rw [List.eq_nil_of_length_eq_zero behind, List.take_nil]
  · split
    · rfl
    · next long =>
      have shorter : body.bodySize - body.readPos < buffSize := UInt64.not_le.mp long
      rw [if_pos shorter, List.take_of_length_le (Nat.le_of_eq behind), List.take_of_length_le]
      rw [behind]
      exact Nat.le_of_lt (UInt64.lt_iff_toNat_lt.mp shorter)

/-- A read in words is one with numbers. -/
theorem readBody_numbers (queue : body.numbers.Queue) (small : body.body.length < 2 ^ 62)
    (buffSize : UInt64) :
    (body.readBody buffSize).1 = (body.numbers.readBody buffSize.toNat).1 ∧
      (body.readBody buffSize).2.numbers = (body.numbers.readBody buffSize.toNat).2 := by
  have copied := readBodyCb_eq queue small buffSize
  have before : body.readPos.toNat ≤ body.body.length := queue.read
  refine ⟨copied, ?_⟩
  have position : (body.readPos + UInt64.ofNat (body.readBodyCb buffSize body.readPos).length).toNat
      = body.readPos.toNat + ((body.body.drop body.readPos.toNat).take buffSize.toNat).length := by
    rw [copied, UInt64.toNat_add, UInt64.toNat_ofNat', List.length_take, List.length_drop]
    omega
  rw [readBody, numbers]
  simp only [position]
  rfl

/-- What a write takes in words is what it takes with numbers. -/
theorem toNat_writeSize (queue : body.numbers.Queue) {size : Nat}
    (small : body.body.length + size < 2 ^ 62) :
    (body.writeSize (UInt64.ofNat size) body.writePos).toNat = body.numbers.taken size := by
  have atEnd : body.writePos.toNat = body.body.length := queue.written
  have offered : (UInt64.ofNat size).toNat = size := by
    rw [UInt64.toNat_ofNat']
    omega
  have stop : (body.writePos + UInt64.ofNat size).toNat = body.body.length + size := by
    rw [UInt64.toNat_add, atEnd, offered]
    omega
  rw [writeSize, RawBody.taken, numbers]
  cases mode : body.increment with
  | true =>
    simp only [Bool.true_eq_false, false_and, if_false, if_true]
    exact offered
  | false =>
    have clipped : body.body.length ≤ body.maximumCapacity.toNat := queue.clipped mode
    simp only [true_and, Bool.false_eq_true, if_false, UInt64.le_iff_toNat_le, stop]
    split
    · have ordered : body.writePos ≤ body.maximumCapacity := by
        rw [UInt64.le_iff_toNat_le]
        omega
      rw [UInt64.toNat_sub_of_le _ _ ordered]
      omega
    · omega

/-- A write in words is one with numbers. -/
theorem writeBody_numbers (queue : body.numbers.Queue) (buff : Bytes)
    (small : body.body.length + buff.length < 2 ^ 62) :
    ∃ size left, body.writeBody buff = some (size, left) ∧
      body.numbers.writeBody buff = (size.toNat, left.numbers) := by
  have atEnd : body.writePos.toNat = body.body.length := queue.written
  have size := toNat_writeSize queue small
  have fits := body.numbers.taken_le buff.length
  have behind : body.bodySize ≤ body.writePos := by
    rw [UInt64.le_iff_toNat_le, toNat_bodySize (by omega), atEnd]
  generalize word : body.writeSize (UInt64.ofNat buff.length) body.writePos = taken at size
  have position : (body.writePos + taken).toNat =
      body.writePos.toNat + body.numbers.taken buff.length := by
    rw [UInt64.toNat_add, size]
    omega
  have made : body.writeBody buff = some (taken,
      { body with
        body := body.body ++ buff.take taken.toNat
        writePos := body.writePos + taken }) := by
    rw [writeBody, word]
    simp only
    rw [if_neg (by omega), if_pos behind]
  refine ⟨taken, _, made, ?_⟩
  rw [queue.writeBody buff, size]
  simp only [numbers, position]

/-! ## Runs -/

/-- What a body keeps of the bytes it is offered. -/
def kept (capacity : Option UInt64) (bytes : Bytes) : Bytes :=
  match capacity with
  | some maximumCapacity => bytes.take maximumCapacity.toNat
  | none => bytes

/-- Where a run stands when these bytes were offered. -/
structure Holds (capacity : Option UInt64) (bytes : Bytes) (progress : Progress) : Prop where
  /-- Nobody set a position. -/
  queue : progress.1.numbers.Queue
  /-- The capacity is the one of the start. -/
  mode : progress.1.maximumCapacity = (generate capacity).maximumCapacity ∧
    progress.1.increment = (generate capacity).increment
  /-- The body holds what it keeps. -/
  stored : progress.1.body = kept capacity bytes
  /-- What was read is what stands in front of the position. -/
  taken : progress.2 = progress.1.body.take progress.1.readPos.toNat

/-- No more is kept than was offered. -/
theorem kept_length_le (capacity : Option UInt64) (bytes : Bytes) :
    (kept capacity bytes).length ≤ bytes.length := by
  cases capacity with
  | none => exact Nat.le_refl _
  | some maximumCapacity =>
    rw [kept, List.length_take]
    exact Nat.min_le_right _ _

/-- A fresh body holds nothing. -/
theorem holds_generate (capacity : Option UInt64) : Holds capacity [] (generate capacity, []) := by
  cases capacity with
  | none => exact ⟨⟨rfl, Nat.le_refl _, nofun⟩, ⟨rfl, rfl⟩, rfl, rfl⟩
  | some maximumCapacity =>
    exact ⟨⟨rfl, Nat.le_refl _, fun _ => Nat.zero_le _⟩, ⟨rfl, rfl⟩, List.take_nil.symm, rfl⟩

variable {capacity : Option UInt64} {bytes : Bytes} {progress : Progress}

/-- What a body of this mode takes of a buffer is what it keeps of the buffer. -/
theorem kept_append (mode : body.maximumCapacity = (generate capacity).maximumCapacity ∧
    body.increment = (generate capacity).increment) (stored : body.body = kept capacity bytes)
    (buff : Bytes) :
    kept capacity (bytes ++ buff) = body.body ++ buff.take (body.numbers.taken buff.length) := by
  rw [RawBody.taken, numbers]
  simp only [mode.1, mode.2, stored]
  cases capacity with
  | none =>
    simp only [generate, if_true, kept]
    rw [List.take_length]
  | some maximumCapacity =>
    simp only [generate, kept, Bool.false_eq_true, if_false]
    rw [List.take_append, List.append_right_inj, List.take_eq_take_iff, List.length_take]
    omega

/-- A write returns how many bytes it added, and the body holds what it keeps. -/
theorem Holds.write (holds : Holds capacity bytes progress) {buff : Bytes}
    (small : bytes.length + buff.length < 2 ^ 62) :
    ∃ size left, progress.1.writeBody buff = some (size, left) ∧
      left.body.length = progress.1.body.length + size.toNat ∧
      Holds capacity (bytes ++ buff) (left, progress.2) := by
  have length := kept_length_le capacity bytes
  rw [← holds.stored] at length
  obtain ⟨size, left, made, same⟩ := writeBody_numbers holds.queue buff (by omega)
  have kept_ := holds.queue.written_queue buff
  rw [same] at kept_
  rw [holds.queue.writeBody buff] at same
  obtain ⟨count, numbers_⟩ := Prod.mk.inj same
  have body_ : progress.1.body ++ buff.take (progress.1.numbers.taken buff.length) = left.body :=
    congrArg RawBody.body numbers_
  have readPos : progress.1.readPos.toNat = left.readPos.toNat := congrArg RawBody.readPos numbers_
  have capacity_ : progress.1.maximumCapacity = left.maximumCapacity :=
    UInt64.toNat_inj.mp (congrArg RawBody.maximumCapacity numbers_)
  have increment : progress.1.increment = left.increment := congrArg RawBody.increment numbers_
  have before : progress.1.readPos.toNat ≤ progress.1.body.length := holds.queue.read
  refine ⟨size, left, made, ?_, kept_, ?_, ?_, ?_⟩
  · have fits := progress.1.numbers.taken_le buff.length
    rw [← body_, List.length_append, List.length_take, ← count]
    omega
  · rw [← capacity_, ← increment]
    exact holds.mode
  · rw [kept_append holds.mode holds.stored buff]
    exact body_.symm
  · show progress.2 = left.body.take left.readPos.toNat
    rw [← readPos, holds.taken, ← body_, List.take_append_of_le_length before]

/-- A read goes on where the last one ended. -/
theorem Holds.read (holds : Holds capacity bytes progress) (small : bytes.length < 2 ^ 62)
    (buffSize : UInt64) :
    Holds capacity bytes ((progress.1.readBody buffSize).2,
      progress.2 ++ (progress.1.readBody buffSize).1) := by
  have length := kept_length_le capacity bytes
  rw [← holds.stored] at length
  obtain ⟨copied, same⟩ := readBody_numbers holds.queue (by omega) buffSize
  have position : (progress.1.readBody buffSize).2.readPos.toNat =
      progress.1.readPos.toNat + (progress.1.readBody buffSize).1.length := by
    rw [copied]
    exact congrArg RawBody.readPos same
  have piece : (progress.1.readBody buffSize).1 =
      (progress.1.body.drop progress.1.readPos.toNat).take
        (progress.1.readBody buffSize).1.length := by
    rw [copied]
    exact (List.take_eq_take_iff.mpr (by rw [RawBody.readBody, List.length_take]; omega))
  refine ⟨?_, holds.mode, holds.stored, ?_⟩
  · show (progress.1.readBody buffSize).2.numbers.Queue
    rw [same]
    exact holds.queue.read_queue buffSize.toNat
  · show progress.2 ++ (progress.1.readBody buffSize).1 =
      progress.1.body.take (progress.1.readBody buffSize).2.readPos.toNat
    rw [position, List.take_add, holds.taken, ← piece]

/-- Calls are made one after the other, and what they leave holds. -/
theorem run_holds (calls : List Call) (holds : Holds capacity bytes progress)
    (small : bytes.length + (offered calls).length < 2 ^ 62) :
    ∃ later, run calls progress = some later ∧ Holds capacity (bytes ++ offered calls) later := by
  induction calls generalizing bytes progress with
  | nil => exact ⟨progress, rfl, by rwa [offered, List.flatMap_nil, List.append_nil]⟩
  | cons first calls ih =>
    have parts : offered (first :: calls) = offered [first] ++ offered calls := by
      rw [offered, List.flatMap_cons, offered, List.flatMap_singleton, offered]
    rw [parts, List.length_append] at small
    rw [parts, ← List.append_assoc]
    cases first with
    | write buff =>
      have whole : offered [.write buff] = buff := List.append_nil buff
      rw [whole] at small ⊢
      obtain ⟨size, left, made, _, next⟩ := holds.write (by omega : bytes.length + buff.length < _)
      obtain ⟨later, ran, holds_⟩ := ih next (by rw [List.length_append]; omega)
      refine ⟨later, ?_, holds_⟩
      rw [run, List.foldlM_cons, call, made]
      exact ran
    | read buffSize =>
      have nothing : offered [.read buffSize] = [] := rfl
      rw [nothing] at small ⊢
      rw [List.append_nil]
      obtain ⟨later, ran, holds_⟩ := ih (holds.read (by omega) buffSize) (by
        rw [List.length_nil] at small
        omega)
      exact ⟨later, ran, holds_⟩

/-- Where a run of calls on a fresh body stands: what the body holds and what was read of it are
those of a bounded queue. -/
structure IsQueue (capacity : Option UInt64) (calls : List Call) (progress : Progress) : Prop where
  /-- The body holds the first bytes of all that were offered, as many as its capacity. -/
  stored : progress.1.body = kept capacity (offered calls)
  /-- A write returns the number of bytes it adds. -/
  writes : ∀ buff, (offered calls).length + buff.length < 2 ^ 62 →
    ∃ size left, progress.1.writeBody buff = some (size, left) ∧
      left.body.length = progress.1.body.length + size.toNat
  /-- The bytes that were read are the first ones. -/
  read : progress.2 <+: progress.1.body
  /-- A read returns nothing only where all bytes were read. -/
  ends : ∀ buffSize, 0 < buffSize → (progress.1.readBody buffSize).1 = [] →
    progress.2 = progress.1.body
  /-- A body with a capacity is complete just where it holds as many bytes. -/
  complete : ∀ maximumCapacity, capacity = some maximumCapacity →
    (progress.1.isComplete = true ↔ progress.1.body.length = maximumCapacity.toNat)

/-- What holds in a run is what a queue is. -/
theorem Holds.isQueue {calls : List Call} (holds : Holds capacity (offered calls) progress)
    (small : (offered calls).length < 2 ^ 62) : IsQueue capacity calls progress := by
  have length := kept_length_le capacity (offered calls)
  rw [← holds.stored] at length
  refine ⟨holds.stored, fun buff room => ?_, ?_, fun buffSize positive nothing => ?_, ?_⟩
  · obtain ⟨size, left, made, added, _⟩ := holds.write room
    exact ⟨size, left, made, added⟩
  · rw [holds.taken]
    exact List.take_prefix _ _
  · have copied := (readBody_numbers holds.queue (by omega) buffSize).1
    rw [nothing] at copied
    have some_ : buffSize.toNat ≠ 0 := by
      have above := UInt64.lt_iff_toNat_lt.mp positive
      rw [UInt64.toNat_zero] at above
      omega
    have behind := (List.take_eq_nil_iff.mp copied.symm).resolve_left some_
    rw [holds.taken]
    exact List.take_of_length_le (List.drop_eq_nil_iff.mp behind)
  · rintro maximumCapacity rfl
    have size := toNat_bodySize (by omega : progress.1.body.length < 2 ^ 62)
    rw [isComplete, holds.mode.1, holds.mode.2]
    simp only [generate, Bool.false_or, beq_iff_eq]
    rw [← UInt64.toNat_inj, size]
    exact eq_comm

/-- A fresh body is a bounded queue of bytes under every sequence of writes and reads. -/
theorem rawBody_queue (capacity : Option UInt64) {calls : List Call}
    (small : (offered calls).length < 2 ^ 62) :
    ∃ later, run calls (generate capacity, []) = some later ∧ IsQueue capacity calls later := by
  obtain ⟨later, ran, holds⟩ := run_holds calls (holds_generate capacity) (by simpa using small)
  exact ⟨later, ran, holds.isQueue small⟩

/-- A body of three bytes keeps three of four. -/
theorem rawBody_queue_three :
    ∃ later, run [.write (ascii "ab"), .read 1, .write (ascii "cd")] (generate (some 3), []) =
        some later ∧
      IsQueue (some 3) [.write (ascii "ab"), .read 1, .write (ascii "cd")] later :=
  rawBody_queue (some 3) (by decide)

end RawWords

end Hnw.Http
