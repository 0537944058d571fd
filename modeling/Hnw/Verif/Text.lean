import Mathlib.Data.List.TakeWhile
import Hnw.Util.Text

/-!
# Laws of the text functions

What `std::stoll` reads back from `std::to_string`, and what `split` makes of a text.
-/

namespace Hnw.Util

/-! ## Numbers -/

/-- A decimal digit as a byte. -/
theorem digit_spec {d : Nat} (small : d < 10) :
    isDigit (48 + d.toUInt8) = true ∧ (48 + d.toUInt8).toNat - 48 = d := by
  have value : (48 + d.toUInt8).toNat = 48 + d := by
    rw [UInt8.toNat_add, Nat.toUInt8_eq, UInt8.toNat_ofNat']
    have : (48 : UInt8).toNat = 48 := rfl
    omega
  have low : (48 : UInt8).toNat = 48 := rfl
  have high : (57 : UInt8).toNat = 57 := rfl
  refine ⟨?_, by omega⟩
  rw [isDigit, decide_eq_true_eq, UInt8.le_iff_toNat_le, UInt8.le_iff_toNat_le]
  omega

/-- Reading one more digit. -/
theorem digitsValue_concat (digits : Bytes) (digit : UInt8) :
    digitsValue (digits ++ [digit]) = 10 * digitsValue digits + (digit.toNat - 48) := by
  simp only [digitsValue, List.foldl_append, List.foldl_cons, List.foldl_nil]

/-- The digits of a number are digits, there is one, and they have its value. -/
theorem decimalDigits_spec (fuel n : Nat) (enough : n < fuel) :
    (∀ byte ∈ decimalDigits fuel n, isDigit byte = true) ∧ decimalDigits fuel n ≠ [] ∧
      digitsValue (decimalDigits fuel n) = n := by
  induction fuel generalizing n with
  | zero => omega
  | succ fuel ih =>
    rw [decimalDigits]
    split
    · next small =>
      obtain ⟨digit, value⟩ := digit_spec small
      refine ⟨by simpa using digit, by simp, ?_⟩
      simpa [digitsValue] using value
    · next large =>
      obtain ⟨digits, _, value⟩ := ih (n / 10) (by omega)
      obtain ⟨digit, last⟩ := digit_spec (Nat.mod_lt n (by decide : 0 < 10))
      refine ⟨?_, by simp, ?_⟩
      · intro byte member
        rcases List.mem_append.mp member with early | late
        · exact digits byte early
        · rw [List.mem_singleton.mp late]
          exact digit
      · rw [digitsValue_concat, value, last]
        omega

/-- A digit is neither white space nor a sign. -/
theorem isDigit_plain {byte : UInt8} (digit : isDigit byte = true) :
    isSpace byte = false ∧ byte ≠ 45 ∧ byte ≠ 43 := by
  rw [isDigit, decide_eq_true_eq] at digit
  have := digit.1
  simp only [isSpace, decide_eq_false_iff_not]
  grind

/-- Digits are read as their value, up to what is no digit. -/
theorem signedDigits_front {digits rest : Bytes} (all : ∀ byte ∈ digits, isDigit byte = true)
    (some_ : digits ≠ []) (stop : ∀ byte ∈ rest.head?, isDigit byte = false) :
    signedDigits (digits ++ rest) = some (false, digitsValue digits) := by
  cases digits with
  | nil => exact absurd rfl some_
  | cons first more =>
    obtain ⟨visible, minus, plus⟩ := isDigit_plain (all first (by simp))
    have behind : rest.takeWhile isDigit = [] := by
      cases rest with
      | nil => rfl
      | cons byte rest => exact List.takeWhile_cons_of_neg (by simp [stop byte rfl])
    have whole : (first :: (more ++ rest)).takeWhile isDigit = first :: more := by
      rw [← List.cons_append, List.takeWhile_append_of_pos all, behind, List.append_nil]
    rw [signedDigits, List.cons_append]
    simp only [List.dropWhile_cons, visible, Bool.false_eq_true, if_false, minus, plus, whole]
    simp

/-- A text of digits is read as its value. -/
theorem signedDigits_digits {digits : Bytes} (all : ∀ byte ∈ digits, isDigit byte = true)
    (some_ : digits ≠ []) : signedDigits digits = some (false, digitsValue digits) := by
  have read := @signedDigits_front digits [] all some_ fun byte member => nomatch member
  rwa [List.append_nil] at read

/-- A number is written with digits alone. -/
theorem decimal_digits (n : Nat) : ∀ byte ∈ decimal n, isDigit byte = true :=
  (decimalDigits_spec (n + 1) n (by omega)).1

/-- A number is not written as nothing. -/
theorem decimal_ne_nil (n : Nat) : decimal n ≠ [] :=
  (decimalDigits_spec (n + 1) n (by omega)).2.1

/-- A number is the value of its digits. -/
theorem digitsValue_decimal (n : Nat) : digitsValue (decimal n) = n :=
  (decimalDigits_spec (n + 1) n (by omega)).2.2

/-- `std::stoll` reads back what `std::to_string` wrote. -/
theorem stoll_decimal {n : Nat} (small : n < 2 ^ 63) : stoll (decimal n) = some (n : Int) := by
  rw [stoll, signedDigits_digits (decimal_digits n) (decimal_ne_nil n), digitsValue_decimal]
  simp only [Bool.false_eq_true, if_false]
  rw [if_pos (by omega)]

/-- `std::stoull` reads digits of a number of 64 bits. -/
theorem stoull_digits {digits : Bytes} (all : ∀ byte ∈ digits, isDigit byte = true)
    (some_ : digits ≠ []) (small : digitsValue digits < 2 ^ 64) :
    stoull digits = some (UInt64.ofNat (digitsValue digits)) := by
  rw [stoull, signedDigits_digits all some_]
  simp only [Bool.false_eq_true, if_false]
  rw [if_pos small]

/-- `std::stoull` reads back what `std::to_string` wrote. -/
theorem stoull_decimal (word : UInt64) : stoull (decimal word.toNat) = some word := by
  have small : digitsValue (decimal word.toNat) < 2 ^ 64 := by
    rw [digitsValue_decimal]
    exact word.toNat_lt
  rw [stoull_digits (decimal_digits _) (decimal_ne_nil _) small, digitsValue_decimal,
    UInt64.ofNat_toNat]

/-- A number below a power of ten has no more digits than its exponent. -/
theorem decimalDigits_length (fuel : Nat) {n digits : Nat} (small : n < 10 ^ (digits + 1)) :
    (decimalDigits fuel n).length ≤ digits + 1 := by
  induction fuel generalizing n digits with
  | zero => exact Nat.zero_le _
  | succ fuel ih =>
    rw [decimalDigits]
    split
    · exact Nat.le_add_left 1 digits
    · next large =>
      cases digits with
      | zero => exact absurd small large
      | succ digits =>
        rw [Nat.pow_succ] at small
        have shorter := @ih (n / 10) digits (by omega)
        rw [List.length_append, List.length_singleton]
        omega

/-- A 64-bit number has at most 20 digits. -/
theorem decimal_word_length (word : UInt64) : (decimal word.toNat).length ≤ 20 := by
  have bound := word.toNat_lt
  have small : word.toNat < 10 ^ (19 + 1) := by omega
  exact decimalDigits_length _ small

/-! ## Search -/

/-- A pattern stands at a position. -/
def OccursAt (src pattern : Bytes) (pos : Nat) : Prop := pattern <+: src.drop pos

/-- The pattern stands at the index that is found. -/
theorem firstIndex_occurs {pattern src : Bytes} {pos : Nat}
    (found : firstIndex pattern src = some pos) : OccursAt src pattern pos := by
  induction src generalizing pos with
  | nil =>
    rw [firstIndex] at found
    split at found
    · next empty =>
      rw [OccursAt, empty]
      exact List.nil_prefix
    · cases found
  | cons byte rest ih =>
    rw [firstIndex] at found
    split at found
    · next here =>
      cases found
      exact here
    · obtain ⟨later, behind, rfl⟩ := Option.map_eq_some_iff.mp found
      exact ih behind

/-- Where the pattern stands, it is found there or earlier. -/
theorem firstIndex_le {pattern src : Bytes} {pos : Nat} (inside : pos ≤ src.length)
    (occurs : OccursAt src pattern pos) :
    ∃ first, firstIndex pattern src = some first ∧ first ≤ pos := by
  induction src generalizing pos with
  | nil =>
    rw [OccursAt, List.drop_nil, List.prefix_nil] at occurs
    exact ⟨0, by simp [firstIndex, occurs], Nat.zero_le _⟩
  | cons byte rest ih =>
    rw [firstIndex]
    split
    · exact ⟨0, rfl, Nat.zero_le _⟩
    · next elsewhere =>
      cases pos with
      | zero => exact absurd occurs elsewhere
      | succ pos =>
        obtain ⟨first, found, le⟩ := ih (by simpa using inside) occurs
        exact ⟨first + 1, by rw [found]; rfl, by omega⟩

/-- What `find` finds is an occurrence behind the cursor. -/
theorem find_occurs {src pattern : Bytes} {beg pos : Nat}
    (found : find src pattern beg = some pos) :
    beg ≤ pos ∧ beg ≤ src.length ∧ OccursAt src pattern pos := by
  rw [find] at found
  split at found
  · next inside =>
    obtain ⟨index, first, rfl⟩ := Option.map_eq_some_iff.mp found
    have occurs := firstIndex_occurs first
    rw [OccursAt, List.drop_drop] at occurs
    exact ⟨Nat.le_add_right _ _, inside, occurs⟩
  · cases found

/-- An occurrence behind the cursor is found, or one before it. -/
theorem find_le {src pattern : Bytes} {beg pos : Nat} (behind : beg ≤ pos)
    (inside : pos ≤ src.length) (occurs : OccursAt src pattern pos) :
    ∃ first, find src pattern beg = some first ∧ first ≤ pos := by
  have later : OccursAt (src.drop beg) pattern (pos - beg) := by
    rw [OccursAt, List.drop_drop, Nat.add_sub_cancel' behind]
    exact occurs
  obtain ⟨first, found, le⟩ := firstIndex_le (by rw [List.length_drop]; omega) later
  refine ⟨beg + first, ?_, by omega⟩
  rw [find, if_pos (by omega), found]
  rfl

/-- Where no occurrence stands, none is found. -/
theorem find_eq_none {src pattern : Bytes} {beg : Nat}
    (absent : ∀ pos, beg ≤ pos → ¬ OccursAt src pattern pos) : find src pattern beg = none := by
  cases found : find src pattern beg with
  | none => rfl
  | some pos =>
    obtain ⟨behind, _, occurs⟩ := find_occurs found
    exact absurd occurs (absent pos behind)

/-- The first occurrence behind the cursor is what is found. -/
theorem find_eq_some {src pattern : Bytes} {beg pos : Nat} (behind : beg ≤ pos)
    (inside : pos ≤ src.length) (occurs : OccursAt src pattern pos)
    (first : ∀ earlier, beg ≤ earlier → earlier < pos → ¬ OccursAt src pattern earlier) :
    find src pattern beg = some pos := by
  obtain ⟨found, same, le⟩ := find_le behind inside occurs
  obtain ⟨after, _, there⟩ := find_occurs same
  have : found = pos := by
    by_contra different
    exact first found after (by omega) there
  rw [same, this]

/-- An occurrence lies inside the text. -/
theorem OccursAt.length_le {src pattern : Bytes} {pos : Nat} (occurs : OccursAt src pattern pos)
    (some_ : pattern ≠ []) : pos + pattern.length ≤ src.length := by
  have length := List.IsPrefix.length_le occurs
  have positive := List.length_pos_iff.mpr some_
  rw [List.length_drop] at length
  omega

/-! ## `split` -/

/-- A text without the separator behind the cursor is the last piece. -/
theorem splitFrom_last {src splitor : Bytes} {beg : Nat} (fuel : Nat)
    (absent : ∀ pos, beg ≤ pos → ¬ OccursAt src splitor pos) :
    splitFrom src splitor (fuel + 1) beg = some [src.drop beg] := by
  rw [splitFrom, find_eq_none absent]

/-- The piece up to the first separator behind the cursor. -/
theorem splitFrom_piece {src splitor : Bytes} {beg pos : Nat} (fuel : Nat)
    (found : find src splitor beg = some pos) (short : pos + splitor.length < 2 ^ 31) :
    splitFrom src splitor (fuel + 1) beg =
      (splitFrom src splitor fuel (pos + splitor.length)).map (src.extract beg pos :: ·) := by
  simp only [splitFrom, found, if_pos short]

/-- `split` throws at the first separator whose end is no `int`. -/
theorem splitFrom_long {src splitor : Bytes} {beg pos : Nat} (fuel : Nat)
    (found : find src splitor beg = some pos) (long : 2 ^ 31 ≤ pos + splitor.length) :
    splitFrom src splitor (fuel + 1) beg = none := by
  simp only [splitFrom, found]
  rw [if_neg (by omega)]

/-- What `split` makes of a text from a cursor on does not depend on what stands in front of it, but
on its size. -/
theorem splitFrom_front {front other rest splitor : Bytes} (size : front.length = other.length)
    (fuel : Nat) {beg : Nat} (behind : front.length ≤ beg) :
    splitFrom (front ++ rest) splitor fuel beg = splitFrom (other ++ rest) splitor fuel beg := by
  induction fuel generalizing beg with
  | zero => rfl
  | succ fuel ih =>
    have left : (front ++ rest).drop beg = (other ++ rest).drop beg := by
      have noFront : front.drop beg = [] := List.drop_eq_nil_of_le behind
      have noOther : other.drop beg = [] := List.drop_eq_nil_of_le (size ▸ behind)
      rw [List.drop_append, List.drop_append, noFront, noOther, size]
    have found : find (front ++ rest) splitor beg = find (other ++ rest) splitor beg := by
      rw [find, find, left, List.length_append, List.length_append, size]
    cases here : find (other ++ rest) splitor beg with
    | none => simp only [splitFrom, found, here, left]
    | some pos =>
      have after : beg ≤ pos := (find_occurs here).1
      simp only [splitFrom, found, here, List.extract_eq_take_drop, left,
        ih (Nat.le_trans behind (Nat.le_trans after (Nat.le_add_right pos splitor.length)))]

/-- Where `split` returns there is a piece. -/
theorem splitFrom_ne_nil {src splitor : Bytes} {fuel beg : Nat} {pieces : List Bytes}
    (cut : splitFrom src splitor fuel beg = some pieces) : pieces ≠ [] := by
  rintro rfl
  cases fuel with
  | zero => cases cut
  | succ fuel =>
    rw [splitFrom] at cut
    split at cut
    · cases cut
    · split at cut
      · obtain ⟨_, _, same⟩ := Option.map_eq_some_iff.mp cut
        cases same
      · cases cut

/-- Where every separator ends at an `int`, `split` returns; there is a piece, and none is longer
than the text. -/
theorem splitFrom_short {src splitor : Bytes} (some_ : splitor ≠ []) {fuel beg : Nat}
    (enough : src.length < fuel + beg) (inside : beg ≤ src.length)
    (short : ∀ pos, beg ≤ pos → OccursAt src splitor pos → pos + splitor.length < 2 ^ 31) :
    ∃ pieces, splitFrom src splitor fuel beg = some pieces ∧ pieces ≠ [] ∧
      ∀ piece ∈ pieces, piece.length ≤ src.length := by
  have positive := List.length_pos_iff.mpr some_
  induction fuel generalizing beg with
  | zero => omega
  | succ fuel ih =>
    cases found : find src splitor beg with
    | none =>
      refine ⟨[src.drop beg], by simp only [splitFrom, found], by simp, ?_⟩
      simp
    | some pos =>
      obtain ⟨behind, _, occurs⟩ := find_occurs found
      have length := occurs.length_le some_
      obtain ⟨pieces, rest, _, bound⟩ := ih (by omega) length
        fun later after => short later (by omega)
      refine ⟨src.extract beg pos :: pieces, ?_, by simp, ?_⟩
      · rw [splitFrom_piece fuel found (short pos behind occurs), rest]
        rfl
      · intro piece member
        rcases List.mem_cons.mp member with rfl | later
        · rw [List.extract_eq_take_drop, List.length_take, List.length_drop]
          omega
        · exact bound piece later

/-- `split` of a text that is no longer than an `int` returns. -/
theorem split_short {src splitor : Bytes} (some_ : splitor ≠ []) (short : src.length < 2 ^ 31) :
    ∃ pieces, split src splitor = some pieces ∧ pieces ≠ [] ∧
      ∀ piece ∈ pieces, piece.length ≤ src.length :=
  splitFrom_short some_ (by omega) (Nat.zero_le _)
    fun pos _ occurs => Nat.lt_of_le_of_lt (occurs.length_le some_) short

/-- `split` at a byte that stands somewhere too far behind throws. -/
theorem splitFrom_byte_long {src : Bytes} {byte : UInt8} (fuel : Nat) {beg pos : Nat}
    (behind : beg ≤ pos) (occurs : OccursAt src [byte] pos) (long : 2 ^ 31 ≤ pos + 1) :
    splitFrom src [byte] fuel beg = none := by
  have inside := occurs.length_le (by simp)
  rw [List.length_singleton] at inside
  induction fuel generalizing beg with
  | zero => rfl
  | succ fuel ih =>
    obtain ⟨first, found, le⟩ := find_le behind (by omega) occurs
    by_cases here : 2 ^ 31 ≤ first + 1
    · exact splitFrom_long fuel found here
    · rw [splitFrom_piece fuel found (by rw [List.length_singleton]; omega),
        ih (by rw [List.length_singleton]; omega)]
      rfl

/-- A byte stands where the text has it. -/
theorem occursAt_byte {src : Bytes} {byte : UInt8} {pos : Nat} :
    OccursAt src [byte] pos ↔ src[pos]? = some byte := by
  rw [OccursAt, ← List.head?_drop]
  cases src.drop pos with
  | nil => simp
  | cons first rest => simp [List.cons_prefix_cons, eq_comm]

/-- A piece without the byte, then the byte: the first piece is that one. -/
theorem find_byte {front piece rest : Bytes} {byte : UInt8} (free : byte ∉ piece) :
    find (front ++ (piece ++ byte :: rest)) [byte] front.length =
      some (front.length + piece.length) := by
  apply find_eq_some (by omega) (by simp)
  · rw [occursAt_byte, List.getElem?_append_right (by omega), Nat.add_sub_cancel_left,
      List.getElem?_append_right (by omega), Nat.sub_self]
    rfl
  · intro earlier behind before occurs
    rw [occursAt_byte, List.getElem?_append_right behind,
      List.getElem?_append_left (by omega)] at occurs
    exact free (List.mem_of_getElem? occurs)

/-- A byte that does not stand behind the front does not occur there. -/
theorem not_occursAt_behind {front rest : Bytes} {byte : UInt8} (free : byte ∉ rest) (pos : Nat)
    (behind : front.length ≤ pos) : ¬ OccursAt (front ++ rest) [byte] pos := by
  intro occurs
  rw [occursAt_byte, List.getElem?_append_right behind] at occurs
  exact free (List.mem_of_getElem? occurs)

/-- What stands behind the front is a part of the text. -/
theorem extract_piece (front piece rest : Bytes) :
    (front ++ (piece ++ rest)).extract front.length (front.length + piece.length) = piece := by
  rw [List.extract_eq_take_drop, List.drop_left, Nat.add_sub_cancel_left, List.take_left]

/-- Without the byte behind the front, there is one piece left. -/
theorem splitFrom_byte_last {front rest : Bytes} {byte : UInt8} (fuel : Nat)
    (free : byte ∉ rest) :
    splitFrom (front ++ rest) [byte] (fuel + 1) front.length = some [rest] := by
  rw [splitFrom_last, List.drop_left]
  exact not_occursAt_behind free

/-- The piece up to the byte. -/
theorem splitFrom_byte_piece {front piece rest : Bytes} {byte : UInt8} (fuel : Nat)
    (free : byte ∉ piece) (short : front.length + piece.length + 1 < 2 ^ 31) :
    splitFrom (front ++ (piece ++ byte :: rest)) [byte] (fuel + 1) front.length =
      (splitFrom (front ++ (piece ++ byte :: rest)) [byte] fuel
        (front.length + piece.length + 1)).map (piece :: ·) := by
  rw [splitFrom_piece fuel (find_byte free) short, List.length_singleton,
    extract_piece front piece (byte :: rest)]

/-! ## Headers -/

/-- A text without the separator of headers. -/
def SeqFree (text : Bytes) : Prop := ∀ pos, ¬ OccursAt text headSeq pos

instance (text : Bytes) : Decidable (SeqFree text) :=
  decidable_of_iff (∀ pos < text.length, ¬ headSeq <+: text.drop pos)
    ⟨fun free pos occurs => free pos (by
        have inside := OccursAt.length_le occurs (by decide)
        have : headSeq.length = 2 := rfl
        omega) occurs,
      fun free pos _ => free pos⟩

/-- A text without a colon has no separator of headers. -/
theorem seqFree_of_noColon {text : Bytes} (free : colonByte ∉ text) : SeqFree text := by
  intro pos occurs
  have colon : colonByte ∈ text.drop pos := occurs.subset (by decide)
  exact free (List.mem_of_mem_drop colon)

/-- Before its end a name has no separator, whatever follows the name. -/
theorem SeqFree.before {name rest : Bytes} (free : SeqFree name) {pos : Nat}
    (before : pos < name.length) : ¬ OccursAt (name ++ (headSeq ++ rest)) headSeq pos := by
  intro occurs
  rw [OccursAt, List.drop_append_of_le_length (by omega)] at occurs
  apply free pos
  rw [OccursAt]
  cases tail : name.drop pos with
  | nil =>
    have := congrArg List.length tail
    rw [List.length_drop, List.length_nil] at this
    omega
  | cons first more =>
    rw [tail] at occurs
    cases more with
    | nil =>
      simp only [headSeq, List.cons_append, List.nil_append, List.cons_prefix_cons] at occurs
      exact absurd occurs.2.1 (by decide)
    | cons second more =>
      simp only [headSeq, List.cons_append, List.cons_prefix_cons] at occurs
      simp [headSeq, occurs.1, occurs.2.1]

/-- The separator behind a name is found. -/
theorem find_headSeq {name value : Bytes} (free : SeqFree name) :
    find (name ++ (headSeq ++ value)) headSeq 0 = some name.length := by
  apply find_eq_some (Nat.zero_le _) (by simp)
  · rw [OccursAt, List.drop_left]
    exact List.prefix_append _ _
  · exact fun earlier _ before => free.before before

/-- A header is split behind its name. -/
theorem split_name {name value : Bytes} (free : SeqFree name) :
    split (name ++ (headSeq ++ value)) headSeq =
      if name.length + 2 < 2 ^ 31 then
        (splitFrom (name ++ (headSeq ++ value)) headSeq (name ++ (headSeq ++ value)).length
          (name.length + 2)).map (name :: ·)
      else none := by
  have found := @find_headSeq name value free
  have taken := extract_piece [] name (headSeq ++ value)
  rw [List.nil_append, List.length_nil, Nat.zero_add] at taken
  split
  · next short => rw [split, splitFrom_piece _ found short, taken]; rfl
  · next long => exact splitFrom_long _ found (Nat.le_of_not_lt long)

/-- A header is split into its name and its value. -/
theorem split_header {name value : Bytes} (nameFree : SeqFree name) (valueFree : SeqFree value)
    (short : name.length + 2 < 2 ^ 31) :
    split (name ++ (headSeq ++ value)) headSeq = some [name, value] := by
  have front : name ++ (headSeq ++ value) = (name ++ headSeq) ++ value := by
    rw [List.append_assoc]
  have size : (name ++ headSeq).length = name.length + 2 := List.length_append
  have length : (name ++ (headSeq ++ value)).length = name.length + value.length + 1 + 1 := by
    simp only [List.length_append, headSeq, List.length_cons, List.length_nil]
    omega
  have last : splitFrom (name ++ (headSeq ++ value)) headSeq
      (name ++ (headSeq ++ value)).length (name.length + 2) = some [value] := by
    rw [length, splitFrom_last, front, ← size, List.drop_left]
    intro pos behind occurs
    rw [front, OccursAt, List.drop_append, List.drop_eq_nil_of_le (by omega),
      List.nil_append] at occurs
    exact valueFree _ occurs
  rw [split_name nameFree, if_pos short, last]
  rfl

/-- A header whose name is too long makes `split` throw. -/
theorem split_header_long {name value : Bytes} (nameFree : SeqFree name)
    (long : 2 ^ 31 ≤ name.length + 2) : split (name ++ (headSeq ++ value)) headSeq = none := by
  rw [split_name nameFree, if_neg (Nat.not_lt.mpr long)]

/-- A header has two pieces or more, where `split` gets through it. -/
theorem split_name_pieces {name value : Bytes} (free : SeqFree name) {pieces : List Bytes}
    (cut : split (name ++ (headSeq ++ value)) headSeq = some pieces) :
    ∃ second more, pieces = name :: second :: more := by
  rw [split_name free] at cut
  split at cut
  · obtain ⟨behind, found, rfl⟩ := Option.map_eq_some_iff.mp cut
    obtain ⟨second, more, rfl⟩ := List.exists_cons_of_ne_nil (splitFrom_ne_nil found)
    exact ⟨second, more, rfl⟩
  · cases cut

/-- Under another name of the same size a header has the same other pieces. -/
theorem split_renamed {name other value : Bytes} (nameFree : SeqFree name)
    (otherFree : SeqFree other) (size : name.length = other.length) :
    split (other ++ (headSeq ++ value)) headSeq =
      (split (name ++ (headSeq ++ value)) headSeq).map fun pieces => other :: pieces.tail := by
  have behind : splitFrom (name ++ (headSeq ++ value)) headSeq
      (name ++ (headSeq ++ value)).length (name.length + 2) =
        splitFrom (other ++ (headSeq ++ value)) headSeq
          (other ++ (headSeq ++ value)).length (other.length + 2) := by
    rw [splitFrom_front size _ (Nat.le_add_right _ _)]
    simp only [List.length_append, size]
  rw [split_name otherFree, split_name nameFree, behind, size]
  split
  · rw [Option.map_map]
    rfl
  · rfl

end Hnw.Util
