import Hnw.Util.Url

/-!
# Percent-encoding

What the units of an encoded text stand for is a relation of its own; the decoder's cursor goes
from unit to unit as long as it does not wrap. A `%` behind the last whole unit makes it read
past the NUL. An encoded text is made of units that stand for the text, so it is decoded unless it
is too long for the cursor.
-/

namespace Hnw.Util

/-- A text of whole units and what they stand for: a byte other than `%` stands for itself, a `%`
and two bytes for the byte of these digits. -/
inductive Stands : Bytes → Bytes → Prop
  /-- No unit. -/
  | nil : Stands [] []
  /-- A byte other than `%`. -/
  | kept {byte : UInt8} {rest text : Bytes} (other : byte ≠ percent) (later : Stands rest text) :
      Stands (byte :: rest) (byte :: text)
  /-- A `%` and two bytes. -/
  | coded (high low : UInt8) {rest text : Bytes} (later : Stands rest text) :
      Stands (percent :: high :: low :: rest)
        (charOf (hexChar2dec high * 16 + hexChar2dec low) :: text)

/-- Units stand for one text. -/
theorem Stands.unique {front text other : Bytes} (first : Stands front text)
    (second : Stands front other) : text = other := by
  induction first generalizing other with
  | nil =>
    cases second
    rfl
  | kept differs _ ih =>
    cases second with
    | kept _ later => rw [ih later]
    | coded high low later => exact absurd rfl differs
  | coded high low _ ih =>
    cases second with
    | kept differs _ => exact absurd rfl differs
    | coded _ _ later => rw [ih later]

/-- Whole units may follow whole units. -/
theorem Stands.append {front rest text other : Bytes} (first : Stands front text)
    (second : Stands rest other) : Stands (front ++ rest) (text ++ other) := by
  induction first with
  | nil => exact second
  | kept differs _ ih => exact .kept differs ih
  | coded high low _ ih => exact .coded high low ih

/-! ## One round of the decoder -/

/-- A cursor in range is left as it is. -/
theorem cursor_small {position : Nat} (small : position < 2 ^ 32) : cursor position = position :=
  Nat.mod_eq_of_lt small

/-- A cursor is in range. -/
theorem cursor_lt (position : Nat) : cursor position < 2 ^ 32 := Nat.mod_lt _ (by decide)

/-- Reading a byte of the text. -/
theorem charAt_of_getElem? {url : Bytes} {i : Nat} {c : UInt8} (there_ : url[i]? = some c) :
    charAt url i = some c := by
  obtain ⟨inside, _⟩ := List.getElem?_eq_some_iff.mp there_
  rw [charAt, if_neg (by omega), there_]

/-- Only the bytes behind the NUL are not there. -/
theorem charAt_eq_none_iff {url : Bytes} {i : Nat} : charAt url i = none ↔ url.length < i := by
  rw [charAt]
  split
  · simp only [reduceCtorEq, false_iff]
    omega
  · rw [List.getElem?_eq_none_iff]
    omega

/-- A round at a byte other than `%`. -/
theorem decodeRound_kept {url : Bytes} {i : Nat} {c : UInt8} (there_ : url[i]? = some c)
    (other : c ≠ percent) : decodeRound url i = some (c, cursor (i + 1)) := by
  rw [decodeRound, charAt_of_getElem? there_]
  simp only [Option.bind_eq_bind, Option.bind_some, if_neg other]
  rfl

/-- A round at a `%`. -/
theorem decodeRound_coded {url : Bytes} {i : Nat} (there_ : url[i]? = some percent) :
    decodeRound url i =
      (charAt url (cursor (i + 1))).bind fun c1 =>
        (charAt url (cursor (cursor (i + 1) + 1))).bind fun c0 =>
          some (charOf (hexChar2dec c1 * 16 + hexChar2dec c0),
            cursor (cursor (cursor (i + 1) + 1) + 1)) := by
  rw [decodeRound, charAt_of_getElem? there_]
  simp only [Option.bind_eq_bind, Option.bind_some, if_pos]
  rfl

/-- A round reads a byte that is not there just at a `%` in the last place, where the cursor does
not wrap. -/
theorem decodeRound_eq_none_iff {url : Bytes} {i : Nat} (inside : i < url.length) :
    decodeRound url i = none ↔
      url[i]? = some percent ∧ i + 1 = url.length ∧ i + 2 < 2 ^ 32 := by
  have here : url[i]? = some url[i] := List.getElem?_eq_getElem inside
  by_cases code : url[i] = percent
  · rw [code] at here
    have first : charAt url (cursor (i + 1)) ≠ none := by
      rw [Ne, charAt_eq_none_iff, cursor]
      omega
    obtain ⟨c1, read⟩ := Option.ne_none_iff_exists'.mp first
    rw [decodeRound_coded here, read, Option.bind_some, Option.bind_eq_none_iff, here]
    simp only [reduceCtorEq, imp_false, true_and]
    have second : (∀ c0, ¬ charAt url (cursor (cursor (i + 1) + 1)) = some c0) ↔
        charAt url (cursor (cursor (i + 1) + 1)) = none := Option.eq_none_iff_forall_ne_some.symm
    rw [second, charAt_eq_none_iff, cursor, cursor]
    omega
  · rw [decodeRound_kept here code, here]
    simp [code]

/-- What a round that reads what is there does: it adds the byte under the cursor, or the byte
that the two behind it code. -/
theorem decodeRound_cases {url : Bytes} {i next : Nat} {byte : UInt8} (inside : i < url.length)
    (read : decodeRound url i = some (byte, next)) :
    (url[i]? = some byte ∧ byte ≠ percent ∧ next = cursor (i + 1)) ∨
      ∃ high low, url[i]? = some percent ∧ charAt url (cursor (i + 1)) = some high ∧
        charAt url (cursor (cursor (i + 1) + 1)) = some low ∧
        next = cursor (cursor (cursor (i + 1) + 1) + 1) := by
  have here : url[i]? = some url[i] := List.getElem?_eq_getElem inside
  by_cases code : url[i] = percent
  · rw [code] at here
    rw [decodeRound_coded here] at read
    obtain ⟨high, first, read⟩ := Option.bind_eq_some_iff.mp read
    obtain ⟨low, second, read⟩ := Option.bind_eq_some_iff.mp read
    exact Or.inr ⟨high, low, here, first, second, (Prod.mk.inj (Option.some.inj read)).2.symm⟩
  · rw [decodeRound_kept here code] at read
    obtain ⟨same, rfl⟩ := Prod.mk.inj (Option.some.inj read)
    rw [same] at here code
    exact Or.inl ⟨here, code, rfl⟩

/-- The next cursor is in range. -/
theorem decodeRound_next_lt {url : Bytes} {i next : Nat} {byte : UInt8} (inside : i < url.length)
    (read : decodeRound url i = some (byte, next)) : next < 2 ^ 32 := by
  rcases decodeRound_cases inside read with ⟨_, _, rfl⟩ | ⟨_, _, _, _, _, rfl⟩
  · exact cursor_lt _
  · exact cursor_lt _

/-! ## The rounds of the decoder -/

/-- A round that reads what is there goes on with its byte. -/
theorem decodeFrom_succ {url : Bytes} {i next : Nat} {byte : UInt8}
    (read : decodeRound url i = some (byte, next)) (inside : i < url.length) (fuel : Nat)
    (result : Bytes) :
    decodeFrom url (fuel + 1) i result = decodeFrom url fuel next (result ++ [byte]) := by
  rw [decodeFrom, if_pos inside, read]

/-- A byte behind what was decoded is kept, where no cursor wraps. -/
theorem decodeFrom_kept {pre more : Bytes} {byte : UInt8} (other : byte ≠ percent)
    (short : (pre ++ byte :: more).length < 2 ^ 32) (fuel : Nat) (result : Bytes) :
    decodeFrom (pre ++ byte :: more) (fuel + 1) pre.length result =
      decodeFrom (pre ++ byte :: more) fuel (pre.length + 1) (result ++ [byte]) := by
  rw [List.length_append, List.length_cons] at short
  have here : (pre ++ byte :: more)[pre.length]? = some byte := by
    rw [List.getElem?_append_right (Nat.le_refl _), Nat.sub_self]
    rfl
  have round := decodeRound_kept here other
  rw [cursor_small (by omega)] at round
  apply decodeFrom_succ round
  rw [List.length_append, List.length_cons]
  omega

/-- A `%` behind what was decoded takes the two bytes behind it, where no cursor wraps. -/
theorem decodeFrom_coded {pre more : Bytes} {high low : UInt8}
    (short : (pre ++ percent :: high :: low :: more).length < 2 ^ 32) (fuel : Nat)
    (result : Bytes) :
    decodeFrom (pre ++ percent :: high :: low :: more) (fuel + 1) pre.length result =
      decodeFrom (pre ++ percent :: high :: low :: more) fuel (pre.length + 3)
        (result ++ [charOf (hexChar2dec high * 16 + hexChar2dec low)]) := by
  simp only [List.length_append, List.length_cons] at short
  have at_ : ∀ offset, (pre ++ percent :: high :: low :: more)[pre.length + offset]? =
      (percent :: high :: low :: more)[offset]? := by
    intro offset
    rw [List.getElem?_append_right (Nat.le_add_right _ _), Nat.add_sub_cancel_left]
  have first := charAt_of_getElem? (at_ 1)
  have second := charAt_of_getElem? (at_ 2)
  have round := decodeRound_coded (at_ 0)
  rw [Nat.add_zero, cursor_small (by omega : pre.length + 1 < 2 ^ 32),
    cursor_small (by omega : pre.length + 1 + 1 < 2 ^ 32),
    cursor_small (by omega : pre.length + 1 + 1 + 1 < 2 ^ 32), first, second, Option.bind_some,
    Option.bind_some] at round
  apply decodeFrom_succ round
  simp only [List.length_append, List.length_cons]
  omega

/-- Whole units are decoded to what they stand for, where no cursor wraps. -/
theorem decodeFrom_units {pre front rest text url : Bytes} (units : Stands front text)
    (whole : url = pre ++ front ++ rest) (short : url.length < 2 ^ 32) (fuel : Nat)
    (result : Bytes) :
    decodeFrom url (text.length + fuel) pre.length result =
      decodeFrom url fuel (pre.length + front.length) (result ++ text) := by
  induction units generalizing pre result with
  | nil => rw [List.length_nil, Nat.zero_add, Nat.add_zero, List.append_nil]
  | @kept byte front text other _ ih =>
    have behind : url = pre ++ byte :: (front ++ rest) := by
      rw [whole, List.append_assoc, List.cons_append]
    have split : url = (pre ++ [byte]) ++ front ++ rest := by
      rw [behind, List.append_assoc, List.append_assoc, List.singleton_append]
    have later := ih split (result ++ [byte])
    have step := decodeFrom_kept other (behind ▸ short) (text.length + fuel) result
    rw [← behind] at step
    rw [List.length_append, List.length_singleton] at later
    rw [List.length_cons, Nat.succ_add, step, later, List.append_assoc, List.singleton_append,
      List.length_cons, Nat.add_assoc, Nat.add_comm 1]
  | @coded high low front text _ ih =>
    have behind : url = pre ++ percent :: high :: low :: (front ++ rest) := by
      rw [whole, List.append_assoc]
      rfl
    have split : url = (pre ++ [percent, high, low]) ++ front ++ rest := by
      rw [behind, List.append_assoc, List.append_assoc]
      rfl
    have later := ih split (result ++ [charOf (hexChar2dec high * 16 + hexChar2dec low)])
    have step := @decodeFrom_coded pre (front ++ rest) high low (behind ▸ short)
      (text.length + fuel) result
    have width : (pre ++ [percent, high, low]).length = pre.length + 3 := List.length_append
    rw [← behind] at step
    rw [width] at later
    rw [List.length_cons, Nat.succ_add, step, later, List.append_assoc, List.singleton_append,
      List.length_cons, List.length_cons, List.length_cons, Nat.add_assoc, Nat.add_comm 3]

/-! ## Reading past the end -/

/-- Where no cursor wraps, a round leaves whole units behind the next cursor. -/
theorem decodeRound_units {url : Bytes} {i next : Nat} {byte : UInt8} {text : Bytes}
    (short : url.length + 1 < 2 ^ 32) (inside : i < url.length)
    (units : Stands (url.take i) text) (read : decodeRound url i = some (byte, next))
    (within : next ≤ url.length) : ∃ text, Stands (url.take next) text := by
  rcases decodeRound_cases inside read with
    ⟨here, other, rfl⟩ | ⟨high, low, here, first, second, rfl⟩
  · rw [cursor_small (by omega), List.take_add_one, here]
    exact ⟨_, units.append (.kept other .nil)⟩
  · have wide : charAt url (cursor (cursor (i + 1) + 1)) ≠ none := by
      rw [second]
      exact Option.some_ne_none low
    rw [Ne, charAt_eq_none_iff, cursor_small (by omega : i + 1 < 2 ^ 32),
      cursor_small (by omega : i + 1 + 1 < 2 ^ 32)] at wide
    rw [cursor_small (by omega : i + 1 < 2 ^ 32), cursor_small (by omega : i + 1 + 1 < 2 ^ 32),
      cursor_small (by omega : i + 1 + 1 + 1 < 2 ^ 32)] at within ⊢
    have one : url[i + 1]? = some url[i + 1] := List.getElem?_eq_getElem (by omega)
    have two : url[i + 1 + 1]? = some url[i + 1 + 1] := List.getElem?_eq_getElem (by omega)
    rw [List.take_add_one, List.take_add_one, List.take_add_one, here, one, two, List.append_assoc,
      List.append_assoc]
    exact ⟨_, units.append (.coded _ _ .nil)⟩

/-- Where no cursor wraps, a byte that is not there is read only behind whole units and a `%`. -/
theorem decodeFrom_outOfBounds {url : Bytes} (short : url.length + 1 < 2 ^ 32) {fuel i : Nat}
    {result : Bytes} (units : i ≤ url.length → ∃ text, Stands (url.take i) text)
    (past : decodeFrom url fuel i result = .outOfBounds) :
    ∃ front text, Stands front text ∧ url = front ++ [percent] := by
  induction fuel generalizing i result with
  | zero => cases past
  | succ fuel ih =>
    by_cases inside : i < url.length
    · obtain ⟨text, units⟩ := units inside.le
      cases read : decodeRound url i with
      | none =>
        obtain ⟨code, last, _⟩ := (decodeRound_eq_none_iff inside).mp read
        have whole : url.take (i + 1) = url := List.take_of_length_le last.ge
        rw [List.take_add_one, code] at whole
        exact ⟨url.take i, text, units, whole.symm⟩
      | some round =>
        rw [decodeFrom_succ read inside] at past
        exact ih (decodeRound_units short inside units read) past
    · rw [decodeFrom, if_neg inside] at past
      cases past

/-- In a text that fills the range of the cursor, every byte read is there. -/
theorem decodeFrom_long {url : Bytes} (long : 2 ^ 32 ≤ url.length + 1) (fuel : Nat) {i : Nat}
    (small : i < 2 ^ 32) (result : Bytes) : decodeFrom url fuel i result ≠ .outOfBounds := by
  induction fuel generalizing i result with
  | zero => rintro ⟨⟩
  | succ fuel ih =>
    by_cases inside : i < url.length
    · cases read : decodeRound url i with
      | none =>
        have last := (decodeRound_eq_none_iff inside).mp read
        omega
      | some round =>
        rw [decodeFrom_succ read inside]
        exact ih (decodeRound_next_lt inside read) _
    · rw [decodeFrom, if_neg inside]
      rintro ⟨⟩

/-- A `%` behind whole units makes the decoder read past the NUL, where no cursor wraps. -/
theorem decodeUrl_dangling {front text : Bytes} (units : Stands front text)
    (short : front.length + 2 < 2 ^ 32) :
    decodeUrl (front ++ [percent]) (text.length + 1) = .outOfBounds := by
  have size : (front ++ [percent]).length = front.length + 1 := List.length_append
  have run := @decodeFrom_units [] front [percent] text (front ++ [percent]) units rfl (by omega)
    1 []
  have last : decodeRound (front ++ [percent]) front.length = none := by
    rw [decodeRound_eq_none_iff (by omega)]
    refine ⟨?_, size.symm, short⟩
    rw [List.getElem?_append_right (Nat.le_refl _), Nat.sub_self]
    rfl
  rw [List.length_nil, Nat.zero_add] at run
  rw [decodeUrl, run, decodeFrom, if_pos (by omega), last]

/-- The decoder reads only bytes that are there just where no `%` stands behind the last whole
unit, or the text fills the range of the cursor. -/
theorem decodeUrl_safe_iff (url : Bytes) :
    (∀ fuel, decodeUrl url fuel ≠ .outOfBounds) ↔
      ¬ (url.length + 1 < 2 ^ 32 ∧
        ∃ front text, Stands front text ∧ url = front ++ [percent]) := by
  constructor
  · rintro safe ⟨short, front, text, units, rfl⟩
    rw [List.length_append] at short
    exact safe _ (decodeUrl_dangling units short)
  · intro free fuel past
    by_cases short : url.length + 1 < 2 ^ 32
    · have units : ∃ text, Stands (url.take 0) text := ⟨[], .nil⟩
      exact free ⟨short, decodeFrom_outOfBounds short (fun _ => units) past⟩
    · exact decodeFrom_long (Nat.le_of_not_lt short) fuel (by decide) [] past

/-- A lone `%` makes the decoder read past the NUL. -/
theorem decodeUrl_percent : ¬ ∀ fuel, decodeUrl (ascii "%") fuel ≠ .outOfBounds := by
  intro safe
  exact safe 1 (decodeUrl_dangling .nil (by decide))

/-! ## What the encoder writes -/

/-- An upper-case hexadecimal digit. -/
def upperHex (c : UInt8) : Bool := (48 ≤ c ∧ c ≤ 57) ∨ (65 ≤ c ∧ c ≤ 70)

/-- Digits, letters, `/`, `.`, and `%` with two upper-case hexadecimal digits behind it. -/
inductive Encoded : Bytes → Prop
  /-- No byte. -/
  | nil : Encoded []
  /-- A digit, a letter, `/` or `.`. -/
  | kept {byte : UInt8} {rest : Bytes} (plain : keptByte byte = true) (later : Encoded rest) :
      Encoded (byte :: rest)
  /-- A `%` and two digits. -/
  | coded {high low : UInt8} {rest : Bytes} (first : upperHex high = true)
      (second : upperHex low = true) (later : Encoded rest) :
      Encoded (percent :: high :: low :: rest)

/-- A digit of a byte is written in upper case and read back. -/
theorem dec2hexChar_spec {n : Nat} (small : n < 16) :
    upperHex (dec2hexChar n) = true ∧ hexChar2dec (dec2hexChar n) = n := by
  have all : ∀ n < 16, upperHex (dec2hexChar (n : Nat)) = true ∧
      hexChar2dec (dec2hexChar (n : Nat)) = (n : Nat) := by decide +kernel
  exact all n small

/-- The correction of the sign gives the value of the byte. -/
theorem signedChar_corrected (c : UInt8) :
    (if signedChar c < 0 then signedChar c + 256 else signedChar c) = c.toNat := by
  have range := c.toNat_lt
  have limit : (128 : UInt8).toNat = 128 := rfl
  by_cases low : c < 128
  · have value : signedChar c = c.toNat := if_pos low
    rw [value, if_neg (by omega)]
  · have value : signedChar c = c.toNat - 256 := if_neg low
    rw [UInt8.lt_iff_toNat_lt] at low
    rw [value, if_pos (by omega)]
    omega

/-- The byte of a value. -/
theorem charOf_toNat (c : UInt8) : charOf c.toNat = c := by
  have range := c.toNat_lt
  have small : ((c.toNat : Int) % 256).toNat = c.toNat := by omega
  rw [charOf, small]
  exact UInt8.ofNat_toNat

/-- A byte is encoded by itself, or by `%` and two digits that stand for it. -/
theorem encodeChar_cases (c : UInt8) :
    (keptByte c = true ∧ encodeChar c = [c]) ∨
      (keptByte c = false ∧ ∃ high low, encodeChar c = [percent, high, low] ∧
        upperHex high = true ∧ upperHex low = true ∧
        charOf (hexChar2dec high * 16 + hexChar2dec low) = c) := by
  by_cases plain : keptByte c = true
  · exact Or.inl ⟨plain, by rw [encodeChar, if_pos plain]⟩
  · refine Or.inr ⟨Bool.eq_false_of_not_eq_true plain, dec2hexChar (c.toNat / 16 : Nat),
      dec2hexChar (c.toNat % 16 : Nat), ?_⟩
    have range := c.toNat_lt
    have high := dec2hexChar_spec (show c.toNat / 16 < 16 by omega)
    have low := dec2hexChar_spec (show c.toNat % 16 < 16 by omega)
    have whole : (((c.toNat / 16 : Nat) : Int) * 16 + ((c.toNat % 16 : Nat) : Int)) = c.toNat := by
      omega
    have rest : (c.toNat : Int) - ((c.toNat / 16 : Nat) : Int) * 16 =
        ((c.toNat % 16 : Nat) : Int) := by omega
    refine ⟨?_, high.1, low.1, by rw [high.2, low.2, whole, charOf_toNat]⟩
    rw [encodeChar, if_neg plain]
    simp only [signedChar_corrected]
    rw [← rest]
    rfl

/-- The encoder's loop goes through the text as long as it has rounds. -/
theorem encodeFrom_eq {url pre rest : Bytes} (whole : url = pre ++ rest)
    (short : url.length < 2 ^ 32) (fuel : Nat) (result : Bytes) :
    encodeFrom url fuel pre.length result =
      if rest.length < fuel then some (result ++ rest.flatMap encodeChar) else none := by
  induction rest generalizing pre fuel result with
  | nil =>
    cases fuel with
    | zero => rfl
    | succ fuel =>
      have size : url.length = pre.length := by rw [whole, List.append_nil]
      have none_ : url[pre.length]? = none := List.getElem?_eq_none size.le
      have enough : ([] : Bytes).length < fuel + 1 := Nat.succ_pos fuel
      rw [encodeFrom, none_, if_pos enough, List.flatMap_nil, List.append_nil]
  | cons byte rest ih =>
    cases fuel with
    | zero => rfl
    | succ fuel =>
      have here : url[pre.length]? = some byte := by
        rw [whole, List.getElem?_append_right (Nat.le_refl _), Nat.sub_self]
        rfl
      have size : url.length = pre.length + rest.length + 1 := by
        rw [whole, List.length_append]
        rfl
      have next : url = pre ++ [byte] ++ rest := by rw [whole, List.append_assoc]; rfl
      have later := ih next fuel (result ++ encodeChar byte)
      rw [List.length_append, List.length_singleton] at later
      rw [encodeFrom, here]
      simp only
      rw [cursor_small (by omega), later, List.flatMap_cons, List.append_assoc]
      simp only [List.length_cons, Nat.succ_lt_succ_iff]

/-- `encode_url` returns a text. -/
def Encodes (url encoded : Bytes) : Prop := ∃ fuel, encodeUrl url fuel = some encoded

/-- The encoder returns one text: what its rounds add. -/
theorem encodes_iff {url encoded : Bytes} (short : url.length < 2 ^ 32) :
    Encodes url encoded ↔ encoded = url.flatMap encodeChar := by
  have run : ∀ fuel, encodeUrl url fuel =
      if url.length < fuel then some (url.flatMap encodeChar) else none :=
    fun fuel => @encodeFrom_eq url [] url rfl short fuel []
  constructor
  · rintro ⟨fuel, returned⟩
    rw [run] at returned
    split at returned
    · exact (Option.some.inj returned).symm
    · cases returned
  · rintro rfl
    exact ⟨url.length + 1, by rw [run, if_pos (Nat.lt_succ_self _)]⟩

/-- An encoded text is of the encoder's alphabet. -/
theorem encoded_flatMap (url : Bytes) : Encoded (url.flatMap encodeChar) := by
  induction url with
  | nil => exact .nil
  | cons byte url ih =>
    rw [List.flatMap_cons]
    rcases encodeChar_cases byte with ⟨plain, self⟩ | ⟨_, high, low, code, first, second, _⟩
    · rw [self]
      exact .kept plain ih
    · rw [code]
      exact .coded first second ih

/-- An encoded text stands for the text. -/
theorem stands_flatMap (url : Bytes) : Stands (url.flatMap encodeChar) url := by
  induction url with
  | nil => exact .nil
  | cons byte url ih =>
    rw [List.flatMap_cons]
    rcases encodeChar_cases byte with ⟨plain, self⟩ | ⟨_, high, low, code, _, _, value⟩
    · rw [self]
      refine .kept ?_ ih
      rintro rfl
      exact absurd plain (by decide)
    · rw [code]
      have unit := Stands.coded high low ih
      rwa [value] at unit

/-- An encoded text has a byte for each that is kept and three for each other. -/
theorem flatMap_encodeChar_length (url : Bytes) :
    (url.flatMap encodeChar).length = url.length + 2 * url.countP fun c => !keptByte c := by
  induction url with
  | nil => rfl
  | cons byte url ih =>
    rw [List.flatMap_cons, List.length_append, ih, List.countP_cons, List.length_cons]
    rcases encodeChar_cases byte with ⟨plain, self⟩ | ⟨plain, _, _, code, _⟩
    · rw [self, plain, List.length_singleton]
      simp only [Bool.not_true, Bool.false_eq_true, if_false]
      omega
    · rw [code, plain]
      simp only [Bool.not_false, if_true, List.length_cons, List.length_nil]
      omega

/-! ## There and back -/

/-- A text longer than the range of the cursor is never decoded to its end. -/
theorem decodeFrom_endless {url : Bytes} (long : 2 ^ 32 ≤ url.length) (fuel : Nat) {i : Nat}
    (small : i < 2 ^ 32) (result text : Bytes) :
    decodeFrom url fuel i result ≠ .returned text := by
  induction fuel generalizing i result with
  | zero => rintro ⟨⟩
  | succ fuel ih =>
    have inside : i < url.length := by omega
    cases read : decodeRound url i with
    | none =>
      rw [decodeFrom, if_pos inside, read]
      rintro ⟨⟩
    | some round =>
      rw [decodeFrom_succ read inside]
      exact ih (decodeRound_next_lt inside read) _

/-- Whole units that the cursor can go through are decoded to what they stand for. -/
theorem decodeUrl_units {url text : Bytes} (units : Stands url text)
    (short : url.length < 2 ^ 32) : decodeUrl url (text.length + 1) = .returned text := by
  have whole : url = [] ++ url ++ [] := (List.append_nil url).symm
  have run := @decodeFrom_units [] url [] text url units whole short 1 []
  rw [List.length_nil, Nat.zero_add, List.nil_append] at run
  rw [decodeUrl, run, decodeFrom, if_neg (Nat.lt_irrefl _)]

/-- A text is encoded in the encoder's alphabet, and decoded to itself. -/
def PercentRoundTrips (url : Bytes) : Prop :=
  ∃ encoded, Encodes url encoded ∧ Encoded encoded ∧
    ∃ fuel, decodeUrl encoded fuel = .returned url

/-- A text comes back from its encoding just where the decoder's cursor can go through that. -/
theorem percentRoundTrips_iff_fits {url : Bytes} (short : url.length < 2 ^ 31) :
    PercentRoundTrips url ↔ url.length + 2 * (url.countP fun c => !keptByte c) < 2 ^ 32 := by
  rw [← flatMap_encodeChar_length]
  constructor
  · rintro ⟨encoded, encodes, _, fuel, back⟩
    rw [encodes_iff (by omega)] at encodes
    rw [encodes] at back
    by_contra long
    exact decodeFrom_endless (Nat.le_of_not_lt long) fuel (by decide) [] url back
  · intro fits
    exact ⟨_, (encodes_iff (by omega)).mpr rfl, encoded_flatMap url, _,
      decodeUrl_units (stands_flatMap url) fits⟩

/-- Percent-encoding loses nothing, and the decoder brings a text back just where the encoding is
short enough for its cursor. -/
theorem percent_round_trip_iff {url : Bytes} (short : url.length < 2 ^ 31) :
    (PercentRoundTrips url ↔ url.length + 2 * (url.countP fun c => !keptByte c) < 2 ^ 32) ∧
      ∀ other encoded : Bytes, other.length < 2 ^ 31 → Encodes url encoded →
        Encodes other encoded → url = other := by
  refine ⟨percentRoundTrips_iff_fits short, fun other encoded small first second => ?_⟩
  rw [encodes_iff (by omega)] at first second
  have units := stands_flatMap other
  rw [← second, first] at units
  exact (stands_flatMap url).unique units

/-- A blank is encoded by three bytes and comes back, and no other text has its encoding. -/
theorem percent_round_trip_blank :
    PercentRoundTrips [32] ∧
      ∀ other encoded : Bytes, other.length < 2 ^ 31 → Encodes [32] encoded →
        Encodes other encoded → [32] = other :=
  have both := @percent_round_trip_iff [32] (by decide)
  ⟨both.1.mpr (by decide), both.2⟩

/-- As many blanks as make the encoding longer than the cursor's range do not come back. -/
theorem blanks_not_percentRoundTrips :
    (List.replicate 1431655766 (32 : UInt8)).length < 2 ^ 31 ∧
      ¬ PercentRoundTrips (List.replicate 1431655766 32) := by
  have size : (List.replicate 1431655766 (32 : UInt8)).length = 1431655766 :=
    List.length_replicate
  have short : (List.replicate 1431655766 (32 : UInt8)).length < 2 ^ 31 := by
    rw [size]
    decide
  refine ⟨short, ?_⟩
  rw [percentRoundTrips_iff_fits short, size, List.countP_replicate]
  decide

end Hnw.Util
