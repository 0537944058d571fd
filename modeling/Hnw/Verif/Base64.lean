import Hnw.Theory.Pieces
import Hnw.Util.Codec

/-!
# Base64, there and back

Decoding an encoded text gives the text and a zero byte for each padding, and returns it as a C
string. So the padding's bytes are lost, and so is everything from the first NUL of the text on.
-/

namespace Hnw.Util

open Hnw.Theory

/-- A number of six bits has a letter that stands for it. -/
theorem binaryFromBase64_letter {digit : Nat} (small : digit < 2 ^ 6) :
    binaryFromBase64 (base64FromBinary digit) = some digit := by
  have all : ∀ digit < 64, binaryFromBase64 (base64FromBinary digit) = some digit := by
    decide +kernel
  exact all digit small

/-- The letters of an encoded text come in fours. -/
theorem encodeBase64_length (src : Bytes) :
    (encodeBase64 src).length = 4 * ((src.length + 2) / 3) := by
  rw [encodeBase64, List.length_append, List.length_map, List.length_replicate, regroupFilled,
    digitsOf_length, flatMap_bitsOf_length, List.length_map, digitsFor]
  omega

/-- The bytes of a text, as numbers of eight bits. -/
theorem numbers_small (src : Bytes) : ∀ digit ∈ src.map UInt8.toNat, digit < 2 ^ 8 := by
  intro digit member
  obtain ⟨byte, _, rfl⟩ := List.mem_map.mp member
  exact byte.toNat_lt

/-- The letters of an encoded text are read as the digits it was regrouped to, and zeros for the
padding. -/
theorem readLetters_encodeBase64 (src : Bytes) :
    (lettersRead (encodeBase64 src)).mapM binaryFromBase64 =
      some (regroupFilled 8 6 (src.map UInt8.toNat) ++
        List.replicate ((3 - src.length % 3) % 3) 0) := by
  have whole : ¬ (encodeBase64 src).length % 4 = 1 := by
    rw [encodeBase64_length, Nat.mul_mod_right]
    decide
  have digits : ((regroupFilled 8 6 (src.map UInt8.toNat)).map base64FromBinary).mapM
      binaryFromBase64 = some (regroupFilled 8 6 (src.map UInt8.toNat)) :=
    mapM_print fun digit member => binaryFromBase64_letter (lt_of_mem_digitsOf member)
  have zeros : ∀ count : Nat, (List.replicate count padding).mapM binaryFromBase64 =
      some (List.replicate count 0) := by
    intro count
    have made : List.replicate count padding = (List.replicate count 0).map fun _ => padding := by
      rw [List.map_const', List.length_replicate]
    rw [made]
    refine mapM_print fun digit member => ?_
    rw [List.eq_of_mem_replicate member]
    rfl
  rw [lettersRead, if_neg whole, encodeBase64, List.mapM_append, digits, zeros]
  rfl

/-- The bits of a text fill its letters with as many zero bytes as there are paddings. -/
theorem padding_fits (src : Bytes) :
    digitsFor 6 ((src.map UInt8.toNat).length * 8) * 6 + (3 - src.length % 3) % 3 * 6 =
      ((src.map UInt8.toNat).length + (3 - src.length % 3) % 3) * 8 := by
  rw [List.length_map, digitsFor]
  omega

/-- Bytes come back from their numbers. -/
theorem map_toUInt8_toNat (src : Bytes) : (src.map UInt8.toNat).map Nat.toUInt8 = src := by
  rw [List.map_map]
  exact List.map_id'' (fun byte => UInt8.ofNat_toNat) src

/-- A C string of a text that begins with a byte. -/
theorem cStr_cons (byte : UInt8) (rest : Bytes) :
    cStr (byte :: rest) = if byte = 0 then [] else byte :: cStr rest := by
  by_cases nul : byte = 0
  · rw [if_pos nul, cStr, List.takeWhile_cons_of_neg (by simp [nul])]
  · rw [if_neg nul, cStr, List.takeWhile_cons_of_pos (by simp [nul]), cStr]

/-- A C string does not show the zero bytes behind a text. -/
theorem cStr_zeros (src : Bytes) (count : Nat) :
    cStr (src ++ List.replicate count 0) = cStr src := by
  induction src with
  | nil => cases count <;> rfl
  | cons byte src ih => rw [List.cons_append, cStr_cons, cStr_cons, ih]

/-- Decoding an encoded text gives what a C string shows of it. -/
theorem decodeBase64_encodeBase64 (src : Bytes) :
    decodeBase64 (encodeBase64 src) = cStr src := by
  have back := regroupWhole_regroupFilled ((3 - src.length % 3) % 3) ((3 - src.length % 3) % 3)
    (by decide) (by decide) (numbers_small src) (padding_fits src)
  have read := readLetters_encodeBase64 src
  rw [decodeBase64, read]
  simp only
  rw [back, List.map_append, map_toUInt8_toNat, List.map_replicate]
  exact cStr_zeros src _

/-- A C string shows a whole text without NUL, and no other. -/
theorem cStr_eq_iff (src : Bytes) : cStr src = src ↔ 0 ∉ src := by
  rw [cStr, List.takeWhile_eq_self_iff]
  constructor
  · intro all member
    exact absurd (all 0 member) (by decide)
  · intro free byte member
    rw [decide_eq_true_eq]
    rintro rfl
    exact free member

/-- Base64 brings a text back whole just where it holds no NUL. -/
theorem base64_round_trip (src : Bytes) :
    ((encodeBase64 src).length = 4 * ((src.length + 2) / 3) ∧
      decodeBase64 (encodeBase64 src) = src) ↔ 0 ∉ src := by
  rw [decodeBase64_encodeBase64, cStr_eq_iff]
  exact and_iff_right (encodeBase64_length src)

/-- A NUL is encoded, and decoded to the empty text. -/
theorem base64_loses_nul :
    ¬ ((encodeBase64 [0]).length = 4 * ((([0] : Bytes).length + 2) / 3) ∧
      decodeBase64 (encodeBase64 [0]) = [0]) := by
  rw [decodeBase64_encodeBase64, cStr_eq_iff]
  exact fun lost => lost.2 List.mem_cons_self

end Hnw.Util
