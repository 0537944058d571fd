import Hnw.Theory.Pieces
import Hnw.Verif.Text

/-!
# `split` at a byte

At a separator of one byte `split` is `List.splitOn`, as long as its cursor, an `int`, gets behind
every separator.
-/

namespace Hnw.Util

open Hnw.Theory

/-- Every occurrence of a byte stands where `split` can go on behind it. -/
def BytesNear (byte : UInt8) (text : Bytes) : Prop :=
  ∀ pos : Nat, text[pos]? = some byte → pos + 1 < 2 ^ 31

instance (byte : UInt8) (text : Bytes) : Decidable (BytesNear byte text) :=
  decidable_of_iff (∀ pos < text.length, text[pos]? = some byte → pos + 1 < 2 ^ 31)
    ⟨fun near pos here => near pos (List.getElem?_eq_some_iff.mp here).1 here,
      fun near pos _ => near pos⟩

variable {byte : UInt8} {text front rest : Bytes}

/-- In a text without the byte nothing is too far. -/
theorem bytesNear_of_free (free : byte ∉ text) : BytesNear byte text :=
  fun _ here => absurd (List.mem_of_getElem? here) free

/-- In a text that is no longer than an `int` nothing is too far. -/
theorem bytesNear_of_short (short : text.length < 2 ^ 31) : BytesNear byte text := by
  intro pos here
  have inside := (List.getElem?_eq_some_iff.mp here).1
  omega

/-- The byte behind a text is near where the text is short. -/
theorem BytesNear.front_short (near : BytesNear byte (front ++ byte :: rest)) :
    front.length + 1 < 2 ^ 31 := by
  apply near
  rw [List.getElem?_append_right (Nat.le_refl _), Nat.sub_self]
  rfl

/-- What stands behind a text is as near as both together. -/
theorem bytesNear_append :
    BytesNear byte (front ++ rest) ↔ BytesNear byte front ∧
      ∀ pos : Nat, rest[pos]? = some byte → front.length + pos + 1 < 2 ^ 31 := by
  constructor
  · intro near
    refine ⟨fun pos here => near pos ?_, fun pos here => near (front.length + pos) ?_⟩
    · rw [List.getElem?_append_left (List.getElem?_eq_some_iff.mp here).1]
      exact here
    · rw [List.getElem?_append_right (Nat.le_add_right _ _), Nat.add_sub_cancel_left]
      exact here
  · rintro ⟨inFront, behind⟩ pos here
    by_cases before : pos < front.length
    · rw [List.getElem?_append_left before] at here
      exact inFront pos here
    · rw [List.getElem?_append_right (by omega)] at here
      have far := behind _ here
      omega

/-- `split` from a cursor on, where every separator is near. -/
theorem splitFrom_near {fuel : Nat} (enough : rest.length < fuel)
    (near : BytesNear byte (front ++ rest)) :
    splitFrom (front ++ rest) [byte] fuel front.length = some (rest.splitOn byte) := by
  induction rest using pieces_induction byte generalizing front fuel with
  | last piece free =>
    obtain ⟨fuel, rfl⟩ := Nat.exists_eq_add_one_of_ne_zero (Nat.ne_zero_of_lt enough)
    rw [splitFrom_byte_last fuel free, List.splitOn_eq_singleton free]
  | next piece rest free ih =>
    obtain ⟨fuel, rfl⟩ := Nat.exists_eq_add_one_of_ne_zero (Nat.ne_zero_of_lt enough)
    have far := (bytesNear_append.mp near).2 piece.length (by simp)
    rw [splitFrom_byte_piece fuel free far, List.splitOn_append_cons_self_of_not_mem free]
    have whole : front ++ (piece ++ byte :: rest) = (front ++ (piece ++ [byte])) ++ rest := by
      simp
    have size : (front ++ (piece ++ [byte])).length = front.length + piece.length + 1 := by
      simp only [List.length_append, List.length_singleton]
      omega
    rw [whole] at near ⊢
    rw [List.length_append, List.length_cons] at enough
    rw [← size, ih (by omega) near, Option.map_some]

/-- `split` at a byte cuts at every occurrence of it, or throws where one is too far behind. -/
theorem split_byte (text : Bytes) (byte : UInt8) :
    split text [byte] = if BytesNear byte text then some (text.splitOn byte) else none := by
  split
  · next near => exact @splitFrom_near byte [] text _ (Nat.lt_succ_self _) near
  · next far =>
    simp only [BytesNear, not_forall] at far
    obtain ⟨pos, here, long⟩ := far
    exact splitFrom_byte_long _ (Nat.zero_le _) (occursAt_byte.mpr here) (by omega)

/-- A text without the separator is one piece, whatever its length. -/
theorem split_byte_free (free : byte ∉ text) : split text [byte] = some [text] := by
  rw [split_byte, if_pos (bytesNear_of_free free), List.splitOn_eq_singleton free]

/-- The last separator of a text is near where what stands in front of it is short. -/
theorem bytesNear_last (restFree : byte ∉ rest) :
    BytesNear byte (front ++ byte :: rest) ↔ BytesNear byte front ∧ front.length + 1 < 2 ^ 31 := by
  constructor
  · exact fun near => ⟨(bytesNear_append.mp near).1, near.front_short⟩
  · rintro ⟨near, short⟩
    refine bytesNear_append.mpr ⟨near, fun pos here => ?_⟩
    cases pos with
    | zero => exact short
    | succ pos =>
      rw [List.getElem?_cons_succ] at here
      exact absurd (List.mem_of_getElem? here) restFree

/-- The one separator of a text is near where what stands in front of it is short. -/
theorem bytesNear_pair (frontFree : byte ∉ front) (restFree : byte ∉ rest) :
    BytesNear byte (front ++ byte :: rest) ↔ front.length + 1 < 2 ^ 31 := by
  rw [bytesNear_last restFree]
  exact ⟨And.right, fun short => ⟨bytesNear_of_free frontFree, short⟩⟩

/-- The first two pieces of a text, or `split` throws where a separator is too far behind. -/
theorem split_front (frontFree : byte ∉ front) :
    split (front ++ byte :: rest) [byte] =
      if BytesNear byte (front ++ byte :: rest) then
        some (front :: (cutFirst byte rest).1 :: (rest.splitOn byte).tail)
      else none := by
  rw [split_byte, List.splitOn_append_cons_self_of_not_mem frontFree, ← head_splitOn]

/-- A text with one separator is cut there, or `split` throws where that is too far behind. -/
theorem split_pair (frontFree : byte ∉ front) (restFree : byte ∉ rest) :
    split (front ++ byte :: rest) [byte] =
      if front.length + 1 < 2 ^ 31 then some [front, rest] else none := by
  rw [split_byte, List.splitOn_append_cons_self_of_not_mem frontFree,
    List.splitOn_eq_singleton restFree]
  simp only [bytesNear_pair frontFree restFree]

/-- Separators between pieces are near where the pieces in front of the last one are short. -/
theorem bytesNear_intercalate {pieces : List Bytes} (free : ∀ piece ∈ pieces, byte ∉ piece) :
    BytesNear byte ([byte].intercalate pieces) ↔
      (pieces.dropLast.map fun piece => piece.length + 1).sum < 2 ^ 31 := by
  rcases List.eq_nil_or_concat pieces with rfl | ⟨front, last, rfl⟩
  · simp [BytesNear]
  rw [List.concat_eq_append] at free ⊢
  rw [intercalate_concat, List.dropLast_concat]
  have lastFree : byte ∉ last := free last (by simp)
  have size : (front.flatMap (· ++ [byte])).length =
      (front.map fun piece => piece.length + 1).sum := by
    simp [List.length_flatMap]
  rw [← size]
  constructor
  · intro near
    rcases List.eq_nil_or_concat front with rfl | ⟨earlier, piece, rfl⟩
    · simp
    · rw [List.concat_eq_append] at near ⊢
      have text : (earlier ++ [piece]).flatMap (· ++ [byte]) ++ last =
          (earlier.flatMap (· ++ [byte]) ++ piece) ++ byte :: last := by
        simp [List.flatMap_append]
      rw [text] at near
      have short := near.front_short
      have length : ((earlier ++ [piece]).flatMap (· ++ [byte])).length =
          (earlier.flatMap (· ++ [byte]) ++ piece).length + 1 := by
        simp [List.flatMap_append]
        omega
      omega
  · intro short
    refine bytesNear_append.mpr ⟨bytesNear_of_short short, fun pos here => ?_⟩
    exact absurd (List.mem_of_getElem? here) lastFree

/-! ## Start lines -/

/-- The two words in front of a blank are short. -/
theorem BytesNear.words {first second rest : Bytes}
    (near : BytesNear blank (first ++ blank :: (second ++ blank :: rest))) :
    first.length + second.length + 2 < 2 ^ 31 := by
  have whole : first ++ blank :: (second ++ blank :: rest) =
      (first ++ blank :: second) ++ blank :: rest := by
    simp
  rw [whole] at near
  have short := BytesNear.front_short near
  rw [List.length_append, List.length_cons] at short
  omega

/-- Three words and what follows them, split at the blanks. -/
theorem split_words {first second rest : Bytes} (firstWord : blank ∉ first)
    (secondWord : blank ∉ second)
    (near : BytesNear blank (first ++ blank :: (second ++ blank :: rest))) :
    ∃ pieces, split (first ++ blank :: (second ++ blank :: rest)) space =
        some (first :: second :: pieces) ∧ pieces ≠ [] ∧ (blank ∉ rest → pieces = [rest]) := by
  have cut := split_byte (first ++ blank :: (second ++ blank :: rest)) blank
  rw [if_pos near, List.splitOn_append_cons_self_of_not_mem firstWord,
    List.splitOn_append_cons_self_of_not_mem secondWord] at cut
  exact ⟨rest.splitOn blank, cut, List.splitOn_ne_nil blank rest,
    fun free => List.splitOn_eq_singleton free⟩

/-- A blank too far behind makes `split` throw. -/
theorem split_words_long {text : Bytes} (far : ¬ BytesNear blank text) : split text space = none :=
  (split_byte text blank).trans (if_neg far)

end Hnw.Util
