import Hnw.Theory.Cuts
import Hnw.Verif.Text

/-!
# `split` and join

`split` searches on behind every separator it found. So what it returns are the pieces between the
leftmost separators that do not overlap, and the separator put between them gives the text back.
-/

namespace Hnw.Util

open Hnw.Theory

variable {src splitor : Bytes}

/-- Where none is found, no separator stands behind the cursor. -/
theorem not_infix_of_find {beg : Nat} (inside : beg ≤ src.length)
    (absent : find src splitor beg = none) : ¬ splitor <:+: src.drop beg := by
  rintro ⟨front, behind, same⟩
  have size := congrArg List.length same
  rw [List.length_append, List.length_append, List.length_drop] at size
  have occurs : OccursAt src splitor (beg + front.length) := by
    rw [OccursAt, ← List.drop_drop, ← same, List.append_assoc, List.drop_left]
    exact List.prefix_append _ _
  obtain ⟨first, found, _⟩ := find_le (Nat.le_add_right beg front.length) (by omega) occurs
  rw [absent] at found
  cases found

/-- What stands behind the cursor is the text up to the separator that is found, the separator and
the rest. -/
theorem drop_eq_of_find {beg pos : Nat} (found : find src splitor beg = some pos) :
    src.drop beg = src.extract beg pos ++ (splitor ++ src.drop (pos + splitor.length)) := by
  obtain ⟨behind, _, occurs⟩ := find_occurs found
  have separator : src.drop pos = splitor ++ src.drop (pos + splitor.length) := by
    obtain ⟨rest, same⟩ := occurs
    rw [← List.drop_drop, ← same, List.drop_left]
  have front : (src.drop beg).drop (pos - beg) = src.drop pos := by
    rw [List.drop_drop, Nat.add_sub_cancel' behind]
  rw [← separator, ← front, List.extract_eq_take_drop, List.take_append_drop]

/-- No separator stands between the cursor and the one that is found. -/
theorem first_of_find {beg pos : Nat} (found : find src splitor beg = some pos) {index : Nat}
    (before : index < (src.extract beg pos).length) : ¬ splitor <+: (src.drop beg).drop index := by
  intro occurs
  have inside := (find_occurs found).2.1
  rw [List.extract_eq_take_drop, List.length_take, List.length_drop] at before
  have there_ : OccursAt src splitor (beg + index) := by
    rw [OccursAt, ← List.drop_drop]
    exact occurs
  obtain ⟨first, found', le⟩ := find_le (Nat.le_add_right beg index) (by omega) there_
  rw [found, Option.some.injEq] at found'
  omega

/-- From the cursor on `split` cuts at the leftmost separators. -/
theorem splitFrom_cuts (some_ : splitor ≠ []) {fuel beg : Nat} {pieces : List Bytes}
    (inside : beg ≤ src.length) (cut : splitFrom src splitor fuel beg = some pieces) :
    Cuts splitor (src.drop beg) pieces := by
  induction fuel generalizing beg pieces with
  | zero => cases cut
  | succ fuel ih =>
    rw [splitFrom] at cut
    cases found : find src splitor beg with
    | none =>
      simp only [found, Option.some.injEq] at cut
      rw [← cut]
      exact .last (not_infix_of_find inside found)
    | some pos =>
      have after := (find_occurs found).2.2.length_le some_
      simp only [found] at cut
      split at cut
      · obtain ⟨later, rest, rfl⟩ := Option.map_eq_some_iff.mp cut
        have parts := drop_eq_of_find found
        have first := fun index => @first_of_find src splitor beg pos found index
        rw [parts] at first ⊢
        exact .next first (ih after rest)
      · cases cut

/-- `split` returns for every text that is no longer than an `int` and every separator; the
separator between the pieces gives the text back, no piece holds it, the pieces are those between
the leftmost separators that do not overlap, and at a separator of one byte there is one piece more
than the byte occurs. -/
theorem split_inverts_join (some_ : splitor ≠ []) (short : src.length < 2 ^ 31) :
    ∃ pieces, split src splitor = some pieces ∧ splitor.intercalate pieces = src ∧
      (∀ piece ∈ pieces, ¬ splitor <:+: piece) ∧
      (∀ others, Cuts splitor src others ↔ others = pieces) ∧
      ∀ byte, splitor = [byte] → pieces.length = src.count byte + 1 := by
  obtain ⟨pieces, cut, _, _⟩ := split_short some_ short
  have cuts : Cuts splitor src pieces := splitFrom_cuts some_ (Nat.zero_le _) cut
  refine ⟨pieces, cut, cuts.join, fun piece => cuts.free some_, fun others => ?_, ?_⟩
  · constructor
    · exact cuts.unique
    · rintro rfl
      exact cuts
  · rintro byte rfl
    exact cuts.length_single

/-- A separator of two bytes that overlaps itself is found at the leftmost places. -/
theorem split_inverts_join_overlap :
    ∃ pieces, split (ascii "aaaba") (ascii "aa") = some pieces ∧
      (ascii "aa").intercalate pieces = ascii "aaaba" ∧
      (∀ piece ∈ pieces, ¬ ascii "aa" <:+: piece) ∧
      (∀ others, Cuts (ascii "aa") (ascii "aaaba") others ↔ others = pieces) ∧
      ∀ byte, ascii "aa" = [byte] → pieces.length = (ascii "aaaba").count byte + 1 :=
  split_inverts_join (by decide) (by decide)

end Hnw.Util
