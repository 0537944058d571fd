import Mathlib.Data.List.Infix

/-!
# Cuts at a pattern

A list is cut at the first occurrence of a pattern, and what follows the occurrence is cut again.
The pieces are what the pattern is put between to get the list back, and none of them holds it, also
where occurrences of the pattern overlap.
-/

namespace Hnw.Theory

variable {α : Type} {pattern text piece : List α} {pieces : List (List α)}

/-- The pieces of a list between the leftmost occurrences of a pattern that do not overlap. -/
inductive Cuts (pattern : List α) : List α → List (List α) → Prop
  /-- A list without the pattern is one piece. -/
  | last {text : List α} (absent : ¬ pattern <:+: text) : Cuts pattern text [text]
  /-- What stands in front of the first occurrence is a piece. -/
  | next {piece rest : List α} {pieces : List (List α)}
      (first : ∀ pos < piece.length, ¬ pattern <+: (piece ++ (pattern ++ rest)).drop pos)
      (later : Cuts pattern rest pieces) :
      Cuts pattern (piece ++ (pattern ++ rest)) (piece :: pieces)

/-- A cut text has a piece. -/
theorem Cuts.ne_nil (cuts : Cuts pattern text pieces) : pieces ≠ [] := by
  cases cuts with
  | last absent => exact List.cons_ne_nil _ _
  | next first later => exact List.cons_ne_nil _ _

/-- The pattern between the pieces gives the list. -/
theorem Cuts.join (cuts : Cuts pattern text pieces) : pattern.intercalate pieces = text := by
  induction cuts with
  | last absent => exact List.intercalate_singleton
  | @next piece rest pieces first later ih =>
    rw [List.intercalate_cons_of_ne_nil later.ne_nil, ih, List.append_assoc]

/-- What stands in front of the first occurrence does not hold the pattern. -/
theorem free_of_first {rest : List α} (some_ : pattern ≠ [])
    (first : ∀ pos < piece.length, ¬ pattern <+: (piece ++ (pattern ++ rest)).drop pos) :
    ¬ pattern <:+: piece := by
  rintro ⟨front, behind, rfl⟩
  have positive := List.length_pos_iff.mpr some_
  apply first front.length
  · rw [List.length_append, List.length_append]
    omega
  · rw [List.append_assoc, List.append_assoc, List.drop_left]
    exact List.prefix_append _ _

/-- No piece holds the pattern. -/
theorem Cuts.free (cuts : Cuts pattern text pieces) (some_ : pattern ≠ [])
    (member : piece ∈ pieces) : ¬ pattern <:+: piece := by
  induction cuts with
  | last absent =>
    rw [List.mem_singleton] at member
    rwa [member]
  | next first later ih =>
    rcases List.mem_cons.mp member with rfl | behind
    · exact free_of_first some_ first
    · exact ih behind

/-- The first occurrence is not behind another occurrence. -/
theorem length_le_of_first {rest front behind : List α}
    (first : ∀ pos < piece.length, ¬ pattern <+: (piece ++ (pattern ++ rest)).drop pos)
    (same : piece ++ (pattern ++ rest) = front ++ (pattern ++ behind)) :
    piece.length ≤ front.length := by
  by_contra before
  apply first front.length (Nat.lt_of_not_le before)
  rw [same, List.drop_left]
  exact List.prefix_append _ _

/-- A list is cut in one way. -/
theorem Cuts.unique (cuts : Cuts pattern text pieces) {others : List (List α)}
    (cuts' : Cuts pattern text others) : others = pieces := by
  induction cuts generalizing others with
  | last absent =>
    cases cuts' with
    | last _ => rfl
    | @next piece rest _ _ _ => exact absurd ⟨piece, rest, List.append_assoc _ _ _⟩ absent
  | @next piece rest pieces first later ih =>
    generalize whole : piece ++ (pattern ++ rest) = text at cuts'
    cases cuts' with
    | last absent => exact absurd ⟨piece, rest, by rw [← whole, List.append_assoc]⟩ absent
    | @next piece' rest' pieces' first' later' =>
      have size : piece.length = piece'.length :=
        Nat.le_antisymm (length_le_of_first first whole) (length_le_of_first first' whole.symm)
      obtain ⟨samePiece, behind⟩ := List.append_inj whole size
      have sameRest : rest = rest' := List.append_cancel_left behind
      subst samePiece sameRest
      rw [ih later']

/-- At a single element there is one piece more than the element occurs. -/
theorem Cuts.length_single [DecidableEq α] {a : α} (cuts : Cuts [a] text pieces) :
    pieces.length = text.count a + 1 := by
  have single : ∀ {list : List α}, ¬ [a] <:+: list → list.count a = 0 := by
    intro list absent
    apply List.count_eq_zero.mpr
    intro member
    obtain ⟨front, behind, rfl⟩ := List.append_of_mem member
    exact absent ⟨front, behind, by simp⟩
  induction cuts with
  | last absent => rw [single absent, List.length_singleton]
  | @next piece rest pieces first later ih =>
    have free := free_of_first (List.cons_ne_nil a []) first
    rw [List.length_cons, ih, List.count_append, single free, List.singleton_append,
      List.count_cons_self, Nat.zero_add]

end Hnw.Theory
