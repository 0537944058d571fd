import Mathlib.Data.List.Basic

/-!
# Tilings of an interval

A list of closed intervals that follow one another without a gap. A tiling is what splitting work
by position should produce: its pieces are not empty, do not meet and cover the interval.
-/

namespace Hnw.Theory

/-- The pieces lie one behind the other from `first` to `last`. -/
inductive Tiles : Nat → Nat → List (Nat × Nat) → Prop where
  | single {first last : Nat} (ordered : first ≤ last) : Tiles first last [(first, last)]
  | cons {first middle last : Nat} {rest : List (Nat × Nat)} (ordered : first ≤ middle)
      (tiles : Tiles (middle + 1) last rest) : Tiles first last ((first, middle) :: rest)

/-- The pieces are not empty, lie below `bound`, do not meet, and together hold exactly the
positions from `first` to `last`. -/
structure SplitsExactly (bound first last : Nat) (pieces : List (Nat × Nat)) : Prop where
  nonempty : ∀ piece ∈ pieces, piece.1 ≤ piece.2
  inside : ∀ piece ∈ pieces, piece.2 < bound
  disjoint : pieces.Pairwise fun left right => left.2 < right.1 ∨ right.2 < left.1
  covers : ∀ position, (∃ piece ∈ pieces, piece.1 ≤ position ∧ position ≤ piece.2) ↔
    first ≤ position ∧ position ≤ last

variable {first last : Nat} {pieces : List (Nat × Nat)}

/-- A tiling does not go backwards. -/
theorem Tiles.ordered (tiles : Tiles first last pieces) : first ≤ last := by
  induction tiles with
  | single ordered => exact ordered
  | cons ordered _ ih => omega

/-- The pieces of a tiling lie within it and are not empty. -/
theorem Tiles.bounds (tiles : Tiles first last pieces) :
    ∀ piece ∈ pieces, first ≤ piece.1 ∧ piece.1 ≤ piece.2 ∧ piece.2 ≤ last := by
  induction tiles with
  | single ordered => simpa using ordered
  | cons ordered tiles ih =>
    have later := tiles.ordered
    intro piece member
    rcases List.mem_cons.mp member with rfl | member
    · exact ⟨Nat.le_refl _, ordered, by simp only; omega⟩
    · have bounds := ih piece member
      omega

/-- A tiling splits its interval exactly. -/
theorem Tiles.splitsExactly {bound : Nat} (tiles : Tiles first last pieces)
    (fits : last < bound) : SplitsExactly bound first last pieces := by
  refine ⟨fun piece member => (tiles.bounds piece member).2.1,
    fun piece member => Nat.lt_of_le_of_lt (tiles.bounds piece member).2.2 fits, ?_, ?_⟩
  · clear fits
    induction tiles with
    | single _ => simp
    | cons ordered tiles ih =>
      refine List.pairwise_cons.mpr ⟨fun piece member => ?_, ih⟩
      have bounds := tiles.bounds piece member
      exact .inl (by simp only; omega)
  · clear fits
    intro position
    induction tiles with
    | single _ => simp
    | cons ordered tiles ih =>
      have later := tiles.ordered
      simp only [List.mem_cons, exists_eq_or_imp, ih]
      omega

end Hnw.Theory
