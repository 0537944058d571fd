import Mathlib.Data.List.TakeWhile

/-!
# Pieces between separators

A list is cut at every occurrence of one element by `List.splitOn`. What is proved about all cuts
goes by the first one: a list is one piece, or a piece, the separator and a list. Pieces that do
not hold the separator come back from a text in which each ends with it, or in which it stands
between them.
-/

namespace Hnw.Theory

variable {α : Type} [DecidableEq α] {a : α}

/-- A list is one piece, or a piece and what follows the first separator. -/
theorem pieces_induction {motive : List α → Prop} (a : α)
    (last : ∀ piece, a ∉ piece → motive piece)
    (next : ∀ piece rest, a ∉ piece → motive rest → motive (piece ++ a :: rest))
    (xs : List α) : motive xs := by
  induction size : xs.length using Nat.strongRecOn generalizing xs with
  | ind n ih =>
    by_cases member : a ∈ xs
    · obtain ⟨piece, rest, rfl, free⟩ := List.eq_append_cons_of_mem member
      apply next piece rest free
      apply ih rest.length _ rest rfl
      rw [← size, List.length_append, List.length_cons]
      omega
    · exact last xs member

/-- No piece holds the separator. -/
theorem free_of_mem_splitOn {xs piece : List α} (member : piece ∈ xs.splitOn a) : a ∉ piece := by
  induction xs using pieces_induction a with
  | last whole free =>
    rw [List.splitOn_eq_singleton free, List.mem_singleton] at member
    rwa [member]
  | next first rest free ih =>
    rw [List.splitOn_append_cons_self_of_not_mem free, List.mem_cons] at member
    rcases member with rfl | later
    · exact free
    · exact ih later

/-- A piece holds nothing but elements of the list. -/
theorem mem_of_mem_splitOn {xs piece : List α} {x : α} (inside : x ∈ piece)
    (member : piece ∈ xs.splitOn a) : x ∈ xs := by
  induction xs using pieces_induction a with
  | last whole free =>
    rw [List.splitOn_eq_singleton free, List.mem_singleton] at member
    rwa [← member]
  | next first rest free ih =>
    rw [List.splitOn_append_cons_self_of_not_mem free, List.mem_cons] at member
    rcases member with rfl | later
    · exact List.mem_append_left _ inside
    · exact List.mem_append_right _ (List.mem_cons_of_mem a (ih later))

/-- An element other than the separator stands in a piece. -/
theorem exists_mem_splitOn {xs : List α} {x : α} (other : x ≠ a) (member : x ∈ xs) :
    ∃ piece ∈ xs.splitOn a, x ∈ piece := by
  induction xs using pieces_induction a with
  | last whole free =>
    rw [List.splitOn_eq_singleton free]
    exact ⟨whole, List.mem_singleton_self whole, member⟩
  | next first rest free ih =>
    rw [List.splitOn_append_cons_self_of_not_mem free]
    rcases List.mem_append.mp member with here | later
    · exact ⟨first, List.mem_cons_self, here⟩
    · obtain ⟨piece, found, inside⟩ := ih ((List.mem_cons.mp later).resolve_left other)
      exact ⟨piece, List.mem_cons_of_mem first found, inside⟩

/-- Pieces that each end with the separator are cut back, with nothing behind the last. -/
theorem splitOn_terminated {pieces : List (List α)} (free : ∀ piece ∈ pieces, a ∉ piece) :
    (pieces.flatMap (· ++ [a])).splitOn a = pieces ++ [[]] := by
  induction pieces with
  | nil => exact List.splitOn_eq_singleton List.not_mem_nil
  | cons first pieces ih =>
    rw [List.flatMap_cons, List.append_assoc, List.singleton_append,
      List.splitOn_append_cons_self_of_not_mem (free first (by simp)),
      ih fun piece member => free piece (by simp [member]), List.cons_append]

/-- A piece and others that each begin with the separator are cut back. -/
theorem splitOn_prefixed {first : List α} {pieces : List (List α)}
    (free : ∀ piece ∈ first :: pieces, a ∉ piece) :
    (first ++ pieces.flatMap (a :: ·)).splitOn a = first :: pieces := by
  induction pieces generalizing first with
  | nil => rw [List.flatMap_nil, List.append_nil, List.splitOn_eq_singleton (free first (by simp))]
  | cons second pieces ih =>
    rw [List.flatMap_cons, List.cons_append,
      List.splitOn_append_cons_self_of_not_mem (free first (by simp)),
      ih fun piece member => free piece (List.mem_cons_of_mem first member)]

omit [DecidableEq α] in
/-- Pieces that each end with a separator are pieces with separators between them, but for the
last. -/
theorem dropLast_terminated (pieces : List (List α)) :
    (pieces.flatMap (· ++ [a])).dropLast = [a].intercalate pieces := by
  induction pieces with
  | nil => rfl
  | cons first pieces ih =>
    cases pieces with
    | nil => simp [List.intercalate]
    | cons second pieces =>
      have some_ : (second :: pieces).flatMap (· ++ [a]) ≠ [] := by simp
      rw [List.flatMap_cons, List.dropLast_append_of_ne_nil some_, ih, List.intercalate_cons_cons]

omit [DecidableEq α] in
/-- All pieces but the last end with a separator. -/
theorem intercalate_concat (front : List (List α)) (last : List α) :
    [a].intercalate (front ++ [last]) = front.flatMap (· ++ [a]) ++ last := by
  induction front with
  | nil => simp
  | cons first front ih =>
    cases front with
    | nil => simp
    | cons second front =>
      rw [List.cons_append] at ih
      have later : (first :: second :: front).flatMap (· ++ [a]) =
          first ++ [a] ++ (second :: front).flatMap (· ++ [a]) := List.flatMap_cons
      rw [List.cons_append, List.cons_append, List.intercalate_cons_cons, ih, later,
        List.append_assoc, List.append_assoc, List.append_assoc]

omit [DecidableEq α] in
/-- An element that two lists do not hold does not stand in them around another. -/
theorem not_mem_around {front rest : List α} {x b : α} (inFront : x ∉ front) (differs : x ≠ b)
    (inRest : x ∉ rest) : x ∉ front ++ b :: rest := by
  simp only [List.mem_append, List.mem_cons, not_or]
  exact ⟨inFront, differs, inRest⟩

/-! ## The first cut -/

/-- A list is cut at the first separator; where there is none, nothing is behind it. -/
def cutFirst (a : α) (xs : List α) : List α × List α :=
  (xs.takeWhile (· ≠ a), (xs.dropWhile (· ≠ a)).drop 1)

/-- Without a separator the list is in front of it. -/
theorem cutFirst_free {xs : List α} (free : a ∉ xs) : cutFirst a xs = (xs, []) := by
  have all : ∀ x ∈ xs, decide (x ≠ a) = true := by
    intro x member
    simpa using fun same : x = a => free (same ▸ member)
  rw [cutFirst, List.takeWhile_eq_self_iff.mpr all, List.dropWhile_eq_nil_iff.mpr all]
  rfl

/-- What holds no separator stands in front of the first one. -/
theorem cutFirst_front {front : List α} (free : a ∉ front) (rest : List α) :
    cutFirst a (front ++ rest) = (front ++ (cutFirst a rest).1, (cutFirst a rest).2) := by
  have all : ∀ x ∈ front, decide (x ≠ a) = true := by
    intro x member
    simpa using fun same : x = a => free (same ▸ member)
  rw [cutFirst, List.takeWhile_append_of_pos all, List.dropWhile_append_of_pos all]
  rfl

/-- The list in front of the first separator and the list behind it. -/
theorem cutFirst_append {front : List α} (free : a ∉ front) (rest : List α) :
    cutFirst a (front ++ a :: rest) = (front, rest) := by
  rw [cutFirst_front free]
  simp [cutFirst]

/-- Another element belongs to what stands in front of the first separator. -/
theorem cutFirst_other {front : List α} {b : α} (free : a ∉ front) (differs : b ≠ a)
    (rest : List α) :
    (cutFirst a (front ++ b :: rest)).1 = front ++ b :: (cutFirst a rest).1 := by
  have here : decide (b ≠ a) = true := decide_eq_true differs
  rw [cutFirst_front free]
  simp only [cutFirst, List.takeWhile_cons, if_pos here]

/-- Nothing is cut off at another element. -/
theorem cutFirst_cons_other {b : α} (differs : b ≠ a) (rest : List α) :
    (cutFirst a (b :: rest)).1 = b :: (cutFirst a rest).1 := by
  have none_ : a ∉ ([] : List α) := List.not_mem_nil
  exact cutFirst_other none_ differs rest

/-- What stands in front of the first separator does not hold it. -/
theorem not_mem_cutFirst {xs : List α} : a ∉ (cutFirst a xs).1 := by
  intro member
  have other := List.mem_takeWhile_imp member
  simp at other

/-- What stands in front of the first separator or behind it stands in the list. -/
theorem mem_of_mem_cutFirst {xs : List α} {x : α}
    (member : x ∈ (cutFirst a xs).1 ∨ x ∈ (cutFirst a xs).2) : x ∈ xs := by
  rcases member with front | behind
  · exact (List.takeWhile_prefix _).mem front
  · exact (List.dropWhile_suffix _).mem (List.mem_of_mem_drop behind)

/-- A list stands in front of the first separator where it holds none. -/
theorem cutFirst_eq_self {xs : List α} : (cutFirst a xs).1 = xs ↔ a ∉ xs := by
  constructor
  · intro same member
    rw [← same] at member
    exact not_mem_cutFirst member
  · intro free
    rw [cutFirst_free free]

/-- What stands in front of two separators does not depend on their order. -/
theorem cutFirst_comm (a b : α) (xs : List α) :
    (cutFirst a (cutFirst b xs).1).1 = (cutFirst b (cutFirst a xs).1).1 := by
  simp only [cutFirst, List.takeWhile_takeWhile]
  congr 1
  funext x
  exact decide_eq_decide.mpr and_comm

/-- The first piece is what stands in front of the first separator. -/
theorem head_splitOn (a : α) (xs : List α) :
    xs.splitOn a = (cutFirst a xs).1 :: (xs.splitOn a).tail := by
  induction xs using pieces_induction a with
  | last piece free =>
    rw [List.splitOn_eq_singleton free, cutFirst_free free]
    rfl
  | next piece rest free _ =>
    rw [List.splitOn_append_cons_self_of_not_mem free, cutFirst_append free]
    rfl

/-! ## Reading every piece -/

omit [DecidableEq α] in
/-- What each element of a list is read as stands in the result. -/
theorem mem_of_mapM {β : Type} {read : α → Option β} {xs : List α} {ys : List β}
    (mapped : xs.mapM read = some ys) {x : α} (member : x ∈ xs) : ∃ y ∈ ys, read x = some y := by
  induction xs generalizing ys with
  | nil => cases member
  | cons first xs ih =>
    rw [List.mapM_cons] at mapped
    obtain ⟨y, here, mapped⟩ := Option.bind_eq_some_iff.mp mapped
    obtain ⟨later, rest, made⟩ := Option.bind_eq_some_iff.mp mapped
    cases made
    rcases List.mem_cons.mp member with rfl | behind
    · exact ⟨y, List.mem_cons_self, here⟩
    · obtain ⟨other, inside, found⟩ := ih rest behind
      exact ⟨other, List.mem_cons_of_mem y inside, found⟩

omit [DecidableEq α] in
/-- Printed values that are all read are read as themselves, where each that is read is. -/
theorem mapM_printed {β : Type} {read : α → Option β} {print : β → α} {values ys : List β}
    (back : ∀ value ∈ values, ∀ y, read (print value) = some y → y = value)
    (mapped : (values.map print).mapM read = some ys) : ys = values := by
  induction values generalizing ys with
  | nil =>
    cases mapped
    rfl
  | cons value values ih =>
    rw [List.map_cons, List.mapM_cons] at mapped
    obtain ⟨y, here, mapped⟩ := Option.bind_eq_some_iff.mp mapped
    obtain ⟨later, rest, made⟩ := Option.bind_eq_some_iff.mp mapped
    cases made
    rw [back value (by simp) y here,
      ih (fun other member => back other (by simp [member])) rest]

omit [DecidableEq α] in
/-- Printed values that are read back one by one are read back together. -/
theorem mapM_print {β : Type} {read : α → Option β} {print : β → α} {values : List β}
    (back : ∀ value ∈ values, read (print value) = some value) :
    (values.map print).mapM read = some values := by
  induction values with
  | nil => rfl
  | cons value values ih =>
    have later := ih fun other member => back other (List.mem_cons_of_mem value member)
    rw [List.map_cons, List.mapM_cons, back value List.mem_cons_self, later]
    rfl

omit [DecidableEq α] in
/-- A fold whose every step puts the element behind what was seen collects the list. -/
theorem foldl_collect {β : Type} {next : β → α → β} {put : List α → β} {xs : List α}
    (step : ∀ seen, ∀ x ∈ xs, next (put seen) x = put (seen ++ [x])) (seen : List α) :
    xs.foldl next (put seen) = put (seen ++ xs) := by
  induction xs generalizing seen with
  | nil => rw [List.foldl_nil, List.append_nil]
  | cons x xs ih =>
    have later := ih fun seen other member => step seen other (List.mem_cons_of_mem x member)
    rw [List.foldl_cons, step seen x List.mem_cons_self, later, List.append_assoc,
      List.singleton_append]

end Hnw.Theory
