import Hnw.Util.Bytes

/-!
# The header container

`std::unordered_multimap<std::string, std::string>`. The order of iteration is not specified, so
the model takes the container as a parameter with the laws the standard gives: an insertion adds
one entry, an erasure takes all entries of a key, and entries of one key are adjacent.
-/

namespace Hnw.Util

/-- A header entry. -/
abbrev Entry := Bytes × Bytes

/-- Entries of one key stand next to each other: a key that occurs again occurs next. -/
def Grouped : List Entry → Prop
  | [] => True
  | first :: rest =>
    (first.1 ∈ rest.map Prod.fst → rest.head?.map Prod.fst = some first.1) ∧ Grouped rest

/-- `std::unordered_multimap<std::string, std::string>`. -/
class UnorderedMultimap (σ : Type) where
  /-- The empty container. -/
  empty : σ
  /-- `insert`. -/
  insert : σ → Entry → σ
  /-- `erase(key)`. -/
  erase : σ → Bytes → σ
  /-- The entries in order of iteration. -/
  toList : σ → List Entry
  toList_empty : toList empty = []
  toList_insert : ∀ s entry, (toList (insert s entry)).Perm (entry :: toList s)
  toList_erase : ∀ s key, toList (erase s key) = (toList s).filter (·.1 ≠ key)
  grouped : ∀ s, Grouped (toList s)

namespace UnorderedMultimap

variable {σ : Type} [UnorderedMultimap σ]

/-- `find(key)`, where it is not `end()`. -/
def find (s : σ) (key : Bytes) : Option Entry := (toList s).find? (·.1 = key)

/-- `count(key)`. -/
def count (s : σ) (key : Bytes) : Nat := (toList s).countP (·.1 = key)

/-- Insertion keeps what was there and adds the entry. -/
theorem mem_insert {s : σ} {entry other : Entry} :
    other ∈ toList (insert s entry) ↔ other = entry ∨ other ∈ toList s := by
  rw [(toList_insert s entry).mem_iff, List.mem_cons]

/-- A count is zero exactly where the key occurs nowhere. -/
theorem count_eq_zero {s : σ} {key : Bytes} :
    count s key = 0 ↔ ∀ entry ∈ toList s, entry.1 ≠ key := by
  simp [count, List.countP_eq_zero]

end UnorderedMultimap

/-- An entry goes before those of its key, or to the front where there are none. -/
def insertGrouped (entry : Entry) : List Entry → List Entry
  | [] => [entry]
  | other :: rest =>
    if other.1 ≠ entry.1 ∧ entry.1 ∈ rest.map Prod.fst then other :: insertGrouped entry rest
    else entry :: other :: rest

/-- Inserting adds the entry. -/
theorem insertGrouped_perm (entry : Entry) (entries : List Entry) :
    (insertGrouped entry entries).Perm (entry :: entries) := by
  induction entries with
  | nil => exact .refl _
  | cons other rest ih =>
    rw [insertGrouped]
    split
    · exact (ih.cons other).trans (.swap entry other rest)
    · exact .refl _

/-- Inserting behind an entry of another key leaves that entry's neighbour's key. -/
theorem insertGrouped_head {entry : Entry} {rest : List Entry}
    (present : entry.1 ∈ rest.map Prod.fst) :
    (insertGrouped entry rest).head?.map Prod.fst = rest.head?.map Prod.fst := by
  cases rest with
  | nil => simp at present
  | cons other rest =>
    rw [insertGrouped]
    split
    · rfl
    · next stays =>
      have same : other.1 = entry.1 := by
        by_contra different
        refine stays ⟨different, ?_⟩
        simpa [Ne.symm different] using present
      simp [same]

/-- Inserting keeps keys together. -/
theorem insertGrouped_grouped {entry : Entry} {entries : List Entry} (grouped : Grouped entries) :
    Grouped (insertGrouped entry entries) := by
  induction entries with
  | nil => exact ⟨by simp, trivial⟩
  | cons other rest ih =>
    obtain ⟨next, later⟩ := grouped
    rw [insertGrouped]
    split
    · next goes =>
      refine ⟨fun again => ?_, ih later⟩
      rw [insertGrouped_head goes.2]
      refine next ?_
      have member := ((insertGrouped_perm entry rest).map Prod.fst).mem_iff.mp again
      simpa [goes.1] using member
    · next stays =>
      refine ⟨fun again => ?_, next, later⟩
      by_contra different
      refine stays ⟨by simpa using different, ?_⟩
      simp only [List.map_cons, List.mem_cons] at again
      exact again.resolve_left fun same => different (by simp [same])

/-- Erasing a key keeps the others together. -/
theorem filter_grouped (key : Bytes) {entries : List Entry} (grouped : Grouped entries) :
    Grouped (entries.filter (·.1 ≠ key)) := by
  induction entries with
  | nil => trivial
  | cons other rest ih =>
    obtain ⟨next, later⟩ := grouped
    by_cases gone : other.1 = key
    · rw [List.filter_cons_of_neg (by simpa using gone)]
      exact ih later
    · rw [List.filter_cons_of_pos (by simpa using gone)]
      refine ⟨fun again => ?_, ih later⟩
      obtain ⟨entry, member, same⟩ := List.mem_map.mp again
      have head := next (List.mem_map.mpr ⟨entry, (List.mem_filter.mp member).1, same⟩)
      cases rest with
      | nil => simp at head
      | cons first rest =>
        have key' : first.1 = other.1 := by simpa using head
        rw [List.filter_cons_of_pos (by simpa [key'] using gone)]
        simpa using key'

/-- A container that also erases the entry an iterator points to. -/
class ErasesAt (σ : Type) [UnorderedMultimap σ] where
  /-- `erase(iterator)`, of the entry at a position of the iteration. -/
  eraseAt : σ → Nat → σ
  toList_eraseAt : ∀ s pos,
    UnorderedMultimap.toList (eraseAt s pos) = (UnorderedMultimap.toList s).eraseIdx pos

/-- Erasing one entry keeps the others together. -/
theorem eraseIdx_grouped (pos : Nat) {entries : List Entry} (grouped : Grouped entries) :
    Grouped (entries.eraseIdx pos) := by
  induction entries generalizing pos with
  | nil => trivial
  | cons first rest ih =>
    obtain ⟨next, later⟩ := grouped
    cases pos with
    | zero => exact later
    | succ pos =>
      refine ⟨fun again => ?_, ih pos later⟩
      obtain ⟨entry, member, same⟩ := List.mem_map.mp again
      have head := next (List.mem_map.mpr ⟨entry, List.mem_of_mem_eraseIdx member, same⟩)
      cases rest with
      | nil => simp at head
      | cons second rest =>
        have key : second.1 = first.1 := by simpa using head
        cases pos with
        | zero =>
          have behind := later.1 (List.mem_map.mpr ⟨entry, member, same.trans key.symm⟩)
          rw [List.eraseIdx_zero, List.tail_cons, behind, key]
        | succ pos => exact head

/-- A container whose iteration order is the order of a list. -/
def ListMultimap := { entries : List Entry // Grouped entries }

instance : UnorderedMultimap ListMultimap where
  empty := ⟨[], trivial⟩
  insert s entry := ⟨insertGrouped entry s.1, insertGrouped_grouped s.2⟩
  erase s key := ⟨s.1.filter (·.1 ≠ key), filter_grouped key s.2⟩
  toList s := s.1
  toList_empty := rfl
  toList_insert s entry := insertGrouped_perm entry s.1
  toList_erase _ _ := rfl
  grouped s := s.2

instance : ErasesAt ListMultimap where
  eraseAt s pos := ⟨s.1.eraseIdx pos, eraseIdx_grouped pos s.2⟩
  toList_eraseAt _ _ := rfl

end Hnw.Util
