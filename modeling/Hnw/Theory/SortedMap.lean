import Mathlib.Data.List.Nodup

/-!
# Maps as sorted lists

A map as the list of its entries in the order of their keys, each key once. Assigning to keys one
after the other leaves for each key the value assigned last; assigning the entries of such a list
in order builds the list again.
-/

namespace Hnw.Theory

variable {κ ν : Type} [DecidableEq κ]

/-- What assignments leave: for each key the value assigned last. -/
def lastValues : List (κ × ν) → List (κ × ν)
  | [] => []
  | entry :: rest =>
    if entry.1 ∈ rest.map Prod.fst then lastValues rest else entry :: lastValues rest

/-- What is left was assigned. -/
theorem mem_of_mem_lastValues {entries : List (κ × ν)} {entry : κ × ν}
    (member : entry ∈ lastValues entries) : entry ∈ entries := by
  induction entries with
  | nil => exact member
  | cons first rest ih =>
    rw [lastValues] at member
    split at member
    · exact List.mem_cons_of_mem first (ih member)
    · rcases List.mem_cons.mp member with rfl | later
      · exact List.mem_cons_self
      · exact List.mem_cons_of_mem first (ih later)

/-- What is left stands in the order of the assignments. -/
theorem lastValues_sublist (entries : List (κ × ν)) : (lastValues entries).Sublist entries := by
  induction entries with
  | nil => exact .refl []
  | cons first rest ih =>
    rw [lastValues]
    split
    · exact ih.cons first
    · exact ih.cons_cons first

/-- Every key that is assigned is left. -/
theorem key_mem_lastValues {entries : List (κ × ν)} {key : κ} :
    key ∈ (lastValues entries).map Prod.fst ↔ key ∈ entries.map Prod.fst := by
  induction entries with
  | nil => exact Iff.rfl
  | cons first rest ih =>
    rw [lastValues]
    split
    · next again =>
      rw [ih, List.map_cons, List.mem_cons]
      exact ⟨.inr, fun member => member.elim (fun same => same ▸ again) id⟩
    · rw [List.map_cons, List.map_cons, List.mem_cons, List.mem_cons, ih]

/-- Each key is left once. -/
theorem lastValues_nodup (entries : List (κ × ν)) :
    ((lastValues entries).map Prod.fst).Nodup := by
  induction entries with
  | nil => exact List.nodup_nil
  | cons first rest ih =>
    rw [lastValues]
    split
    · exact ih
    · next once =>
      rw [List.map_cons, List.nodup_cons, key_mem_lastValues]
      exact ⟨once, ih⟩

/-- Where each key is assigned once, everything is left. -/
theorem lastValues_of_nodup {entries : List (κ × ν)} (once : (entries.map Prod.fst).Nodup) :
    lastValues entries = entries := by
  induction entries with
  | nil => rfl
  | cons first rest ih =>
    rw [List.map_cons, List.nodup_cons] at once
    rw [lastValues, if_neg once.1, ih once.2]

/-! ## Sorted lists -/

variable [LT κ] [DecidableLT κ]

/-- The entries stand in the order of their keys, each key once. -/
def Sorted (map : List (κ × ν)) : Prop := map.Pairwise fun first later => first.1 < later.1

/-- `map[key] = value`. -/
def setSorted (key : κ) (value : ν) : List (κ × ν) → List (κ × ν)
  | [] => [(key, value)]
  | entry :: rest =>
    if key < entry.1 then (key, value) :: entry :: rest
    else if key = entry.1 then (key, value) :: rest
    else entry :: setSorted key value rest

/-- An assigned key is found with its value, and every other key as before. -/
theorem find?_setSorted (key : κ) (value : ν) (map : List (κ × ν)) (name : κ) :
    (setSorted key value map).find? (fun entry => entry.1 = name) =
      if key = name then some (key, value) else map.find? fun entry => entry.1 = name := by
  have head : ∀ (entry : κ × ν) (more : List (κ × ν)),
      (entry :: more).find? (fun entry => entry.1 = name) =
        if entry.1 = name then some entry else more.find? fun entry => entry.1 = name := by
    intro entry more
    by_cases here : entry.1 = name
    · rw [if_pos here, List.find?_cons_of_pos (by simpa using here)]
    · rw [if_neg here, List.find?_cons_of_neg (by simpa using here)]
  induction map with
  | nil => exact head (key, value) []
  | cons first rest ih =>
    rw [setSorted]
    split
    · exact head (key, value) (first :: rest)
    · split
      · next _ same =>
        rw [head, head first rest, ← same]
        by_cases here : key = name
        · rw [if_pos here, if_pos here]
        · rw [if_neg here, if_neg here, if_neg here]
      · next _ other =>
        rw [head, ih, head first rest]
        by_cases here : key = name
        · have passed : first.1 ≠ name := fun there_ => other (here.trans there_.symm)
          rw [if_pos here, if_pos here, if_neg passed]
        · rw [if_neg here, if_neg here]

/-- A key behind all others is appended. -/
theorem setSorted_last [Std.Asymm fun a b : κ => a < b] {map : List (κ × ν)} {key : κ}
    (behind : ∀ entry ∈ map, entry.1 < key) (value : ν) :
    setSorted key value map = map ++ [(key, value)] := by
  induction map with
  | nil => rfl
  | cons first rest ih =>
    have here := behind first (by simp)
    have not_ : ¬ key < first.1 := Std.Asymm.asymm (r := fun a b : κ => a < b) _ _ here
    have other : key ≠ first.1 := by
      rintro rfl
      exact not_ here
    rw [setSorted, if_neg not_, if_neg other, List.cons_append,
      ih fun entry member => behind entry (by simp [member])]

/-- Assigning the entries of a sorted list in order builds the list. -/
theorem foldl_setSorted [Std.Asymm fun a b : κ => a < b] {front map : List (κ × ν)}
    (sorted : Sorted (front ++ map)) :
    map.foldl (fun built entry => setSorted entry.1 entry.2 built) front = front ++ map := by
  induction map generalizing front with
  | nil => rw [List.append_nil]; rfl
  | cons first rest ih =>
    have behind : ∀ entry ∈ front, entry.1 < first.1 := by
      intro entry member
      exact (List.pairwise_append.mp sorted).2.2 entry member first (by simp)
    have whole : front ++ first :: rest = (front ++ [first]) ++ rest := by simp
    rw [List.foldl_cons, setSorted_last behind first.2, whole, ih (whole ▸ sorted)]

variable [Std.Irrefl fun a b : κ => a < b]

omit [DecidableEq κ] [DecidableLT κ] in
/-- Each key stands once in a sorted list. -/
theorem Sorted.nodup {map : List (κ × ν)} (sorted : Sorted map) : (map.map Prod.fst).Nodup := by
  rw [List.nodup_iff_pairwise_ne, List.pairwise_map]
  refine sorted.imp ?_
  intro first later before same
  rw [same] at before
  exact Std.lt_irrefl before

variable [Trans (fun a b : κ => a < b) (fun a b : κ => a < b) (fun a b : κ => a < b)]

/-- An assignment sets the key, and leaves all others. -/
theorem mem_setSorted {map : List (κ × ν)} (sorted : Sorted map) {key : κ} {value : ν}
    {entry : κ × ν} :
    entry ∈ setSorted key value map ↔ entry = (key, value) ∨ (entry ∈ map ∧ entry.1 ≠ key) := by
  induction map with
  | nil => simp [setSorted]
  | cons first rest ih =>
    obtain ⟨behind, later⟩ := List.pairwise_cons.mp sorted
    rw [setSorted]
    split
    · next before =>
      have others : ∀ other ∈ first :: rest, other.1 ≠ key := by
        intro other member same
        rcases List.mem_cons.mp member with rfl | further
        · exact Std.lt_irrefl (same ▸ before)
        · exact Std.lt_irrefl (same ▸ Std.lt_trans before (behind other further))
      rw [List.mem_cons]
      exact or_congr_right ⟨fun member => ⟨member, others entry member⟩, And.left⟩
    · split
      · next same =>
        have others : ∀ other ∈ rest, other.1 ≠ key := by
          intro other member here
          exact Std.lt_irrefl (here.trans same ▸ behind other member)
        rw [List.mem_cons, List.mem_cons]
        refine or_congr_right ⟨fun member => ⟨.inr member, others entry member⟩, ?_⟩
        rintro ⟨rfl | member, different⟩
        · exact absurd same.symm different
        · exact member
      · next _ different =>
        rw [List.mem_cons, List.mem_cons, ih later]
        constructor
        · rintro (rfl | set | ⟨member, other⟩)
          · exact .inr ⟨.inl rfl, Ne.symm different⟩
          · exact .inl set
          · exact .inr ⟨.inr member, other⟩
        · rintro (set | ⟨rfl | member, other⟩)
          · exact .inr (.inl set)
          · exact .inl rfl
          · exact .inr (.inr ⟨member, other⟩)

variable [Std.Trichotomous fun a b : κ => a < b]

/-- An assignment keeps a list sorted. -/
theorem Sorted.set {map : List (κ × ν)} (sorted : Sorted map) (key : κ) (value : ν) :
    Sorted (setSorted key value map) := by
  induction map with
  | nil => exact List.pairwise_singleton _ _
  | cons first rest ih =>
    obtain ⟨behind, later⟩ := List.pairwise_cons.mp sorted
    rw [setSorted]
    split
    · next before =>
      refine List.pairwise_cons.mpr ⟨fun other member => ?_, sorted⟩
      rcases List.mem_cons.mp member with rfl | further
      · exact before
      · exact Std.lt_trans before (behind other further)
    · next notBefore =>
      split
      · next same =>
        exact List.pairwise_cons.mpr ⟨fun other member => same ▸ behind other member, later⟩
      · next different =>
        refine List.pairwise_cons.mpr ⟨fun other member => ?_, ih later⟩
        rcases (mem_setSorted later).mp member with rfl | ⟨further, _⟩
        · rcases Std.lt_trichotomy key first.1 with before | same | after
          · exact absurd before notBefore
          · exact absurd same different
          · exact after
        · exact behind other further

/-- Assignments keep a list sorted. -/
theorem Sorted.foldl {map : List (κ × ν)} (sorted : Sorted map) (entries : List (κ × ν)) :
    Sorted (entries.foldl (fun built entry => setSorted entry.1 entry.2 built) map) := by
  induction entries generalizing map with
  | nil => exact sorted
  | cons first rest ih => exact ih (sorted.set first.1 first.2)

/-- Assignments leave the last values, and the entries of all other keys. -/
theorem mem_foldl_setSorted {map entries : List (κ × ν)} (sorted : Sorted map) {entry : κ × ν} :
    entry ∈ entries.foldl (fun built entry => setSorted entry.1 entry.2 built) map ↔
      entry ∈ lastValues entries ∨ (entry ∈ map ∧ entry.1 ∉ entries.map Prod.fst) := by
  induction entries generalizing map with
  | nil => simp [lastValues]
  | cons first rest ih =>
    rw [List.foldl_cons, ih (sorted.set first.1 first.2), mem_setSorted sorted, lastValues]
    by_cases again : first.1 ∈ rest.map Prod.fst
    · rw [if_pos again]
      grind
    · rw [if_neg again]
      grind

/-- Assignments to an empty map leave the last values, in the order of the keys. -/
theorem foldl_setSorted_perm (entries : List (κ × ν)) :
    (entries.foldl (fun built entry => setSorted entry.1 entry.2 built) []).Perm
      (lastValues entries) := by
  have sorted : Sorted (entries.foldl (fun built entry => setSorted entry.1 entry.2 built) []) :=
    Sorted.foldl .nil entries
  rw [List.perm_ext_iff_of_nodup (List.Nodup.of_map Prod.fst sorted.nodup)
    (List.Nodup.of_map Prod.fst (lastValues_nodup entries))]
  intro entry
  rw [mem_foldl_setSorted .nil]
  simp

/-! ## All but the last entry -/

/-- The entries that stand in front of one of a greater key. -/
def frontEntries (map : List (κ × ν)) : List (κ × ν) :=
  map.filter fun entry => decide (∃ other ∈ map, entry.1 < other.1)

omit [DecidableEq κ] [Std.Trichotomous fun a b : κ => a < b] in
/-- In a sorted list all entries but the last stand in front of one of a greater key. -/
theorem Sorted.dropLast_eq {map : List (κ × ν)} (sorted : Sorted map) :
    map.dropLast = frontEntries map := by
  rcases List.eq_nil_or_concat map with rfl | ⟨front, last, rfl⟩
  · rfl
  · rw [List.concat_eq_append] at sorted ⊢
    obtain ⟨_, _, before⟩ := List.pairwise_append.mp sorted
    have inFront : ∀ entry ∈ front, decide (∃ other ∈ front ++ [last], entry.1 < other.1) = true :=
      fun entry member =>
        decide_eq_true ⟨last, by simp, before entry member last (List.mem_singleton_self last)⟩
    have greatest : ¬ ∃ other ∈ front ++ [last], last.1 < other.1 := by
      rintro ⟨other, member, greater⟩
      rcases List.mem_append.mp member with earlier | here
      · exact Std.lt_irrefl (Std.lt_trans greater
          (before other earlier last (List.mem_singleton_self last)))
      · rw [List.mem_singleton.mp here] at greater
        exact Std.lt_irrefl greater
    rw [List.dropLast_concat, frontEntries, List.filter_append, List.filter_eq_self.mpr inFront,
      List.filter_cons_of_neg (by simpa using greatest), List.filter_nil, List.append_nil]

omit [DecidableEq κ] [Std.Irrefl fun a b : κ => a < b]
  [Trans (fun a b : κ => a < b) (fun a b : κ => a < b) (fun a b : κ => a < b)]
  [Std.Trichotomous fun a b : κ => a < b] in
/-- What stands in front does not depend on the order of the list. -/
theorem frontEntries_perm {map other : List (κ × ν)} (same : map.Perm other) :
    (frontEntries map).Perm (frontEntries other) := by
  have agree : frontEntries map =
      map.filter fun entry => decide (∃ later ∈ other, entry.1 < later.1) := by
    apply List.filter_congr
    intro entry _
    rw [decide_eq_decide]
    exact exists_congr fun later => and_congr_left' same.mem_iff
  rw [agree]
  exact same.filter _

end Hnw.Theory
