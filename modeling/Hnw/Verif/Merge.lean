import Hnw.Verif.Head

/-!
# Merging two heads

`merge` looks a name up in the head it fills. Once the first value of a name is there, the next
one finds it: where the merge overwrites it drops the value before, elsewhere it is left out. So
of a name that is taken one value arrives, whatever the other head holds.
-/

namespace Hnw.Http

open Hnw.Util Hnw.Util.UnorderedMultimap

variable {σ : Type} [UnorderedMultimap σ] {head other : σ} {bcoverage : Bool} {name : Bytes}

/-- A name occurs as often as it has values. -/
theorem getHeadCount_values (head : σ) (name : Bytes) :
    getHeadCount head name = (storedValues head name).length := by
  rw [getHeadCount, count, storedValues, List.length_map, List.countP_eq_length_filter]

/-- A name without an entry has no value. -/
theorem storedValues_absent (absent : getHeadCount head name = 0) : storedValues head name = [] :=
  List.eq_nil_of_length_eq_zero (by rw [← getHeadCount_values, absent])

/-! ## One entry -/

/-- The values of a name are taken from the other head: where the merge overwrites, and where
there are none. -/
def Takes (bcoverage : Bool) (head : σ) (name : Bytes) : Prop :=
  bcoverage = true ∨ getHeadCount head name = 0

/-- An entry of another name leaves the values of a name. -/
theorem mergeOne_other {entry : Entry} (different : entry.1 ≠ name) :
    (storedValues (mergeOne bcoverage head entry) name).Perm (storedValues head name) := by
  have adds : ∀ head : σ,
      (storedValues (addHead head entry.1 entry.2) name).Perm (storedValues head name) := by
    intro head
    have added := storedValues_apply (.refl (storedValues head name)) (.addHead entry.1 entry.2)
    rwa [HeadOp.values, if_neg different] at added
  have erases : (storedValues (delHead head entry.1) name).Perm (storedValues head name) := by
    have erased := storedValues_apply (.refl (storedValues head name)) (.delHead entry.1)
    rwa [HeadOp.values, if_neg different] at erased
  unfold mergeOne
  split
  · split
    · exact (adds _).trans erases
    · exact .refl _
  · exact adds _

/-- Of a name that is taken there is the value of the entry, and no other. -/
theorem mergeOne_takes {entry : Entry} (takes : Takes bcoverage head entry.1) :
    storedValues (mergeOne bcoverage head entry) entry.1 = [entry.2] := by
  unfold mergeOne
  by_cases present : getHeadCount head entry.1 ≠ 0
  · have covers : bcoverage = true := takes.resolve_right present
    rw [if_pos present, if_pos covers]
    exact storedValues_replace head entry.1 entry.2
  · rw [if_neg present]
    exact storedValues_first (storedValues_absent (not_not.mp present)) entry.2

/-- An entry of a name that is not taken is left out. -/
theorem mergeOne_leaves {entry : Entry} (leaves : ¬ Takes bcoverage head entry.1) :
    mergeOne bcoverage head entry = head := by
  rw [Takes, not_or] at leaves
  rw [mergeOne, if_pos leaves.2, if_neg leaves.1]

/-- What is not taken is not taken later. -/
theorem Takes.of_perm {later : σ} (takes : Takes bcoverage later name)
    (same : (storedValues later name).Perm (storedValues head name)) :
    Takes bcoverage head name := by
  rw [Takes, getHeadCount_values] at takes ⊢
  rwa [← same.length_eq]

/-! ## All entries -/

/-- The values of a name that no entry has, or that is not taken, stay. -/
theorem foldl_mergeOne_stays {entries : List Entry}
    (stays : name ∈ entries.map Prod.fst → ¬ Takes bcoverage head name) :
    (storedValues (entries.foldl (mergeOne bcoverage) head) name).Perm
      (storedValues head name) := by
  induction entries generalizing head with
  | nil => exact .refl _
  | cons entry entries ih =>
    rw [List.foldl_cons]
    have step : (storedValues (mergeOne bcoverage head entry) name).Perm
        (storedValues head name) := by
      by_cases same : entry.1 = name
      · subst same
        rw [mergeOne_leaves (stays (by simp))]
      · exact mergeOne_other same
    have later : name ∈ entries.map Prod.fst →
        ¬ Takes bcoverage (mergeOne bcoverage head entry) name :=
      fun member takes => stays (by simp [member]) (takes.of_perm step)
    exact (ih later).trans step

/-- Of a name that is taken and that an entry has, there is one value, of such an entry. -/
theorem foldl_mergeOne_takes {entries : List Entry} (takes : Takes bcoverage head name)
    (present : name ∈ entries.map Prod.fst) :
    ∃ value, (name, value) ∈ entries ∧
      storedValues (entries.foldl (mergeOne bcoverage) head) name = [value] := by
  induction entries generalizing head with
  | nil => simp at present
  | cons entry entries ih =>
    rw [List.foldl_cons]
    by_cases again :
        Takes bcoverage (mergeOne bcoverage head entry) name ∧ name ∈ entries.map Prod.fst
    · obtain ⟨value, member, one⟩ := ih again.1 again.2
      exact ⟨value, List.mem_cons_of_mem entry member, one⟩
    · have same : entry.1 = name := by
        by_contra different
        apply again
        have step := @mergeOne_other σ _ head bcoverage name entry different
        have behind : name ∈ entries.map Prod.fst := by
          simpa [Ne.symm different] using present
        exact ⟨takes.of_perm step.symm, behind⟩
      subst same
      have last : (storedValues (entries.foldl (mergeOne bcoverage)
          (mergeOne bcoverage head entry)) entry.1).Perm
            (storedValues (mergeOne bcoverage head entry) entry.1) :=
        foldl_mergeOne_stays fun member takes => again ⟨takes, member⟩
      rw [mergeOne_takes takes] at last
      exact ⟨entry.2, List.mem_cons_self, List.perm_singleton.mp last⟩

/-! ## The merged head -/

/-- The merge gives every name the values it should have: all of the other head's where they are
taken, and what was there elsewhere. With `bcoverage` every name of the other head is taken,
without it those that only the other head has. -/
structure MergesExactly (bcoverage : Bool) (head other : σ) : Prop where
  /-- A name of the other head that is taken carries exactly the other head's values. -/
  taken : ∀ name, getHeadCount other name ≠ 0 → Takes bcoverage head name →
    (storedValues (merge head other bcoverage) name).Perm (storedValues other name)
  /-- Every other name is unchanged. -/
  unchanged : ∀ name, ¬ (getHeadCount other name ≠ 0 ∧ Takes bcoverage head name) →
    (storedValues (merge head other bcoverage) name).Perm (storedValues head name)

/-- A name occurs where an entry has it. -/
theorem getHeadCount_ne_zero : getHeadCount head name ≠ 0 ↔ name ∈ (toList head).map Prod.fst := by
  rw [getHeadCount, Ne, count_eq_zero]
  simp only [ne_eq, not_forall, not_not, List.mem_map, exists_prop]

/-- Of a name that an exact merge takes the other head has one value. -/
theorem MergesExactly.single (exact_ : MergesExactly bcoverage head other)
    (present : getHeadCount other name ≠ 0) (takes : Takes bcoverage head name) :
    getHeadCount other name = 1 := by
  obtain ⟨value, _, one⟩ := foldl_mergeOne_takes takes (getHeadCount_ne_zero.mp present)
  have values := exact_.taken name present takes
  rw [merge, one] at values
  rw [getHeadCount_values, ← values.length_eq]
  rfl

/-- A merge is exact where every name that is taken has one value in the other head, and only
there. -/
theorem mergesExactly_iff (bcoverage : Bool) (head other : σ) :
    MergesExactly bcoverage head other ↔
      ∀ name, getHeadCount other name ≠ 0 → Takes bcoverage head name →
        getHeadCount other name = 1 := by
  constructor
  · exact fun exact_ name present takes => exact_.single present takes
  · intro single
    refine ⟨fun name present takes => ?_, fun name left => ?_⟩
    · obtain ⟨value, member, one⟩ := foldl_mergeOne_takes takes (getHeadCount_ne_zero.mp present)
      have length : (storedValues other name).length = 1 := by
        rw [← getHeadCount_values, single name present takes]
      obtain ⟨only, values⟩ := List.length_eq_one_iff.mp length
      have inside : value ∈ storedValues other name :=
        List.mem_map.mpr ⟨(name, value), List.mem_filter.mpr ⟨member, by simp⟩, rfl⟩
      rw [values, List.mem_singleton] at inside
      rw [merge, one, values, inside]
    · apply foldl_mergeOne_stays
      intro member takes
      exact left ⟨getHeadCount_ne_zero.mpr member, takes⟩

/-- Two `Set-Cookie` headers are merged into one. -/
theorem merge_drops_value :
    ¬ ∀ (bcoverage : Bool) (head other : ListMultimap), MergesExactly bcoverage head other := by
  intro always
  let setCookie := ascii "Set-Cookie"
  let other : ListMultimap :=
    addHead (addHead empty setCookie (ascii "a=1")) setCookie (ascii "b=2")
  have both : getHeadCount other setCookie = 2 := by decide
  have present : getHeadCount other setCookie ≠ 0 := by
    rw [both]
    decide
  have single := (always true empty other).single present (.inl rfl)
  rw [both] at single
  cases single

end Hnw.Http
