import Mathlib.Data.List.Pairwise
import Hnw.Http.Head

/-!
# The values of a header

`add_head` and `del_head` keep for every key the values that were added since it was last deleted.
`get_heads` returns them with whatever the container iterates over behind them.
-/

namespace Hnw.Http

open Hnw.Util Hnw.Util.UnorderedMultimap

/-- A call that changes a head. -/
inductive HeadOp where
  /-- `add_head`. -/
  | addHead (key value : Bytes)
  /-- `del_head`. -/
  | delHead (key : Bytes)
deriving DecidableEq

namespace HeadOp

/-- What a call adds to the values of a key, or takes from them. -/
def values (key : Bytes) (old : List Bytes) : HeadOp → List Bytes
  | .addHead other value => if other = key then old ++ [value] else old
  | .delHead other => if other = key then [] else old

/-- The values added under a key since it was last deleted. -/
def addedSince (ops : List HeadOp) (key : Bytes) : List Bytes := ops.foldl (values key) []

variable {σ : Type} [UnorderedMultimap σ]

/-- A call on a head. -/
def apply (head : σ) : HeadOp → σ
  | .addHead key value => Http.addHead head key value
  | .delHead key => Http.delHead head key

/-- Calls on a new head. -/
def run (ops : List HeadOp) : σ := ops.foldl apply empty

end HeadOp

variable {σ : Type} [UnorderedMultimap σ]

/-- The values of a key in a head. -/
def storedValues (head : σ) (key : Bytes) : List Bytes :=
  ((toList head).filter (·.1 = key)).map Prod.snd

/-- A call changes the values of a key as it should. -/
theorem storedValues_apply {head : σ} {key : Bytes} {old : List Bytes}
    (stored : (storedValues head key).Perm old) (op : HeadOp) :
    (storedValues (op.apply head) key).Perm (op.values key old) := by
  cases op with
  | addHead other value =>
    have added := ((toList_insert head (other, value)).filter (·.1 = key)).map Prod.snd
    by_cases same : other = key
    · rw [List.filter_cons_of_pos (by simpa using same), List.map_cons] at added
      simp only [HeadOp.values, if_pos same]
      exact added.trans ((stored.cons value).trans (List.perm_append_singleton value old).symm)
    · rw [List.filter_cons_of_neg (by simpa using same)] at added
      simp only [HeadOp.values, if_neg same]
      exact added.trans stored
  | delHead other =>
    have erased : storedValues (HeadOp.apply head (.delHead other)) key =
        (((toList head).filter (·.1 ≠ other)).filter (·.1 = key)).map Prod.snd := by
      rw [storedValues, HeadOp.apply, Http.delHead, toList_erase]
    rw [erased, List.filter_filter]
    by_cases same : other = key
    · have none : (toList head).filter (fun entry => decide (entry.1 = key) &&
          decide (entry.1 ≠ other)) = [] := by
        rw [List.filter_eq_nil_iff]
        intro entry _
        simp [same]
      rw [none]
      simp only [HeadOp.values, if_pos same]
      exact .refl _
    · have others : (toList head).filter (fun entry => decide (entry.1 = key) &&
          decide (entry.1 ≠ other)) = (toList head).filter (·.1 = key) := by
        apply List.filter_congr
        intro entry _
        by_cases here : entry.1 = key
        · simp [here, Ne.symm same]
        · simp [here]
      rw [others]
      simp only [HeadOp.values, if_neg same]
      exact stored

/-- The values of a key are the ones added since it was last deleted. -/
theorem storedValues_run (ops : List HeadOp) (key : Bytes) :
    (storedValues (HeadOp.run ops : σ) key).Perm (HeadOp.addedSince ops key) := by
  have keeps : ∀ (head : σ) (old : List Bytes), (storedValues head key).Perm old →
      (storedValues (ops.foldl HeadOp.apply head) key).Perm
        (ops.foldl (HeadOp.values key) old) := by
    induction ops with
    | nil => exact fun _ _ stored => stored
    | cons op ops ih => exact fun head old stored => ih _ _ (storedValues_apply stored op)
  apply keeps
  rw [storedValues, toList_empty]
  exact .refl _

/-- A header that replaces all of its name has the one value. -/
theorem storedValues_replace (head : σ) (key value : Bytes) :
    storedValues (addHead (delHead head key) key value) key = [value] := by
  have erased := storedValues_apply (.refl (storedValues head key)) (.delHead key)
  have added := storedValues_apply erased (.addHead key value)
  rw [HeadOp.values, HeadOp.values, if_pos rfl, if_pos rfl] at added
  exact List.perm_singleton.mp added

/-- A header that replaces all of its name is the one found. -/
theorem getHead_replace (head : σ) (key value notfind : Bytes) :
    getHead (addHead (delHead head key) key value) key notfind = value := by
  have stored := storedValues_replace head key value
  rw [storedValues] at stored
  obtain ⟨entry, here, same⟩ := List.map_eq_singleton_iff.mp stored
  have found : UnorderedMultimap.find (addHead (delHead head key) key value) key = some entry := by
    rw [UnorderedMultimap.find, ← List.head?_filter, here]
    rfl
  rw [getHead, found]
  exact same

/-- A header that is the first of its name has the one value. -/
theorem storedValues_first {head : σ} {key : Bytes} (nothing : storedValues head key = [])
    (value : Bytes) : storedValues (addHead head key value) key = [value] := by
  have added := storedValues_apply (.of_eq nothing) (.addHead key value)
  rw [HeadOp.values, if_pos rfl] at added
  exact List.perm_singleton.mp added

/-! ## `get_heads` -/

/-- In the order of iteration no entry of another key stands behind an entry of the key. -/
def NothingBehind (head : σ) (key : Bytes) : Prop :=
  (toList head).Pairwise fun first later => first.1 = key → later.1 = key

instance (head : σ) (key : Bytes) : Decidable (NothingBehind head key) :=
  inferInstanceAs (Decidable ((toList head).Pairwise _))

/-- From the key on there are its entries alone exactly where no other stands behind one. -/
theorem pairwise_iff_dropWhile (entries : List Entry) (key : Bytes) :
    entries.Pairwise (fun first later => first.1 = key → later.1 = key) ↔
      ∀ entry ∈ entries.dropWhile (·.1 ≠ key), entry.1 = key := by
  induction entries with
  | nil => simp
  | cons first entries ih =>
    rw [List.pairwise_cons]
    by_cases same : first.1 = key
    · rw [List.dropWhile_cons_of_neg (by simpa using same)]
      constructor
      · rintro ⟨behind, _⟩ entry member
        rcases List.mem_cons.mp member with rfl | later
        · exact same
        · exact behind entry later same
      · intro all
        have later : ∀ entry ∈ entries, entry.1 = key := fun entry member =>
          all entry (List.mem_cons_of_mem first member)
        exact ⟨fun entry member _ => later entry member,
          List.pairwise_of_forall_mem_list fun _ _ other member _ => later other member⟩
    · rw [List.dropWhile_cons_of_pos (by simpa using same), ← ih]
      exact ⟨And.right, fun rest => ⟨fun _ _ here => absurd here same, rest⟩⟩

/-- The entries of a key stand from the key on. -/
theorem filter_dropWhile (entries : List Entry) (key : Bytes) :
    (entries.dropWhile (·.1 ≠ key)).filter (·.1 = key) = entries.filter (·.1 = key) := by
  induction entries with
  | nil => rfl
  | cons first entries ih =>
    by_cases same : first.1 = key
    · rw [List.dropWhile_cons_of_neg (by simpa using same)]
    · rw [List.dropWhile_cons_of_pos (by simpa using same), ih,
        List.filter_cons_of_neg (by simpa using same)]

/-- Where nothing stands behind them, `get_heads` gives the values of the key. -/
theorem getHeads_eq {head : σ} {key : Bytes} (nothing : NothingBehind head key) :
    getHeads head key = storedValues head key := by
  have only := (pairwise_iff_dropWhile (toList head) key).mp nothing
  have whole : ((toList head).dropWhile (·.1 ≠ key)).filter (·.1 = key) =
      (toList head).dropWhile (·.1 ≠ key) := by
    rw [List.filter_eq_self]
    simpa using only
  rw [getHeads, storedValues, ← filter_dropWhile, whole]

/-- The first value of the key is the first that `get_heads` gives. -/
theorem getHeads_first {head : σ} {key value : Bytes} {values : List Bytes}
    (stored : storedValues head key = value :: values) :
    ∃ behind, getHeads head key = value :: behind := by
  rw [storedValues, ← filter_dropWhile] at stored
  rw [getHeads]
  cases walked : (toList head).dropWhile (·.1 ≠ key) with
  | nil =>
    rw [walked] at stored
    cases stored
  | cons entry rest =>
    have here : entry.1 = key := by
      have stops := List.head?_dropWhile_not (fun entry : Entry => decide (entry.1 ≠ key))
        (toList head)
      rw [walked] at stops
      simpa using stops
    rw [walked, List.filter_cons_of_pos (by simpa using here), List.map_cons,
      List.cons.injEq] at stored
    exact ⟨rest.map Prod.snd, by rw [List.map_cons, stored.1]⟩

/-- As many values as the key has come from nothing but its entries. -/
theorem nothingBehind_of_length {head : σ} {key : Bytes}
    (length : (getHeads head key).length = getHeadCount head key) : NothingBehind head key := by
  rw [getHeads, List.length_map, getHeadCount, count, List.countP_eq_length_filter,
    ← filter_dropWhile] at length
  have whole := List.length_filter_eq_length_iff.mp length.symm
  exact (pairwise_iff_dropWhile (toList head) key).mpr (by simpa using whole)

/-- `get_heads` returns the values added since the key was last deleted, and counts them. -/
def GetsHeads (head : σ) (added : List Bytes) (key : Bytes) : Prop :=
  (getHeads head key).Perm added ∧ (getHeads head key).length = getHeadCount head key

/-- `get_heads` is right exactly where no entry of another key stands behind the key's. -/
theorem getHeads_iff (ops : List HeadOp) (key : Bytes) :
    GetsHeads (HeadOp.run ops : σ) (HeadOp.addedSince ops key) key ↔
      NothingBehind (HeadOp.run ops : σ) key := by
  constructor
  · rintro ⟨_, length⟩
    exact nothingBehind_of_length length
  · intro nothing
    have values := getHeads_eq nothing
    refine ⟨?_, ?_⟩
    · rw [values]
      exact storedValues_run ops key
    · rw [values, storedValues, List.length_map, getHeadCount, count,
        List.countP_eq_length_filter]

/-- Two headers in the order of a list: the one in front comes with the other. -/
theorem getHeads_mixes :
    ¬ ∀ (ops : List HeadOp) (key : Bytes),
      GetsHeads (HeadOp.run ops : ListMultimap) (HeadOp.addedSince ops key) key := by
  intro always
  have two := always [.addHead (ascii "a") (ascii "1"), .addHead (ascii "b") (ascii "2")]
    (ascii "b")
  exact absurd two.2 (by decide)

end Hnw.Http
