import Mathlib.Algebra.Order.BigOperators.Group.List
import Hnw.Verif.SplitKy

/-!
# Printing pairs and splitting them again

A list of pairs printed as `key=value` with commas between them, blanks behind a comma and a comma
at the end where one is wanted. `split_ky` is back in its first state behind each pair and returns
the map of the pairs, unless a text is so long that `trim` loses its end: an `int` counts it.
-/

namespace Hnw.Http

open Hnw.Util Hnw.Theory

/-- A pair and how it is printed. -/
structure PrintedPair where
  /-- The key. -/
  key : Bytes
  /-- The value. -/
  value : Bytes
  /-- Whether the value stands between double quotes. -/
  quoted : Bool
  /-- How many blanks stand in front. -/
  blanks : Nat

namespace PrintedPair

/-- The pair as a field: the blanks in front are read into the key. -/
def field (pair : PrintedPair) : Field :=
  { name := List.replicate pair.blanks blank ++ pair.key, value := pair.value,
    quoted := pair.quoted }

/-- The entry of the map. -/
def entry (pair : PrintedPair) : Bytes × Bytes := (pair.key, pair.value)

/-- The key is not empty and holds no `=`, both texts are bare, and a value without quotes around
it holds no comma. -/
structure WellFormed (pair : PrintedPair) : Prop where
  /-- A key. -/
  some_ : pair.key ≠ []
  /-- No `=` in the key. -/
  free : equals ∉ pair.key
  /-- The key is bare. -/
  key : Bare pair.key
  /-- The value is bare. -/
  value : Bare pair.value
  /-- No comma outside of quotes. -/
  noLink : pair.quoted = false → comma ∉ pair.value

instance (pair : PrintedPair) : Decidable pair.WellFormed :=
  decidable_of_iff (pair.key ≠ [] ∧ equals ∉ pair.key ∧ Bare pair.key ∧ Bare pair.value ∧
      (pair.quoted = false → comma ∉ pair.value))
    ⟨fun all => ⟨all.1, all.2.1, all.2.2.1, all.2.2.2.1, all.2.2.2.2⟩,
      fun formed => ⟨formed.some_, formed.free, formed.key, formed.value, formed.noLink⟩⟩

/-- The texts are short enough for the `int` in `trim`. -/
def Short (pair : PrintedPair) : Prop :=
  pair.blanks + pair.key.length ≤ 2 ^ 31 ∧ pair.value.length ≤ 2 ^ 31

instance (pair : PrintedPair) : Decidable pair.Short :=
  inferInstanceAs (Decidable (_ ∧ _))

/-- A pair is printed so that the scanner finds its end. -/
theorem WellFormed.printable {pair : PrintedPair} (formed : pair.WellFormed) :
    pair.field.Printable where
  name_free := by
    rw [field, List.mem_append, not_or]
    exact ⟨fun member => absurd (List.eq_of_mem_replicate member) (by decide), formed.free⟩
  noDouble := formed.value.noDouble
  noSingle := formed.value.noSingle
  noLink := formed.noLink

end PrintedPair

/-- The pairs with commas between them, and one at the end where it is wanted. -/
def printedPairs (pairs : List PrintedPair) (final : Bool) : Bytes :=
  [comma].intercalate (pairs.map fun pair => pair.field.text) ++ if final then [comma] else []

/-- Each pair but the last with a comma behind it. -/
theorem printedPairs_concat (pairs : List PrintedPair) (last : PrintedPair) (final : Bool) :
    printedPairs (pairs ++ [last]) final =
      ((pairs.map PrintedPair.field).flatMap fun field => field.text ++ [comma]) ++
        last.field.text ++ if final then [comma] else [] := by
  rw [printedPairs, List.map_append, List.map_singleton, intercalate_concat, List.flatMap_map,
    List.flatMap_map]

/-- The printed pairs are stored one after the other. -/
theorem splitKy_printedPairs {pairs : List PrintedPair} (some_ : pairs ≠ [])
    (formed : ∀ pair ∈ pairs, pair.WellFormed) (final : Bool) :
    splitKy (printedPairs pairs final) = storeFields (pairs.map PrintedPair.field) [] := by
  have printable : ∀ field ∈ pairs.map PrintedPair.field, field.Printable := by
    intro field member
    obtain ⟨pair, here, rfl⟩ := List.mem_map.mp member
    exact (formed pair here).printable
  obtain ⟨front, last, rfl⟩ := (List.eq_nil_or_concat pairs).resolve_left some_
  rw [List.concat_eq_append, List.map_append] at printable ⊢
  rw [printedPairs_concat]
  cases final with
  | true =>
    rw [if_pos rfl, ← splitKy_terminated printable, List.flatMap_append, List.append_assoc]
    simp
  | false =>
    have key : last.field.name ≠ [] := by
      have some_ := (formed last (by simp)).some_
      rw [PrintedPair.field]
      simp [some_]
    rw [if_neg Bool.false_ne_true, List.append_nil]
    exact splitKy_separated printable key

/-! ## What `trim` leaves -/

/-- Blanks in front are stripped. -/
theorem stripped_blanks (count : Nat) (text : Bytes) :
    stripped (List.replicate count blank ++ text) = stripped text := by
  rw [stripped, stripped, List.dropWhile_append_of_pos]
  intro byte member
  exact decide_eq_true (List.eq_of_mem_replicate member)

/-- What `trim` leaves of a text behind blanks. -/
theorem trim_blanks (count : Nat) (text : Bytes) :
    ∃ seen ≤ 2 ^ 31, trim (List.replicate count blank ++ text) =
      stripped (text.take (seen - count)) := by
  have limit := intOfSize_lt ((List.replicate count blank ++ text).length - 1)
  refine ⟨(intOfSize ((List.replicate count blank ++ text).length - 1) + 1).toNat, by omega, ?_⟩
  rw [trim_eq, List.take_append, List.take_replicate, List.length_replicate, stripped_blanks]

/-- A bare text behind blanks comes back where it is short. -/
theorem trim_bare {count : Nat} {text : Bytes} (bare : Bare text)
    (short : count + text.length ≤ 2 ^ 31) :
    trim (List.replicate count blank ++ text) = text := by
  have whole : (List.replicate count blank ++ text).length ≤ 2 ^ 31 := by
    rw [List.length_append, List.length_replicate]
    exact short
  rw [trim_eq, take_seen whole, stripped_blanks, stripped_self bare.front bare.behind]

/-- No more than the text comes back. -/
theorem trim_length_le (count : Nat) (text : Bytes) :
    (trim (List.replicate count blank ++ text)).length ≤ text.length := by
  obtain ⟨seen, _, left⟩ := trim_blanks count text
  rw [left]
  exact ((stripped_sublist _).trans (List.take_sublist _ _)).length_le

/-- Where all of a text comes back it is short. -/
theorem short_of_trim_length {count : Nat} {text : Bytes} (some_ : text ≠ [] ∨ count = 0)
    (whole : (trim (List.replicate count blank ++ text)).length = text.length) :
    count + text.length ≤ 2 ^ 31 := by
  obtain ⟨seen, limit, left⟩ := trim_blanks count text
  have size := (stripped_sublist (text.take (seen - count))).length_le
  rw [← left, whole, List.length_take] at size
  rcases some_ with some_ | zero
  · have positive := List.length_pos_iff.mpr some_
    omega
  · omega

/-! ## What comes back -/

/-- A map holds exactly the pairs. -/
structure HoldsPairs (map : QueryMap) (pairs : List PrintedPair) : Prop where
  /-- The map is one: its keys stand in order, each once. -/
  sorted : Sorted map
  /-- Its entries are the pairs. -/
  entries : map.Perm (pairs.map PrintedPair.entry)

/-- What is stored for a pair. -/
def PrintedPair.stored (pair : PrintedPair) : Bytes × Bytes :=
  (trim pair.field.name, trim pair.field.value)

/-- The fields of pairs are stored by assignments in order. -/
theorem storeFields_pairs (pairs : List PrintedPair) :
    storeFields (pairs.map PrintedPair.field) [] =
      (pairs.map PrintedPair.stored).foldl
        (fun built entry => setSorted entry.1 entry.2 built) [] := by
  rw [storeFields, List.foldl_map, List.foldl_map]
  apply List.foldl_ext
  intro map pair _
  exact QueryMap.set_eq _ _ map

/-- What is stored for pairs is a map of the last values. -/
theorem storeFields_perm (pairs : List PrintedPair) :
    Sorted (storeFields (pairs.map PrintedPair.field) []) ∧
      (storeFields (pairs.map PrintedPair.field) []).Perm
        (lastValues (pairs.map PrintedPair.stored)) := by
  rw [storeFields_pairs]
  exact ⟨Sorted.foldl .nil _, foldl_setSorted_perm _⟩

namespace PrintedPair

variable {pair : PrintedPair}

/-- The value stands behind no blanks. -/
theorem value_behind (pair : PrintedPair) :
    pair.field.value = List.replicate 0 blank ++ pair.value := rfl

/-- A short pair is stored as it is. -/
theorem WellFormed.stored (formed : pair.WellFormed) (short : pair.Short) :
    pair.stored = pair.entry := by
  rw [PrintedPair.stored, value_behind, field, trim_bare formed.key short.1,
    trim_bare formed.value (by rw [Nat.zero_add]; exact short.2), entry]

/-- The number of bytes in an entry. -/
def size (entry : Bytes × Bytes) : Nat := entry.1.length + entry.2.length

/-- What is stored is no longer than the pair. -/
theorem stored_size_le (pair : PrintedPair) : size pair.stored ≤ size pair.entry :=
  Nat.add_le_add (trim_length_le pair.blanks pair.key) (trim_length_le 0 pair.value)

/-- A pair that is stored in full is short. -/
theorem WellFormed.short (formed : pair.WellFormed)
    (whole : size pair.stored = size pair.entry) : pair.Short := by
  have key := trim_length_le pair.blanks pair.key
  have value := trim_length_le 0 pair.value
  have sizes : (trim (List.replicate pair.blanks blank ++ pair.key)).length +
      (trim (List.replicate 0 blank ++ pair.value)).length =
        pair.key.length + pair.value.length := whole
  have valueShort := @short_of_trim_length 0 pair.value (.inr rfl) (by omega)
  exact ⟨short_of_trim_length (.inl formed.some_) (by omega), by omega⟩

end PrintedPair

/-- Short pairs with keys of their own come back. -/
theorem holdsPairs_of_short {pairs : List PrintedPair} (some_ : pairs ≠ [])
    (formed : ∀ pair ∈ pairs, pair.WellFormed) (once : (pairs.map PrintedPair.key).Nodup)
    (short : ∀ pair ∈ pairs, pair.Short) (final : Bool) :
    HoldsPairs (splitKy (printedPairs pairs final)) pairs := by
  have stored : pairs.map PrintedPair.stored = pairs.map PrintedPair.entry :=
    List.map_congr_left fun pair member => (formed pair member).stored (short pair member)
  have keys : ((pairs.map PrintedPair.entry).map Prod.fst).Nodup := by
    rw [List.map_map]
    exact once
  have found := storeFields_perm pairs
  rw [stored, lastValues_of_nodup keys] at found
  rw [splitKy_printedPairs some_ formed]
  exact ⟨found.1, found.2⟩

/-- Pairs that come back are short: no byte of them is lost. -/
theorem short_of_holdsPairs {pairs : List PrintedPair} (some_ : pairs ≠ [])
    (formed : ∀ pair ∈ pairs, pair.WellFormed) {final : Bool}
    (holds : HoldsPairs (splitKy (printedPairs pairs final)) pairs) :
    ∀ pair ∈ pairs, pair.Short := by
  have entries := holds.entries
  rw [splitKy_printedPairs some_ formed] at entries
  have same := (storeFields_perm pairs).2.symm.trans entries
  -- As many entries are left as there are pairs, so none was assigned over.
  have all : lastValues (pairs.map PrintedPair.stored) = pairs.map PrintedPair.stored := by
    apply (lastValues_sublist _).eq_of_length
    rw [same.length_eq, List.length_map, List.length_map]
  rw [all] at same
  have sizes := (same.map PrintedPair.size).sum_eq
  rw [List.map_map, List.map_map] at sizes
  intro pair member
  by_contra long
  have less := List.sum_lt_sum (PrintedPair.size ∘ PrintedPair.stored)
    (PrintedPair.size ∘ PrintedPair.entry) (fun other _ => other.stored_size_le)
    ⟨pair, member, lt_of_le_of_ne pair.stored_size_le fun whole =>
      long ((formed pair member).short whole)⟩
  omega

/-- `split_ky` inverts the printing of pairs exactly where every key with the blanks in front of it
and every value is short enough for the `int` in `trim`. -/
theorem split_ky_inverts (pairs : List PrintedPair) (final : Bool) (some_ : pairs ≠ [])
    (formed : ∀ pair ∈ pairs, pair.WellFormed) (once : (pairs.map PrintedPair.key).Nodup) :
    HoldsPairs (splitKy (printedPairs pairs final)) pairs ↔ ∀ pair ∈ pairs, pair.Short :=
  ⟨short_of_holdsPairs some_ formed, fun short => holdsPairs_of_short some_ formed once short final⟩

/-- `a=1,  b="x,y",` comes back. -/
theorem split_ky_inverts_two :
    HoldsPairs
      (splitKy (printedPairs
        [⟨ascii "a", ascii "1", false, 0⟩, ⟨ascii "b", ascii "x,y", true, 2⟩] true))
      [⟨ascii "a", ascii "1", false, 0⟩, ⟨ascii "b", ascii "x,y", true, 2⟩] :=
  (split_ky_inverts [⟨ascii "a", ascii "1", false, 0⟩, ⟨ascii "b", ascii "x,y", true, 2⟩] true
    (by decide) (by decide) (by decide)).mpr (by decide)

/-- A pair with a value of so many letters. -/
def longPair (count : Nat) : PrintedPair := ⟨ascii "a", List.replicate count 97, false, 0⟩

/-- A pair with a long value is a pair like any other. -/
theorem longPair_wellFormed (count : Nat) : (longPair count).WellFormed := by
  have letters : ∀ byte ∈ List.replicate count (97 : UInt8), byte = 97 :=
    fun byte member => List.eq_of_mem_replicate member
  refine ⟨(by decide : ascii "a" ≠ []), (by decide : equals ∉ ascii "a"),
    (by decide : Bare (ascii "a")), ⟨?_, ?_, ?_, ?_⟩, fun _ => ?_⟩
  · exact fun member => absurd (letters _ member) (by decide)
  · exact fun member => absurd (letters _ member) (by decide)
  · exact fun begins => absurd (letters _ (List.mem_of_head? begins)) (by decide)
  · exact fun ends => absurd (letters _ (List.mem_of_getLast? ends)) (by decide)
  · exact fun member => absurd (letters _ member) (by decide)

/-- A value of 2147483649 letters does not come back. -/
theorem long_value_lost :
    ¬ ∀ (pairs : List PrintedPair) (final : Bool), pairs ≠ [] →
      (∀ pair ∈ pairs, pair.WellFormed) → (pairs.map PrintedPair.key).Nodup →
        HoldsPairs (splitKy (printedPairs pairs final)) pairs := by
  intro claim
  have formed : ∀ pair ∈ [longPair (2 ^ 31 + 1)], pair.WellFormed := by
    intro pair member
    rw [List.mem_singleton.mp member]
    exact longPair_wellFormed _
  have holds := claim [longPair (2 ^ 31 + 1)] false (List.cons_ne_nil _ _) formed
    (List.nodup_singleton _)
  have short := (short_of_holdsPairs (List.cons_ne_nil _ _) formed holds _
    (List.mem_singleton_self _)).2
  rw [longPair, List.length_replicate] at short
  omega

end Hnw.Http
