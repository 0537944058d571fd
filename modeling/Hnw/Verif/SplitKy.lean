import Mathlib.Data.List.DropRight
import Hnw.Http.Auth
import Hnw.Verif.Target

/-!
# The fields of an authentication header

`split_ky` reads `key=value` and `key="value"` between commas. It takes an apostrophe for a quote
and trims every value, so no value it returns holds a quote or begins or ends with a blank; fields
without these come back as they were printed.
-/

namespace Hnw.Http

open Hnw.Util Hnw.Theory

/-- A text without quotes, and without blanks around it. -/
structure Bare (text : Bytes) : Prop where
  /-- No double quote. -/
  noDouble : doubleQuote ∉ text
  /-- No apostrophe. -/
  noSingle : singleQuote ∉ text
  /-- No blank in front. -/
  front : text.head? ≠ some blank
  /-- No blank behind. -/
  behind : text.getLast? ≠ some blank

instance (text : Bytes) : Decidable (Bare text) :=
  decidable_of_iff (doubleQuote ∉ text ∧ singleQuote ∉ text ∧ text.head? ≠ some blank ∧
      text.getLast? ≠ some blank)
    ⟨fun all => ⟨all.1, all.2.1, all.2.2.1, all.2.2.2⟩,
      fun bare => ⟨bare.noDouble, bare.noSingle, bare.front, bare.behind⟩⟩

/-- A bare text, as long as `trim` can count. -/
structure Plain (text : Bytes) : Prop extends Bare text where
  /-- Its last position is an `int`. -/
  short : text.length ≤ 2 ^ 31

instance (text : Bytes) : Decidable (Plain text) :=
  decidable_of_iff (Bare text ∧ text.length ≤ 2 ^ 31)
    ⟨fun all => ⟨all.1, all.2⟩, fun plain => ⟨plain.toBare, plain.short⟩⟩

/-- The empty text is plain. -/
theorem plain_nil : Plain [] := by decide

/-! ## `trim` -/

/-- A size in the range of an `int` is kept. -/
theorem intOfSize_small {size : Nat} (small : size < 2 ^ 31) : intOfSize size = size := by
  unfold intOfSize
  apply Int.bmod_eq_of_le
  · omega
  · omega

/-- An `int` is in its range. -/
theorem intOfSize_lt (size : Nat) : intOfSize size < 2 ^ 31 :=
  Int.bmod_lt (by decide)

/-- What is left of a text without the blanks around it. -/
def stripped (text : Bytes) : Bytes := (text.dropWhile (· = blank)).rdropWhile (· = blank)

/-- No blank is left in front. -/
theorem stripped_front (text : Bytes) : (stripped text).head? ≠ some blank := by
  intro begins
  obtain ⟨rest, whole⟩ := List.head?_eq_some_iff.mp begins
  have front := List.rdropWhile_prefix (fun byte => decide (byte = blank))
    (text.dropWhile (· = blank))
  have first := List.head?_dropWhile_not (fun byte => decide (byte = blank)) text
  rw [stripped] at whole
  rw [whole] at front
  obtain ⟨more, same⟩ := front
  rw [← same, List.cons_append, List.head?_cons] at first
  simp at first

/-- No blank is left behind. -/
theorem stripped_behind (text : Bytes) : (stripped text).getLast? ≠ some blank := by
  intro ends
  rw [stripped, List.rdropWhile, List.getLast?_reverse] at ends
  have last := List.head?_dropWhile_not (fun byte => decide (byte = blank))
    (text.dropWhile (· = blank)).reverse
  rw [ends] at last
  simp at last

/-- What is left is a part of the text. -/
theorem stripped_sublist (text : Bytes) : (stripped text).Sublist text :=
  (List.rdropWhile_prefix _ _).sublist.trans (List.dropWhile_suffix _).sublist

/-- `trim` strips what it sees of a text. -/
theorem trim_eq (text : Bytes) :
    trim text = stripped (text.take (intOfSize (text.length - 1) + 1).toNat) := by
  rw [trim]
  split
  · next empty_ => rw [empty_, List.take_nil]; rfl
  · rfl

/-- A text without blanks around it has nothing to strip. -/
theorem stripped_self {text : Bytes} (front : text.head? ≠ some blank)
    (behind : text.getLast? ≠ some blank) : stripped text = text := by
  have first : text.dropWhile (· = blank) = text := by
    apply List.dropWhile_eq_self_iff.mpr
    intro inside same
    apply front
    rw [List.head?_eq_getElem?, List.getElem?_eq_getElem inside, of_decide_eq_true same]
  have last : text.rdropWhile (· = blank) = text := by
    apply List.rdropWhile_eq_self_iff.mpr
    intro some_ same
    apply behind
    rw [List.getLast?_eq_some_getLast some_, of_decide_eq_true same]
  rw [stripped, first, last]

/-- `trim` sees a short text to its end. -/
theorem take_seen {text : Bytes} (short : text.length ≤ 2 ^ 31) :
    text.take (intOfSize (text.length - 1) + 1).toNat = text := by
  apply List.take_of_length_le
  rw [intOfSize_small (by omega)]
  omega

/-- A plain text has nothing to trim. -/
theorem trim_plain {text : Bytes} (plain : Plain text) : trim text = text := by
  rw [trim_eq, take_seen plain.short, stripped_self plain.front plain.behind]

/-- What is left of a text without quotes is plain. -/
theorem plain_trim {text : Bytes} (noDouble : doubleQuote ∉ text) (noSingle : singleQuote ∉ text) :
    Plain (trim text) := by
  have seen := List.take_sublist (intOfSize (text.length - 1) + 1).toNat text
  have part := stripped_sublist (text.take (intOfSize (text.length - 1) + 1).toNat)
  have limit := intOfSize_lt (text.length - 1)
  have size := part.length_le
  rw [List.length_take] at size
  rw [trim_eq]
  exact
    { noDouble := fun inside => noDouble (seen.mem (part.mem inside))
      noSingle := fun inside => noSingle (seen.mem (part.mem inside))
      front := stripped_front _
      behind := stripped_behind _
      short := by omega }

/-! ## What the values never hold -/

/-- A stored entry is the assigned one or was there before. -/
theorem mem_of_mem_set {key value : Bytes} {map : QueryMap} {entry : Bytes × Bytes}
    (member : entry ∈ map.set key value) : entry = (key, value) ∨ entry ∈ map := by
  induction map with
  | nil => exact Or.inl (List.mem_singleton.mp member)
  | cons first rest ih =>
    rw [QueryMap.set] at member
    split at member
    · exact List.mem_cons.mp member
    · split at member
      · rcases List.mem_cons.mp member with same | later
        · exact Or.inl same
        · exact Or.inr (List.mem_cons_of_mem first later)
      · rcases List.mem_cons.mp member with here | later
        · exact Or.inr (by simp [here])
        · exact (ih later).imp_right (List.mem_cons_of_mem first)

/-- The values stored so far are plain, and the one being read holds no quote. -/
structure Unquoted (k : SplitKy) : Prop where
  /-- The values that are stored. -/
  stored : ∀ entry ∈ k.kVs, Plain entry.2
  /-- No double quote. -/
  noDouble : doubleQuote ∉ k.value
  /-- No apostrophe. -/
  noSingle : singleQuote ∉ k.value

/-- Storing the value that is being read keeps the values plain. -/
theorem Unquoted.store {k : SplitKy} (inv : Unquoted k) :
    ∀ entry ∈ k.kVs.set (trim k.key) (trim k.value), Plain entry.2 := by
  intro entry member
  rcases mem_of_mem_set member with rfl | before
  · exact plain_trim inv.noDouble inv.noSingle
  · exact inv.stored entry before

/-- A character other than a quote may be read. -/
theorem Unquoted.extend {k : SplitKy} {c : UInt8} (inv : Unquoted k)
    (other : ¬ (c = doubleQuote ∨ c = singleQuote)) :
    Unquoted { k with value := k.value ++ [c] } := by
  refine ⟨inv.stored, ?_, ?_⟩
  · simp only [List.mem_append, List.mem_singleton, not_or]
    exact ⟨inv.noDouble, fun same => other (Or.inl same.symm)⟩
  · simp only [List.mem_append, List.mem_singleton, not_or]
    exact ⟨inv.noSingle, fun same => other (Or.inr same.symm)⟩

/-- Every character keeps the values plain. -/
theorem Unquoted.next {k : SplitKy} (inv : Unquoted k) (c : UInt8) :
    Unquoted (k.next comma c) := by
  rw [SplitKy.next]
  split
  · split
    · exact ⟨inv.stored, inv.noDouble, inv.noSingle⟩
    · exact ⟨inv.stored, inv.noDouble, inv.noSingle⟩
  · split
    · exact ⟨inv.stored, inv.noDouble, inv.noSingle⟩
    · next other =>
      split
      · exact ⟨inv.store, List.not_mem_nil, List.not_mem_nil⟩
      · exact inv.extend other
  · split
    · exact ⟨inv.stored, inv.noDouble, inv.noSingle⟩
    · next other => exact inv.extend other

/-- Every value that `split_ky` returns is plain. -/
theorem splitKy_plain (src : Bytes) : ∀ entry ∈ splitKy src, Plain entry.2 := by
  have fresh : Unquoted {} :=
    ⟨fun entry member => absurd member List.not_mem_nil, List.not_mem_nil, List.not_mem_nil⟩
  have read : ∀ k, Unquoted k → Unquoted (src.foldl (SplitKy.next comma) k) := by
    induction src with
    | nil => exact fun _ inv => inv
    | cons c src ih => exact fun k inv => ih _ (inv.next c)
  have inv := read {} fresh
  rw [splitKy]
  split
  · exact inv.stored
  · exact inv.store

/-- Every value that is looked up is plain. -/
theorem getValueForMap_plain (src key : Bytes) : Plain (getValueForMap (splitKy src) key) := by
  rw [getValueForMap]
  split
  · next entry found => exact splitKy_plain src entry (List.mem_of_find?_eq_some found)
  · exact plain_nil

/-! ## What is read of printed fields -/

/-- A field as it is printed. -/
structure Field where
  /-- The key. -/
  name : Bytes
  /-- The value. -/
  value : Bytes
  /-- Whether the value stands between quotes. -/
  quoted : Bool

namespace Field

/-- `key=value`, or `key="value"`. -/
def text (field : Field) : Bytes :=
  field.name ++ equals :: if field.quoted then doubleQuote :: (field.value ++ [doubleQuote])
    else field.value

/-- The key holds no `=`, the value no quote, and one that is not quoted no comma. -/
structure Printable (field : Field) : Prop where
  /-- No `=` in the key. -/
  name_free : equals ∉ field.name
  /-- No double quote in the value. -/
  noDouble : doubleQuote ∉ field.value
  /-- No apostrophe in the value. -/
  noSingle : singleQuote ∉ field.value
  /-- No comma outside of quotes. -/
  noLink : field.quoted = false → comma ∉ field.value

end Field

/-- Characters of a key. -/
theorem foldl_key {name : Bytes} (free : equals ∉ name) (kVs : QueryMap) :
    name.foldl (SplitKy.next comma) { kVs } = { kVs, key := name } := by
  apply @foldl_collect _ _ (SplitKy.next comma) fun seen => { kVs, key := seen }
  intro seen c member
  have other : c ≠ equals := by
    rintro rfl
    exact free member
  exact if_neg other

/-- A character of a value without quotes is none. -/
theorem not_quote {value : Bytes} (noDouble : doubleQuote ∉ value) (noSingle : singleQuote ∉ value)
    {c : UInt8} (member : c ∈ value) : ¬ (c = doubleQuote ∨ c = singleQuote) := by
  rintro (rfl | rfl)
  · exact noDouble member
  · exact noSingle member

/-- Characters of a value between quotes. -/
theorem foldl_str {value : Bytes} (noDouble : doubleQuote ∉ value) (noSingle : singleQuote ∉ value)
    (kVs : QueryMap) (key : Bytes) :
    value.foldl (SplitKy.next comma) { kVs, key, s := .str } = { kVs, key, value, s := .str } := by
  apply @foldl_collect _ _ (SplitKy.next comma) fun seen => { kVs, key, value := seen, s := .str }
  intro seen c member
  have other := not_quote noDouble noSingle member
  exact if_neg other

/-- Characters of a value without quotes around it. -/
theorem foldl_value {value : Bytes} (noDouble : doubleQuote ∉ value)
    (noSingle : singleQuote ∉ value) (noLink : comma ∉ value) (kVs : QueryMap) (key : Bytes) :
    value.foldl (SplitKy.next comma) { kVs, key, s := .value } =
      { kVs, key, value, s := .value } := by
  apply @foldl_collect _ _ (SplitKy.next comma) fun seen => { kVs, key, value := seen, s := .value }
  intro seen c member
  have other := not_quote noDouble noSingle member
  have notLink : c ≠ comma := by
    rintro rfl
    exact noLink member
  exact (if_neg other).trans (if_neg notLink)

/-- A field is read into the variables. -/
theorem foldl_field {field : Field} (printable : field.Printable) (kVs : QueryMap) :
    field.text.foldl (SplitKy.next comma) { kVs } =
      { kVs, key := field.name, value := field.value, s := .value } := by
  have begun : SplitKy.next comma { kVs, key := field.name } equals =
      { kVs, key := field.name, s := .value } := rfl
  rw [Field.text, List.foldl_append, foldl_key printable.name_free, List.foldl_cons, begun]
  cases quoted : field.quoted with
  | true =>
    have opened : SplitKy.next comma { kVs, key := field.name, s := .value } doubleQuote =
        { kVs, key := field.name, s := .str } := rfl
    rw [if_pos rfl, List.foldl_cons, opened, List.foldl_append,
      foldl_str printable.noDouble printable.noSingle]
    rfl
  | false =>
    rw [if_neg Bool.false_ne_true]
    exact foldl_value printable.noDouble printable.noSingle (printable.noLink quoted) kVs field.name

/-- Fields that each end with a comma are stored one after the other. -/
theorem foldl_fields {fields : List Field} (printable : ∀ field ∈ fields, field.Printable)
    (kVs : QueryMap) :
    (fields.flatMap fun field => field.text ++ [comma]).foldl (SplitKy.next comma) { kVs } =
      { kVs := fields.foldl
          (fun map field => map.set (trim field.name) (trim field.value)) kVs } := by
  induction fields generalizing kVs with
  | nil => rfl
  | cons field fields ih =>
    rw [List.flatMap_cons, List.foldl_append, List.foldl_append,
      foldl_field (printable field List.mem_cons_self)]
    have stored : [comma].foldl (SplitKy.next comma)
        { kVs, key := field.name, value := field.value, s := .value } =
          { kVs := kVs.set (trim field.name) (trim field.value) } := rfl
    rw [stored, ih fun other member => printable other (List.mem_cons_of_mem field member)]
    rfl

/-! ## Looking fields up -/

/-- A look-up behind an assignment. -/
theorem getValueForMap_set (map : QueryMap) (key value name : Bytes) :
    getValueForMap (map.set key value) name =
      if key = name then value else getValueForMap map name := by
  rw [getValueForMap, QueryMap.set_eq, find?_setSorted]
  by_cases same : key = name
  · rw [if_pos same, if_pos same]
  · rw [if_neg same, if_neg same, getValueForMap]

/-- Fields that come back: printable, with a key and a value that have nothing to trim. -/
structure Field.Readable (field : Field) : Prop where
  /-- The field is printed so that the scanner finds its end. -/
  printable : field.Printable
  /-- The key has nothing to trim. -/
  name_kept : trim field.name = field.name
  /-- The value has nothing to trim. -/
  value_kept : trim field.value = field.value

/-- A field of plain texts comes back. -/
theorem Field.Readable.of_plain {field : Field} (name : Plain field.name)
    (free : equals ∉ field.name) (value : Plain field.value)
    (noLink : field.quoted = false → comma ∉ field.value) : field.Readable :=
  { printable :=
      { name_free := free
        noDouble := value.noDouble
        noSingle := value.noSingle
        noLink := noLink }
    name_kept := trim_plain name
    value_kept := trim_plain value }

/-- The assignments of fields. -/
def storeFields (fields : List Field) (map : QueryMap) : QueryMap :=
  fields.foldl (fun map field => map.set (trim field.name) (trim field.value)) map

/-- Keys that are not assigned keep their values. -/
theorem getValueForMap_other {fields : List Field} (readable : ∀ field ∈ fields, field.Readable)
    {name : Bytes} (absent : name ∉ fields.map Field.name) (map : QueryMap) :
    getValueForMap (storeFields fields map) name = getValueForMap map name := by
  induction fields generalizing map with
  | nil => rfl
  | cons field fields ih =>
    rw [List.map_cons, List.mem_cons, not_or] at absent
    have later := ih (fun other member => readable other (List.mem_cons_of_mem field member))
      absent.2 (map.set (trim field.name) (trim field.value))
    rw [storeFields] at later
    rw [storeFields, List.foldl_cons, later, getValueForMap_set,
      (readable field List.mem_cons_self).name_kept, if_neg (Ne.symm absent.1)]

/-- Each key has the value of its field. -/
theorem getValueForMap_field {fields : List Field} (readable : ∀ field ∈ fields, field.Readable)
    (once : (fields.map Field.name).Nodup) {field : Field} (member : field ∈ fields)
    (map : QueryMap) : getValueForMap (storeFields fields map) field.name = field.value := by
  induction fields generalizing map with
  | nil => cases member
  | cons first fields ih =>
    rw [List.map_cons, List.nodup_cons] at once
    have others := fun other (later : other ∈ fields) =>
      readable other (List.mem_cons_of_mem first later)
    rcases List.mem_cons.mp member with rfl | later
    · have kept := readable field List.mem_cons_self
      have stays := getValueForMap_other others once.1
        (map.set (trim field.name) (trim field.value))
      rw [storeFields] at stays
      rw [storeFields, List.foldl_cons, stays, getValueForMap_set, kept.name_kept, if_pos rfl,
        kept.value_kept]
    · exact ih others once.2 later (map.set (trim first.name) (trim first.value))

/-- The keys of fields that come back have the values of the fields. -/
theorem map_getValueForMap {fields : List Field} (readable : ∀ field ∈ fields, field.Readable)
    (once : (fields.map Field.name).Nodup) :
    (fields.map Field.name).map (getValueForMap (storeFields fields [])) =
      fields.map Field.value := by
  rw [List.map_map]
  apply List.map_congr_left
  intro field member
  exact getValueForMap_field readable once member []

/-- Fields with plain keys and plain values come back. -/
theorem readable_of_plain {fields : List Field} {keys : List Bytes}
    (names : fields.map Field.name = keys) (keysPlain : ∀ key ∈ keys, Plain key ∧ equals ∉ key)
    (values : ∀ text ∈ fields.map Field.value, Plain text)
    (noLink : ∀ field ∈ fields, field.quoted = false → comma ∉ field.value) :
    ∀ field ∈ fields, field.Readable := by
  intro field member
  have name := List.mem_map_of_mem (f := Field.name) member
  rw [names] at name
  exact .of_plain (keysPlain _ name).1 (keysPlain _ name).2
    (values _ (List.mem_map_of_mem member)) (noLink field member)

/-- Fields with a comma behind each. -/
theorem splitKy_terminated {fields : List Field} (printable : ∀ field ∈ fields, field.Printable) :
    splitKy (fields.flatMap fun field => field.text ++ [comma]) = storeFields fields [] := by
  rw [splitKy, foldl_fields printable []]
  exact if_pos rfl

/-- Fields with a comma behind each but the last. -/
theorem splitKy_separated {fields : List Field} {last : Field}
    (printable : ∀ field ∈ fields ++ [last], field.Printable) (some_ : last.name ≠ []) :
    splitKy ((fields.flatMap fun field => field.text ++ [comma]) ++ last.text) =
      storeFields (fields ++ [last]) [] := by
  have front : ∀ field ∈ fields, field.Printable :=
    fun field member => printable field (List.mem_append_left _ member)
  have end_ : last.Printable :=
    printable last (List.mem_append_right _ (List.mem_singleton_self last))
  rw [splitKy, List.foldl_append, foldl_fields front [], foldl_field end_, storeFields,
    List.foldl_append]
  exact if_neg some_

end Hnw.Http
