import Hnw.Verif.RangeHeader

/-!
# What a byte range means

A range `bytes=a-b` names the bytes from `a` to `b` or to the end of the file, `bytes=a-` those from
`a` on, and `bytes=-n` the last `n`. `get_range` reads the numbers as endpoints of an `HttpRange`,
and `init` takes them for positions of the file: the second number is never cut to the file, and a
length in front of its end is taken for an end.
-/

namespace Hnw.Http

open Hnw.Util Hnw.Util.UnorderedMultimap Hnw.Theory

/-! ## Byte ranges -/

/-- A number of a byte range: digits of a 64-bit value. -/
structure Numeral where
  /-- The digits. -/
  text : Bytes
  /-- There is a digit. -/
  some_ : text ≠ []
  /-- Nothing else is there. -/
  digits : ∀ byte ∈ text, isDigit byte = true
  /-- The value has 64 bits. -/
  small : digitsValue text < 2 ^ 64

/-- The number. -/
def Numeral.value (number : Numeral) : Nat := digitsValue number.text

/-- A word as it is printed. -/
def Numeral.ofWord (word : UInt64) : Numeral where
  text := decimal word.toNat
  some_ := decimal_ne_nil _
  digits := decimal_digits _
  small := by
    rw [digitsValue_decimal]
    exact word.toNat_lt

/-- The single byte range of a request. -/
inductive RangeSpec where
  /-- `a-b`. -/
  | closed (first last : Numeral)
  /-- `a-`. -/
  | upward (first : Numeral)
  /-- `-n`. -/
  | suffix (length : Numeral)

namespace RangeSpec

/-- What stands in front of the hyphen. -/
def front : RangeSpec → Bytes
  | closed first _ => first.text
  | upward first => first.text
  | suffix _ => []

/-- What stands behind the hyphen. -/
def rest : RangeSpec → Bytes
  | closed _ last => last.text
  | upward _ => []
  | suffix length => length.text

/-- What stands behind `bytes=`. -/
def text (spec : RangeSpec) : Bytes := spec.front ++ hyphen :: spec.rest

/-- A byte range that a file of this size has bytes of. -/
def Satisfiable (size : Nat) : RangeSpec → Prop
  | closed first last => first.value ≤ last.value ∧ first.value < size
  | upward first => first.value < size
  | suffix length => 1 ≤ length.value

/-- The position of the first byte that is meant. -/
def first (size : Nat) : RangeSpec → Nat
  | closed first _ => first.value
  | upward first => first.value
  | suffix length => size - min length.value size

/-- The position of the last byte that is meant. -/
def last (size : Nat) : RangeSpec → Nat
  | closed _ last => min last.value (size - 1)
  | upward _ => size - 1
  | suffix _ => size - 1

/-- The bytes of a file that are meant. -/
def selects (bytes : Bytes) (spec : RangeSpec) : Bytes :=
  bytes.extract (spec.first bytes.length) (spec.last bytes.length + 1)

/-- The positions are written down and lie inside a file of this size, and the first number is not
so long that `split` throws behind it. -/
def Positions (size : Nat) : RangeSpec → Prop
  | closed first last => first.text.length + 1 < 2 ^ 31 ∧ last.value < size
  | upward first => first.text.length + 1 < 2 ^ 31
  | suffix _ => False

/-- The range that `get_range` makes of a range. -/
def read (range : HttpRange) : RangeSpec → HttpRange
  | closed first last => { range with
      useStartEndpoint := false
      start := UInt64.ofNat first.value
      useEndEndpoint := false
      stop := UInt64.ofNat last.value }
  | upward first => { range with
      useStartEndpoint := false
      start := UInt64.ofNat first.value
      useEndEndpoint := true }
  | suffix length => { range with
      useStartEndpoint := true
      useEndEndpoint := false
      stop := UInt64.ofNat length.value }

end RangeSpec

/-! ## What `get_range` makes of them -/

/-- A separator is no part of a number. -/
theorem Numeral.free (number : Numeral) {byte : UInt8} (other : isDigit byte = false) :
    byte ∉ number.text :=
  not_mem_digits number.digits other

/-- `stoull` reads the number. -/
theorem Numeral.stoull_text (number : Numeral) :
    stoull number.text = some (UInt64.ofNat number.value) :=
  stoull_digits number.digits number.some_ number.small

/-- A number is a word. -/
theorem Numeral.toNat_value (number : Numeral) :
    (UInt64.ofNat number.value).toNat = number.value := by
  rw [UInt64.toNat_ofNat']
  exact Nat.mod_eq_of_lt number.small

/-- Nothing in front of the hyphen and a number behind it are read as a range from the beginning. -/
theorem readEndpoints_suffix (range : HttpRange) {second : Bytes} {stop : UInt64}
    (some_ : second ≠ []) (read : stoull second = some stop) :
    readEndpoints range [[], second] = some
      { range with useStartEndpoint := true, useEndEndpoint := false, stop } := by
  have long : ¬ second.length = 0 := mt List.length_eq_zero_iff.mp some_
  rw [readEndpoints]
  simp only [List.headD_cons, List.length_nil, if_true, if_neg long, read]
  rfl

namespace RangeSpec

/-- A separator stands neither in front of the hyphen nor behind it. -/
theorem parts_free (spec : RangeSpec) {byte : UInt8} (other : isDigit byte = false) :
    byte ∉ spec.front ∧ byte ∉ spec.rest := by
  cases spec with
  | closed first last => exact ⟨first.free other, last.free other⟩
  | upward first => exact ⟨first.free other, List.not_mem_nil⟩
  | suffix length => exact ⟨List.not_mem_nil, length.free other⟩

/-- The endpoint texts of a byte range are read. -/
theorem readEndpoints_parts (spec : RangeSpec) (range : HttpRange) :
    readEndpoints range [spec.front, spec.rest] = some (spec.read range) := by
  cases spec with
  | closed first last =>
    exact readEndpoints_numbers range first.some_ first.stoull_text last.some_ last.stoull_text
  | upward first => exact readEndpoints_open range first.some_ first.stoull_text
  | suffix length => exact readEndpoints_suffix range length.some_ length.stoull_text

/-- Where the section that a byte range is read as begins. -/
def sectionFirst : RangeSpec → Nat
  | closed first _ => first.value
  | upward first => first.value
  | suffix _ => 0

/-- Where it ends in a file of this size. -/
def sectionLast (size : Nat) : RangeSpec → Nat
  | closed _ last => last.value
  | upward _ => size - 1
  | suffix length => length.value

/-- The section begins at the first number. -/
theorem firstPos_read (spec : RangeSpec) (range : HttpRange) :
    FileBody.firstPos (spec.read range) = spec.sectionFirst := by
  cases spec with
  | closed first last => exact first.toNat_value
  | upward first => exact first.toNat_value
  | suffix length => rfl

/-- The section ends at the second number, or with the file. -/
theorem servedLast_read (spec : RangeSpec) (size : Nat) (range : HttpRange) :
    servedLast size (spec.read range) = spec.sectionLast size := by
  cases spec with
  | closed first last => exact last.toNat_value
  | upward first => rfl
  | suffix length => exact length.toNat_value

end RangeSpec

variable {σ : Type} [UnorderedMultimap σ] {head : σ} {spec : RangeSpec}

/-- `get_range` reads a byte range, unless its first number is so long that `split` throws. -/
theorem getRange_spec (text : getHead head httpRange [] = httpRangeByte ++ equals :: spec.text)
    (before : HttpRange) :
    getRange head before =
      if spec.front.length + 1 < 2 ^ 31 then some (some (spec.read before)) else none := by
  have free : ∀ byte, isDigit byte = false → byte ≠ hyphen → byte ∉ spec.text :=
    fun byte other differs =>
      not_mem_around (spec.parts_free other).1 differs (spec.parts_free other).2
  have noHyphen := spec.parts_free (by decide : isDigit hyphen = false)
  rw [getRange_bytes text (free equals (by decide) (by decide))
    (free semicolon (by decide) (by decide)), RangeSpec.text,
    split_endpoints noHyphen.1 noHyphen.2]
  split
  · rw [Option.map_some, spec.readEndpoints_parts]
  · rfl

/-! ## What is served -/

/-- Opening a file for a range succeeds with a body that is read as these bytes just where the range
lies inside the file and the bytes are those of its section. -/
theorem init_reads_iff (platform : Platform) {fs : FileSystem} {path : Bytes} {file : File}
    (present : fs path = some file) (range : HttpRange) (bytes : Bytes) :
    (∃ body left, FileBody.init platform fs path range flagOpen = (some body, left) ∧
        (Body.file body).ReadsExactly left bytes) ↔
      (FileBody.firstPos range ≤ servedLast file.bytes.length range ∧
        servedLast file.bytes.length range < file.bytes.length) ∧
      bytes = file.bytes.extract (FileBody.firstPos range)
        (servedLast file.bytes.length range + 1) := by
  have inside := @FileBody.initSection_isSome_iff path _ flagOpen file.small range
  rw [FileBody.init_open platform present, ← inside]
  constructor
  · rintro ⟨body, left, opened, reads⟩
    obtain ⟨made, same⟩ := Prod.mk.inj opened
    rw [← same] at reads
    rw [made]
    exact ⟨rfl, reads.unique (FileBody.initSection_reads present made)⟩
  · rintro ⟨opens, rfl⟩
    obtain ⟨body, made⟩ := Option.isSome_iff_exists.mp opens
    exact ⟨body, fs, by rw [made], FileBody.initSection_reads present made⟩

/-- `get_range` returns true on the head, and a body that is opened for the range it leaves is read
as the bytes that are meant. -/
def ServesSpec (platform : Platform) (fs : FileSystem) (path : Bytes) (file : File) (head : σ)
    (spec : RangeSpec) (before : HttpRange) : Prop :=
  ∃ range body left, getRange head before = some (some range) ∧
    FileBody.init platform fs path range flagOpen = (some body, left) ∧
    (Body.file body).ReadsExactly left (spec.selects file.bytes)

/-- A byte range is served just where its first number can be read, the section that it is read as
lies inside the file, and the bytes of the section are those that are meant. -/
theorem servesSpec_section_iff (platform : Platform) {fs : FileSystem} {path : Bytes} {file : File}
    (present : fs path = some file)
    (text : getHead head httpRange [] = httpRangeByte ++ equals :: spec.text)
    (before : HttpRange) :
    ServesSpec platform fs path file head spec before ↔
      spec.front.length + 1 < 2 ^ 31 ∧
        (spec.sectionFirst ≤ spec.sectionLast file.bytes.length ∧
          spec.sectionLast file.bytes.length < file.bytes.length) ∧
        spec.selects file.bytes = file.bytes.extract spec.sectionFirst
          (spec.sectionLast file.bytes.length + 1) := by
  have opens := init_reads_iff platform present (spec.read before) (spec.selects file.bytes)
  rw [spec.firstPos_read, spec.servedLast_read] at opens
  rw [ServesSpec, getRange_spec text before, ← opens]
  constructor
  · rintro ⟨range, body, left, read, opened⟩
    split at read
    · cases read
      exact ⟨‹_›, body, left, opened⟩
    · cases read
  · rintro ⟨short, body, left, opened⟩
    exact ⟨_, body, left, if_pos short, opened⟩

/-- A length in front of the end is read as an end, which is never what is meant. -/
theorem suffix_differs (bytes : Bytes) (length : Numeral) (some_ : 1 ≤ length.value)
    (inside : length.value < bytes.length) :
    (RangeSpec.suffix length).selects bytes ≠ bytes.extract 0 (length.value + 1) := by
  intro same
  have sizes := congrArg List.length same
  simp only [RangeSpec.selects, RangeSpec.first, RangeSpec.last, List.extract_eq_take_drop,
    List.length_take, List.length_drop] at sizes
  omega

/-- A byte range of a file is served just where it is written in positions of the file, and its
first number is not so long that `split` throws. -/
theorem servesSpec_iff (platform : Platform) {fs : FileSystem} {path : Bytes} {file : File}
    (present : fs path = some file) {spec : RangeSpec}
    (text : getHead head httpRange [] = httpRangeByte ++ equals :: spec.text)
    (satisfiable : spec.Satisfiable file.bytes.length) (before : HttpRange) :
    ServesSpec platform fs path file head spec before ↔ spec.Positions file.bytes.length := by
  rw [servesSpec_section_iff platform present text]
  cases spec with
  | closed first last =>
    obtain ⟨ordered, below⟩ := satisfiable
    constructor
    · rintro ⟨short, ⟨_, inside⟩, _⟩
      exact ⟨short, inside⟩
    · rintro ⟨short, inside⟩
      refine ⟨short, ⟨ordered, inside⟩, ?_⟩
      have whole : min last.value (file.bytes.length - 1) = last.value := by omega
      rw [RangeSpec.selects, RangeSpec.last, whole]
      rfl
  | upward first =>
    have below : first.value < file.bytes.length := satisfiable
    constructor
    · rintro ⟨short, _⟩
      exact short
    · intro short
      exact ⟨short, ⟨Nat.le_sub_one_of_lt below, Nat.sub_one_lt_of_lt below⟩, rfl⟩
  | suffix length =>
    constructor
    · rintro ⟨_, ⟨_, inside⟩, same⟩
      exact suffix_differs file.bytes length satisfiable inside same
    · exact False.elim

/-- The two bytes in the middle of a file of four are served. -/
theorem servesSpec_middle :
    ServesSpec linux (oneFile (ascii "f") Parser.fourBytes) (ascii "f") Parser.fourBytes
      (addHead UnorderedMultimap.empty httpRange (ascii "bytes=1-2") : ListMultimap)
      (.closed (.ofWord 1) (.ofWord 2)) {} := by
  have present : oneFile (ascii "f") Parser.fourBytes (ascii "f") = some Parser.fourBytes := rfl
  have satisfiable : (RangeSpec.closed (.ofWord 1) (.ofWord 2)).Satisfiable
      Parser.fourBytes.bytes.length := ⟨by decide, by decide⟩
  have positions : (RangeSpec.closed (.ofWord 1) (.ofWord 2)).Positions
      Parser.fourBytes.bytes.length := ⟨by decide, by decide⟩
  exact (servesSpec_iff linux present (by decide) satisfiable {}).mpr positions

/-- Of a file of four bytes neither the last two are served nor those from the second on where the
range names an end behind the file. -/
theorem lastTwo_not_servesSpec :
    ¬ ServesSpec linux (oneFile (ascii "f") Parser.fourBytes) (ascii "f") Parser.fourBytes
        (addHead UnorderedMultimap.empty httpRange (ascii "bytes=-2") : ListMultimap)
        (.suffix (.ofWord 2)) {} ∧
      ¬ ServesSpec linux (oneFile (ascii "f") Parser.fourBytes) (ascii "f") Parser.fourBytes
        (addHead UnorderedMultimap.empty httpRange (ascii "bytes=1-9") : ListMultimap)
        (.closed (.ofWord 1) (.ofWord 9)) {} := by
  constructor
  · intro serves
    have opened := (servesSpec_section_iff linux rfl (by decide) {}).mp serves
    exact suffix_differs _ (.ofWord 2) (by decide) opened.2.1.2 opened.2.2
  · intro serves
    have opened := (servesSpec_section_iff linux rfl (by decide) {}).mp serves
    have outside : ¬ (Numeral.ofWord 9).value < Parser.fourBytes.bytes.length := by decide
    exact outside opened.2.1.2

end Hnw.Http
