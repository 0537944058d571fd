import Hnw.Util.Bytes

/-!
# Byte ranges

`HttpRange` of the public header and the flags a file is opened with. An endpoint that is "used"
stands for the beginning or the end of the whole resource.
-/

namespace Hnw.Http

/-- `HttpRange`. -/
structure HttpRange where
  /-- `use_start_endpoint`. -/
  useStartEndpoint : Bool := true
  /-- `use_end_endpoint`. -/
  useEndEndpoint : Bool := true
  /-- `start`. -/
  start : UInt64 := 0
  /-- `end`. -/
  stop : UInt64 := 0
  /-- `total`. -/
  total : UInt64 := 0
deriving DecidableEq, Repr

namespace HttpRange

/-- `section_start`. -/
def sectionStart (range : HttpRange) : UInt64 :=
  if range.useStartEndpoint then 0 else range.start

/-- `section_end`. -/
def sectionEnd (range : HttpRange) : UInt64 :=
  if range.useEndEndpoint then range.total - 1 else range.stop

/-- `section_size`. -/
def sectionSize (range : HttpRange) : UInt64 :=
  if range.total = 0 ∧ range.useEndEndpoint then 0
  else
    (if range.useEndEndpoint then range.total - 1 else range.stop) -
      (if range.useStartEndpoint then 0 else range.start) + 1

/-- The size of a section that lies inside the resource is the number of its bytes. -/
theorem sectionSize_exact {range : HttpRange}
    (ordered : range.sectionStart ≤ range.sectionEnd) (inside : range.sectionEnd < range.total) :
    range.sectionSize.toNat = range.sectionEnd.toNat - range.sectionStart.toNat + 1 := by
  have size : range.sectionSize = range.sectionEnd - range.sectionStart + 1 := by
    have positive : range.total ≠ 0 := by
      rintro zero
      rw [zero] at inside
      exact absurd inside (by simp)
    simp [sectionSize, positive, sectionEnd, sectionStart]
  have bound := range.total.toNat_lt
  rw [UInt64.le_iff_toNat_le] at ordered
  rw [UInt64.lt_iff_toNat_lt] at inside
  rw [size, UInt64.toNat_add, UInt64.toNat_sub_of_le _ _ (UInt64.le_iff_toNat_le.mpr ordered)]
  exact Nat.mod_eq_of_lt (by simp only [UInt64.toNat_one]; omega)

end HttpRange

/-- The flags of `hnw_http.h`, bits of an `int`. -/
abbrev FileFlag := BitVec 32

/-- `HTTP_FILE_FLAG_OPEN`. -/
def flagOpen : FileFlag := 0x00

/-- `HTTP_FILE_FLAG_CREATE`. -/
def flagCreate : FileFlag := 0x01

/-- `HTTP_FILE_FLAG_DELETE`. -/
def flagDelete : FileFlag := 0x04

/-- `HTTP_FILE_FLAG_CREATE_NEW`. -/
def flagCreateNew : FileFlag := 0x08

/-- `HTTP_FILE_FLAG_WRITE`. -/
def flagWrite : FileFlag := 0x10

/-- `flag & bit`, as a condition. -/
def FileFlag.has (flag bit : FileFlag) : Bool := flag &&& bit != 0

end Hnw.Http
