import Mathlib.Data.List.Basic
import Mathlib.Tactic.Ring

/-!
# Bytes

The program moves `char` arrays and `std::string`s; both are lists of bytes here. Text constants
of the source are ASCII.
-/

namespace Hnw

/-- A `std::string`, or what a `char*` and a length denote. -/
abbrev Bytes := List UInt8

/-- A text constant of the source. -/
def ascii (text : String) : Bytes := text.toList.map fun letter => letter.toNat.toUInt8

/-- `\r`. -/
def cr : UInt8 := 13

/-- `\n`. -/
def lf : UInt8 := 10

/-- `CRLF`. -/
def crlf : Bytes := [cr, lf]

/-- `BLANK_SPACE`. -/
def blank : UInt8 := 32

/-- `=`. -/
def equals : UInt8 := 61

/-- `,`. -/
def comma : UInt8 := 44

/-- `;`. -/
def semicolon : UInt8 := 59

/-- `&`. -/
def ampersand : UInt8 := 38

/-- `?`. -/
def questionMark : UInt8 := 63

/-- `#`. -/
def hashMark : UInt8 := 35

/-- `:`. -/
def colonByte : UInt8 := 58

/-- `/`. -/
def slash : UInt8 := 47

/-- `HEADSEQ`, the text between a header's name and its value. -/
def headSeq : Bytes := [colonByte, blank]

end Hnw
