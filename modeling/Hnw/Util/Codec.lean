import Hnw.Theory.Regroup
import Hnw.Util.Text

/-!
# Base64, MD5 and `trim`

The conversions of `http_util.hpp` that authentication goes through. The iterators of Boost that
`encode_base64` and `decode_base64` compose regroup bits; the digest behind `md5` is Boost's too,
and a parameter here.
-/

namespace Hnw.Util

open Hnw.Theory

/-- What `c_str()` shows of a string: the bytes before the first NUL. -/
def cStr (text : Bytes) : Bytes := text.takeWhile (· ≠ 0)

/-- `=`, which fills an encoded text up. -/
def padding : UInt8 := equals

/-- The letters of `base64_from_binary`. -/
def base64Letters : Bytes :=
  ascii "ABCDEFGHIJKLMNOPQRSTUVWXYZabcdefghijklmnopqrstuvwxyz0123456789+/"

/-- `base64_from_binary`, of a number of six bits. -/
def base64FromBinary (digit : Nat) : UInt8 := base64Letters.getD digit 0

/-- `binary_from_base64`; `none` where it throws. The padding stands for zero bits. -/
def binaryFromBase64 (letter : UInt8) : Option Nat :=
  if letter = padding then some 0 else base64Letters.idxOf? letter

/-- `encode_base64`. -/
def encodeBase64 (src : Bytes) : Bytes :=
  let equal_count := (3 - src.length % 3) % 3
  (regroupFilled 8 6 (src.map UInt8.toNat)).map base64FromBinary ++
    List.replicate equal_count padding

/-- The letters that `transform_width` reads: where the last one alone begins a byte, the missing
bits come from the NUL behind the text. -/
def lettersRead (src : Bytes) : Bytes := if src.length % 4 = 1 then src ++ [0] else src

/-- `decode_base64`. An exception is caught, and what was decoded is returned as a C string. -/
def decodeBase64 (src : Bytes) : Bytes :=
  match (lettersRead src).mapM binaryFromBase64 with
  | none => []
  | some digits => cStr ((regroupWhole 6 8 digits).map Nat.toUInt8)

/-- A digit of `%x`. -/
def hexDigit (digit : Nat) : UInt8 := (if digit < 10 then 48 + digit else 87 + digit).toUInt8

/-- The last hexadecimal digits of a number, as many as asked for. -/
def hexDigits : Nat → Nat → Bytes
  | 0, _ => []
  | count + 1, value => hexDigits count (value / 16) ++ [hexDigit (value % 16)]

/-- `md5`; four words of the digest are printed by `%08x`. -/
def md5 (get_digest : Bytes → Fin 4 → UInt32) (src : Bytes) : Bytes :=
  if src = [] then []
  else (List.finRange 4).flatMap fun word => hexDigits 8 (get_digest src word).toNat

/-- What an `int` makes of a `size_t`. -/
def intOfSize (size : Nat) : Int := Int.bmod size (2 ^ 32)

/-- `trim`. The last position is kept in an `int`, so no byte behind it is looked at. -/
def trim (src : Bytes) : Bytes :=
  if src = [] then []
  else
    let seen := src.take (intOfSize (src.length - 1) + 1).toNat
    ((seen.dropWhile (· = blank)).reverse.dropWhile (· = blank)).reverse

end Hnw.Util
