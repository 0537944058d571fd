import Mathlib.Data.List.Flatten
import Mathlib.Data.List.Induction
import Mathlib.Data.List.SplitLengths

/-!
# Regrouping of bits

Digits of one width are read as a stream of bits, the most significant first, and the stream is
cut into digits of another width. The last digit is filled with zero bits, or the bits that do not
fill a digit are dropped. Back in the first width, the digits come out as they went in, with zero
digits behind them.
-/

namespace Hnw.Theory

/-! ## A digit and its bits -/

/-- The bits of a digit, the most significant first. -/
def bitsOf : Nat → Nat → List Bool
  | 0, _ => []
  | width + 1, digit => bitsOf width (digit / 2) ++ [digit.testBit 0]

/-- The digit that bits spell, the most significant first. -/
def valueOf (bits : List Bool) : Nat := bits.foldl (fun value bit => 2 * value + bit.toNat) 0

/-- A digit has as many bits as it is wide. -/
@[simp]
theorem bitsOf_length (width digit : Nat) : (bitsOf width digit).length = width := by
  induction width generalizing digit with
  | zero => rfl
  | succ width ih => rw [bitsOf, List.length_append, ih, List.length_singleton]

/-- The last bit is the least significant. -/
theorem valueOf_concat (bits : List Bool) (bit : Bool) :
    valueOf (bits ++ [bit]) = 2 * valueOf bits + bit.toNat := by
  rw [valueOf, List.foldl_append, List.foldl_cons, List.foldl_nil, valueOf]

/-- The bits of a digit spell it. -/
theorem valueOf_bitsOf {width digit : Nat} (small : digit < 2 ^ width) :
    valueOf (bitsOf width digit) = digit := by
  induction width generalizing digit with
  | zero =>
    have zero : digit = 0 := by omega
    rw [zero, bitsOf, valueOf, List.foldl_nil]
  | succ width ih =>
    have half : digit / 2 < 2 ^ width := by omega
    have parity : (digit.testBit 0).toNat = digit % 2 := by
      rcases Nat.mod_two_eq_zero_or_one digit with even | odd
      · simp [Nat.testBit_zero, even]
      · simp [Nat.testBit_zero, odd]
    rw [bitsOf, valueOf_concat, ih half, parity]
    omega

/-- The digit that bits spell has these bits. -/
theorem bitsOf_valueOf (bits : List Bool) : bitsOf bits.length (valueOf bits) = bits := by
  induction bits using List.reverseRecOn with
  | nil => rfl
  | append_singleton bits bit ih =>
    have half : (2 * valueOf bits + bit.toNat) / 2 = valueOf bits := by
      cases bit <;> simp only [Bool.toNat_true, Bool.toNat_false] <;> omega
    have parity : (2 * valueOf bits + bit.toNat).testBit 0 = bit := by
      cases bit <;> simp [Nat.testBit_zero]
    rw [List.length_append, List.length_singleton, valueOf_concat, bitsOf, half, parity, ih]

/-- Bits spell a digit of their number. -/
theorem valueOf_lt (bits : List Bool) : valueOf bits < 2 ^ bits.length := by
  induction bits using List.reverseRecOn with
  | nil => decide
  | append_singleton bits bit ih =>
    have small : bit.toNat ≤ 1 := Bool.toNat_le bit
    rw [valueOf_concat, List.length_append, List.length_singleton, pow_succ]
    omega

/-- The bits of the digit zero are zero bits. -/
theorem bitsOf_zero (width : Nat) : bitsOf width 0 = List.replicate width false := by
  induction width with
  | zero => rfl
  | succ width ih => rw [bitsOf, Nat.zero_div, ih, Nat.zero_testBit, List.replicate_succ']

/-! ## Streams of digits -/

/-- A stream cut into a number of digits. -/
def digitsOf (width count : Nat) (bits : List Bool) : List Nat :=
  ((List.replicate count width).splitLengths bits).map valueOf

/-- A stream is cut into as many digits as asked for. -/
@[simp]
theorem digitsOf_length (width count : Nat) (bits : List Bool) :
    (digitsOf width count bits).length = count := by
  rw [digitsOf, List.length_map, List.length_splitLengths, List.length_replicate]

/-- The bits of a stream of digits. -/
@[simp]
theorem flatMap_bitsOf_length (width : Nat) (digits : List Nat) :
    (digits.flatMap (bitsOf width)).length = digits.length * width := by
  induction digits with
  | nil => rw [List.flatMap_nil, List.length_nil, List.length_nil, Nat.zero_mul]
  | cons digit digits ih =>
    rw [List.flatMap_cons, List.length_append, ih, bitsOf_length, List.length_cons, Nat.succ_mul,
      Nat.add_comm]

/-- Each digit of a stream that fills its digits fits its width. -/
theorem lt_of_mem_digitsOf {width count digit : Nat} {bits : List Bool}
    (member : digit ∈ digitsOf width count bits) : digit < 2 ^ width := by
  rw [digitsOf, List.mem_map] at member
  obtain ⟨chunk, inside, rfl⟩ := member
  have short : chunk.length ≤ width :=
    List.length_mem_splitLengths bits _ width
      (fun n copy => (List.eq_of_mem_replicate copy).le) chunk inside
  exact (valueOf_lt chunk).trans_le (Nat.pow_le_pow_right (by decide) short)

/-- The bits of the digits that a stream is cut into are the stream. -/
theorem flatMap_digitsOf {width count : Nat} {bits : List Bool}
    (fits : bits.length = count * width) :
    (digitsOf width count bits).flatMap (bitsOf width) = bits := by
  induction count generalizing bits with
  | zero =>
    have none_ : bits = [] := List.eq_nil_of_length_eq_zero (by omega)
    rw [none_]
    rfl
  | succ count ih =>
    rw [Nat.succ_mul] at fits
    have front : (bits.take width).length = width := by rw [List.length_take]; omega
    have rest : (bits.drop width).length = count * width := by rw [List.length_drop]; omega
    have back := bitsOf_valueOf (bits.take width)
    rw [front] at back
    have later := ih rest
    rw [digitsOf] at later
    rw [digitsOf, List.replicate_succ, List.splitLengths_cons, List.map_cons, List.flatMap_cons,
      back, later, List.take_append_drop]

/-- The digits that the bits of digits are cut into are these digits. -/
theorem digitsOf_flatMap {width : Nat} {digits : List Nat}
    (small : ∀ digit ∈ digits, digit < 2 ^ width) :
    digitsOf width digits.length (digits.flatMap (bitsOf width)) = digits := by
  induction digits with
  | nil => rfl
  | cons digit digits ih =>
    have later := ih fun other member => small other (List.mem_cons_of_mem digit member)
    rw [digitsOf] at later
    rw [digitsOf, List.length_cons, List.replicate_succ, List.flatMap_cons,
      List.splitLengths_cons, List.map_cons, List.take_left' (bitsOf_length width digit),
      List.drop_left' (bitsOf_length width digit), later,
      valueOf_bitsOf (small digit List.mem_cons_self)]

/-- The bits of zero digits are zero bits. -/
theorem flatMap_replicate_zero (width count : Nat) :
    (List.replicate count 0).flatMap (bitsOf width) = List.replicate (count * width) false := by
  induction count with
  | zero => rw [List.replicate_zero, List.flatMap_nil, Nat.zero_mul, List.replicate_zero]
  | succ count ih =>
    rw [List.replicate_succ, List.flatMap_cons, ih, bitsOf_zero, List.replicate_append_replicate,
      Nat.succ_mul, Nat.add_comm width]

/-! ## From one width to another -/

/-- How many digits of a width hold a number of bits. -/
def digitsFor (width bits : Nat) : Nat := (bits + width - 1) / width

/-- Digits in another width, the last one filled with zero bits. -/
def regroupFilled (inBits outBits : Nat) (digits : List Nat) : List Nat :=
  let bits := digits.flatMap (bitsOf inBits)
  let count := digitsFor outBits bits.length
  digitsOf outBits count (bits ++ List.replicate (count * outBits - bits.length) false)

/-- Digits in another width, without the bits that do not fill one. -/
def regroupWhole (inBits outBits : Nat) (digits : List Nat) : List Nat :=
  let bits := digits.flatMap (bitsOf inBits)
  digitsOf outBits (bits.length / outBits) bits

/-- There is room for the bits in the digits counted for them. -/
theorem le_digitsFor_mul {width : Nat} (bits : Nat) (wide : 0 < width) :
    bits ≤ digitsFor width bits * width := by
  have remainder := Nat.mod_lt (bits + width - 1) wide
  have split := Nat.div_add_mod (bits + width - 1) width
  rw [digitsFor, Nat.mul_comm]
  omega

/-- The bits of filled digits are those of the digits they were made of, and the filling. -/
theorem flatMap_regroupFilled {outBits : Nat} (inBits : Nat) (digits : List Nat)
    (wide : 0 < outBits) :
    (regroupFilled inBits outBits digits).flatMap (bitsOf outBits) =
      digits.flatMap (bitsOf inBits) ++
        List.replicate (digitsFor outBits (digits.length * inBits) * outBits -
          digits.length * inBits) false := by
  have room := le_digitsFor_mul (digits.length * inBits) wide
  have fits : (digits.flatMap (bitsOf inBits) ++
      List.replicate (digitsFor outBits (digits.length * inBits) * outBits -
        digits.length * inBits) false).length =
      digitsFor outBits (digits.length * inBits) * outBits := by
    rw [List.length_append, flatMap_bitsOf_length, List.length_replicate]
    omega
  rw [regroupFilled, flatMap_bitsOf_length]
  exact flatMap_digitsOf fits

/-- Back in the first width, with zero digits behind that make the filling whole, the digits come
out with zero digits behind them. -/
theorem regroupWhole_regroupFilled {inBits outBits : Nat} {digits : List Nat} (pad zeros : Nat)
    (wide : 0 < outBits) (some_ : 0 < inBits) (small : ∀ digit ∈ digits, digit < 2 ^ inBits)
    (whole : digitsFor outBits (digits.length * inBits) * outBits + pad * outBits =
      (digits.length + zeros) * inBits) :
    regroupWhole outBits inBits (regroupFilled inBits outBits digits ++ List.replicate pad 0) =
      digits ++ List.replicate zeros 0 := by
  have room := le_digitsFor_mul (digits.length * inBits) wide
  have filling : digitsFor outBits (digits.length * inBits) * outBits - digits.length * inBits +
      pad * outBits = zeros * inBits := by
    rw [Nat.add_mul] at whole
    omega
  have bits : (regroupFilled inBits outBits digits ++ List.replicate pad 0).flatMap
      (bitsOf outBits) = (digits ++ List.replicate zeros 0).flatMap (bitsOf inBits) := by
    rw [List.flatMap_append, List.flatMap_append, flatMap_regroupFilled inBits digits wide,
      flatMap_replicate_zero, flatMap_replicate_zero, List.append_assoc,
      List.replicate_append_replicate, filling]
  have all : ∀ digit ∈ digits ++ List.replicate zeros 0, digit < 2 ^ inBits := by
    intro digit member
    rcases List.mem_append.mp member with here | copy
    · exact small digit here
    · rw [List.eq_of_mem_replicate copy]
      exact Nat.two_pow_pos inBits
  have count : (digits ++ List.replicate zeros 0).length * inBits / inBits =
      (digits ++ List.replicate zeros 0).length := Nat.mul_div_cancel _ some_
  rw [regroupWhole, bits, flatMap_bitsOf_length, count]
  exact digitsOf_flatMap all

end Hnw.Theory
