/-!
# Doubles

A double is kept as the 64 bits that encode it (IEEE 754 binary64): the sign, eleven bits of
exponent field, 52 bits of fraction.  A field of `2047` is an infinity (fraction `0`) or no number;
every other double has the magnitude

  `significand * 2 ^ (max field 1) / 2 ^ bias`,

which `magnitude` gives as a numerator and a denominator.  The text forms of `Double.Fixed` and
`Double.Shortest` are computed from these two naturals, without rounding on the way.
-/

namespace ScriptLexer

/-- a binary64 number, as the bits that encode it -/
structure Double where
  bits : UInt64
deriving DecidableEq, Repr

namespace Double

/-! ## from decimal and binary integers -/

/-- the double nearest to `digits / 10 ^ places`, an even significand at a tie -/
def ofDecimal (digits places : Nat) : Double := ⟨(Float.ofScientific digits true places).toBits⟩

/-- the double nearest to a 64-bit integer, an even significand at a tie -/
def ofUInt64 (n : UInt64) : Double := ⟨n.toFloat.toBits⟩

/-! ## the parts of the encoding -/

/-- the sign bit -/
def isNegative (d : Double) : Bool := d.bits.toNat / Nat.pow 2 63 % 2 == 1

/-- the exponent field -/
def field (d : Double) : Nat := d.bits.toNat / Nat.pow 2 52 % Nat.pow 2 11

/-- the fraction bits -/
def fraction (d : Double) : Nat := d.bits.toNat % Nat.pow 2 52

def isNaN (d : Double) : Bool := d.field == 2047 && d.fraction != 0

def isInfinite (d : Double) : Bool := d.field == 2047 && d.fraction == 0

/-- the fraction with the leading one that a field above zero stands for -/
def significand (d : Double) : Nat :=
  if d.field = 0 then d.fraction else Nat.pow 2 52 + d.fraction

/-! ## the magnitude -/

/-- the exponent field of a double whose significand is its value -/
def bias : Nat := 1075

/-- `n * 2 ^ e / 2 ^ bias` as a numerator and a denominator -/
def scaled (n e : Nat) : Nat × Nat :=
  if bias ≤ e then (n * Nat.pow 2 (e - bias), 1) else (n, Nat.pow 2 (bias - e))

/-- the absolute value of a finite double as a numerator and a denominator -/
def magnitude (d : Double) : Nat × Nat := scaled d.significand (max d.field 1)

theorem scaled_den_pos (n e : Nat) : 0 < (scaled n e).2 := by
  unfold scaled
  split
  · exact Nat.one_pos
  · exact Nat.two_pow_pos _

/-- the ratio is the one it is meant to be -/
theorem scaled_eq (n e : Nat) :
    (scaled n e).1 * Nat.pow 2 bias = n * Nat.pow 2 e * (scaled n e).2 := by
  unfold scaled
  simp only [Nat.pow_eq]
  split
  · rename_i h
    rw [Nat.mul_assoc, ← Nat.pow_add, Nat.sub_add_cancel h, Nat.mul_one]
  · rename_i h
    rw [Nat.mul_assoc, ← Nat.pow_add, Nat.add_sub_cancel' (by omega)]

/-! ## signs and the values that are no numbers -/

/-- a text form: a finite double by its magnitude, the others by name, a sign where there is one -/
def withSign (finite : Nat × Nat → String) (d : Double) : String :=
  if d.isNaN then "NaN"
  else (if d.isNegative then "-" else "") ++ if d.isInfinite then "inf" else finite d.magnitude

end Double

end ScriptLexer
