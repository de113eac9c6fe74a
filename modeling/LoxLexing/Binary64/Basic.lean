/-!
# Binary64 values

A value of the 64-bit binary floating-point format is its bit pattern, so that two patterns of NaN stay
apart and nothing depends on the machine's arithmetic. A finite magnitude is an integer number of
**units** of 2⁻¹⁰⁷⁴, the least positive value: `significand * 2 ^ scale` of them. With units every
question about rounding is one about natural numbers.

Comparison by `==` is that of the format: a NaN differs from everything and the two zeros are equal.
It is not equality of patterns, which is `=`.
-/

namespace LoxLexing

/-- A 64-bit binary floating-point value, given by its bits. -/
structure Binary64 where
  /-- Sign, eleven bits of exponent, fifty-two bits of fraction, from the top. -/
  bits : UInt64
deriving DecidableEq, Repr, Inhabited

namespace Binary64

/-- The pattern of positive infinity, which stands above those of all finite magnitudes. -/
def infinityBits : Nat := 2047 * Nat.pow 2 52

/-- Positive infinity. -/
def infinity : Binary64 := ⟨UInt64.ofNat infinityBits⟩

/-! ## Fields -/

/-- Whether the sign bit is set. -/
def isNegative (x : Binary64) : Bool :=
  x.bits.toNat / Nat.pow 2 63 == 1

/-- The exponent field. -/
def exponentField (x : Binary64) : Nat :=
  x.bits.toNat / Nat.pow 2 52 % Nat.pow 2 11

/-- The fraction field. -/
def fractionField (x : Binary64) : Nat :=
  x.bits.toNat % Nat.pow 2 52

/-- Whether the value is not a number. -/
def isNaN (x : Binary64) : Bool :=
  x.exponentField == 2047 && x.fractionField != 0

/-- Whether the value is one of the two infinities. -/
def isInfinite (x : Binary64) : Bool :=
  x.exponentField == 2047 && x.fractionField == 0

/-- Whether the value is one of the two zeros. -/
def isZero (x : Binary64) : Bool :=
  x.exponentField == 0 && x.fractionField == 0

/-- The format's comparison: no NaN equals anything, and the sign of zero does not count. -/
instance : BEq Binary64 where
  beq left right :=
    !left.isNaN && !right.isNaN && (left.bits == right.bits || (left.isZero && right.isZero))

/-! ## Finite magnitudes -/

/-- The significand of a finite value: its fraction, under an implicit leading bit unless the exponent
field is zero. -/
def significand (x : Binary64) : Nat :=
  if x.exponentField = 0 then x.fractionField else Nat.pow 2 52 + x.fractionField

/-- How often the significand is doubled. The exponent fields zero and one share the least spacing. -/
def scale (x : Binary64) : Nat :=
  x.exponentField - 1

/-- The magnitude of a finite value, as a number of units of 2⁻¹⁰⁷⁴. -/
def units (x : Binary64) : Nat :=
  x.significand * Nat.pow 2 x.scale

end Binary64

end LoxLexing
