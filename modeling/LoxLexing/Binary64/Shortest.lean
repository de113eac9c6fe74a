import LoxLexing.Binary64.Basic

/-!
# The shortest decimal text of a binary64 value

A value is written with the fewest decimal digits that still read back as that value, and among those
texts with the one nearest to it. Which reals read back as a value is decided by rounding to nearest:
all of the open interval between the midpoints to its two neighbours, and the midpoints too when its
significand is even.

All quantities are counted in **grains** of 10⁻¹⁰⁷⁶. Every finite value, and every midpoint between two
neighbours, is a whole number of grains, so the interval is one of natural numbers. A decimal with its
last digit at 10ʲ grains is a multiple of 10ʲ, and the nearest multiples to the value are the two around
it; hence the coarsest j at which one of those two lies in the interval gives the fewest digits.

The text itself is positional throughout: no exponent, and no fraction when the value is whole.
-/

namespace LoxLexing.Binary64

/-- How many decimal places a grain stands for. -/
def grainPlaces : Nat := 1076

/-! ## The interval that reads back -/

/-- The number of grains in a quarter of the distance to the next greater magnitude. -/
def quarterGap (x : Binary64) : Nat :=
  Nat.pow 2 x.scale * Nat.pow 5 grainPlaces

/-- The magnitude of a finite value in grains. -/
def grains (x : Binary64) : Nat :=
  4 * x.significand * x.quarterGap

/-- Whether the neighbour below is nearer than the one above: so it is under a power of two that is not
the least normal value. -/
def narrowBelow (x : Binary64) : Bool :=
  x.fractionField == 0 && decide (x.exponentField > 1)

/-- One if the midpoints to the neighbours do not read back, for the significand is odd. -/
def inset (x : Binary64) : Nat :=
  x.significand % 2

/-- The least number of grains that reads back as a value other than zero. -/
def lowest (x : Binary64) : Nat :=
  x.grains - (if x.narrowBelow then 1 else 2) * x.quarterGap + x.inset

/-- The greatest number of grains that reads back as a value other than zero. -/
def highest (x : Binary64) : Nat :=
  x.grains + 2 * x.quarterGap - x.inset

/-! ## The coarsest decimal in the interval -/

/-- A whole number of digits, the last of which counts for `10 ^ place` grains. -/
structure Digits where
  number : Nat
  /-- The power of ten of the last digit, in grains. -/
  place : Nat
deriving DecidableEq, Repr

/-- Looks for the coarsest place, from `place` downwards, at which one of the two multiples around `value`
lies between `low` and `high`. If both do, the nearer wins, and of two equally near ones the upper. -/
def coarsest (low value high : Nat) : Nat → Digits
  | 0 => ⟨value, 0⟩
  | place + 1 =>
    let unit := Nat.pow 10 (place + 1)
    let below := value / unit
    let lowerFits := decide (low ≤ below * unit)
    let upperFits := decide ((below + 1) * unit ≤ high)
    if lowerFits && (!upperFits || decide (2 * (value % unit) < unit)) then ⟨below, place + 1⟩
    else if upperFits then ⟨below + 1, place + 1⟩
    else coarsest low value high place

/-- The shortest digits of a finite value other than zero. The search starts at a place whose unit is
above the whole interval: there are at least three binary digits to a decimal one. -/
def shortest (x : Binary64) : Digits :=
  coarsest x.lowest x.grains x.highest (Nat.log2 x.highest / 3 + 1)

/-! ## Positional text -/

/-- The decimal digits of a number, with zeros in front up to a width. -/
def paddedDigits (width n : Nat) : List Char :=
  (Nat.toDigits 10 n).leftpad width '0'

/-- Digits as positional decimal text. -/
def Digits.text (digits : Digits) : List Char :=
  if grainPlaces ≤ digits.place then
    Nat.toDigits 10 (digits.number * Nat.pow 10 (digits.place - grainPlaces))
  else
    let places := grainPlaces - digits.place
    Nat.toDigits 10 (digits.number / Nat.pow 10 places)
      ++ '.' :: paddedDigits places (digits.number % Nat.pow 10 places)

/-- The text of a magnitude, without the sign. -/
def magnitudeText (x : Binary64) : List Char :=
  if x.isInfinite then ['i', 'n', 'f']
  else if x.isZero then ['0']
  else x.shortest.text

/-- The text of a value. A NaN has no sign; the other values show theirs, zero included. -/
def text (x : Binary64) : String :=
  if x.isNaN then "NaN"
  else String.ofList ((if x.isNegative then ['-'] else []) ++ x.magnitudeText)

end LoxLexing.Binary64
