import LoxLexing.Binary64.Rounding

/-!
# Numerals

A numeral is a run of decimal digits, or two runs with a point between them. It denotes the fraction
`numerator / denominator`, and its value is the binary64 value nearest to that fraction; so a numeral of
any length is rounded once.
-/

namespace LoxLexing

/-- A number literal as it is written. -/
structure Numeral where
  whole : List Char
  /-- The digits behind the point, if there is one. -/
  fraction : Option (List Char)
deriving DecidableEq, Repr

namespace Numeral

/-- The characters of a numeral. -/
def text (numeral : Numeral) : List Char :=
  match numeral.fraction with
  | none => numeral.whole
  | some digits => numeral.whole ++ '.' :: digits

/-- All digits of a numeral, read as one number. -/
def numerator (numeral : Numeral) : Nat :=
  Nat.ofDigitChars 10 (numeral.whole ++ numeral.fraction.getD []) 0

/-- The power of ten that the digits behind the point divide by. -/
def denominator (numeral : Numeral) : Nat :=
  Nat.pow 10 (numeral.fraction.getD []).length

/-- The value that a numeral denotes. -/
def value (numeral : Numeral) : Binary64 :=
  Binary64.nearest numeral.numerator numeral.denominator

end Numeral

end LoxLexing
