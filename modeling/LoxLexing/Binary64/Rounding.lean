import LoxLexing.Binary64.Basic

/-!
# The nearest binary64 value to a fraction

`Binary64.nearest n d` is the value nearest to n / d, and of two equally near ones the one with an even
significand. The fraction is first expressed in units of 2⁻¹⁰⁷⁴. A magnitude that needs more than the
fifty-three bits of a significand is measured in a coarser unit, doubled `shift` times, and the rounded
count of coarse units goes into the fraction field on top of `shift` steps of the exponent field. A count
that rounds up to fifty-four bits carries into the exponent field, as it should; and whatever would pass
the last finite pattern is infinity.
-/

namespace LoxLexing.Binary64

/-- The integer nearest to n / d; of two equally near integers the even one. -/
def roundHalfEven (n d : Nat) : Nat :=
  let quotient := n / d
  let remainder := n % d
  if 2 * remainder > d ∨ (2 * remainder = d ∧ quotient % 2 = 1) then quotient + 1 else quotient

/-- The value nearest to n / d, ties going to the even significand and too large fractions to infinity. -/
def nearest (n d : Nat) : Binary64 :=
  let fine := n * Nat.pow 2 1074
  let shift := Nat.log2 (fine / d) - 52
  let rounded := roundHalfEven fine (d * Nat.pow 2 shift)
  ⟨UInt64.ofNat (min (shift * Nat.pow 2 52 + rounded) infinityBits)⟩

end LoxLexing.Binary64
