import LoxLexing.Binary64.Rounding
import Mathlib.Algebra.Order.Field.Basic
import Mathlib.Algebra.Order.Field.Rat
import Mathlib.Tactic.FieldSimp
import Mathlib.Tactic.Linarith
import Mathlib.Tactic.Positivity
import Mathlib.Tactic.Ring

/-!
# Rounding is to nearest

`Binary64.nearest` computes a bit pattern from a fraction. Here it is said what a value nearest to a rational number
is, with no regard to how it is found (`Binary64.IsNearest`).

**The law** (`isNearest_nearest`): the pattern that is computed for a fraction is nearest to it among all finite
values, and has an even significand if another one is as near. It has no sign and is a number; and it is infinite
just if the fraction is at least 2¹⁰²⁴ − 2⁹⁷⁰, half a step above the greatest finite value.

Everything is counted in units of 2⁻¹⁰⁷⁴ and taken times the denominator, so that distances are distances of
integers (`abs_toRat_sub`). On the grid of coarse units that rounding uses the result is nearest by the law of
`roundHalfEven`. A finite value off this grid has a smaller exponent, and so lies below the first power of two in
front of the fraction, which is on the grid (`exists_onGrid`).
-/

namespace LoxLexing.Binary64

/-! ## The nearest value -/

/-- Whether a value is neither a NaN nor an infinity. -/
def IsFinite (x : Binary64) : Prop :=
  x.isNaN = false ∧ x.isInfinite = false

/-- The number of units of a finite value, with its sign. -/
def signedUnits (x : Binary64) : ℤ :=
  if x.isNegative then -x.units else x.units

/-- A unit is two to the power of minus this. -/
def unitPlaces : Nat := 1074

/-- The number that a finite value stands for. -/
def toRat (x : Binary64) : ℚ :=
  x.signedUnits / 2 ^ unitPlaces

/-- Whether a value is what a rational number that is not negative is rounded to: the nearest finite value, and of
two such values the one with an even significand, or infinity. -/
structure IsNearest (q : ℚ) (x : Binary64) : Prop where
  notNaN : x.isNaN = false
  /-- There is no sign, so this is no minus zero either. -/
  notNegative : x.isNegative = false
  /-- Infinity begins half a step above the greatest finite value. -/
  isInfinite_iff : x.isInfinite = true ↔ 2 ^ 1024 - 2 ^ 970 ≤ q
  nearest : x.IsFinite → ∀ y : Binary64, y.IsFinite → |x.toRat - q| ≤ |y.toRat - q|
  even : x.IsFinite → ∀ y : Binary64, y.IsFinite → y.toRat ≠ x.toRat →
    |x.toRat - q| = |y.toRat - q| → x.significand % 2 = 0

/-! ## Nearest integers -/

section

variable {n d k : Nat}

theorem le_roundHalfEven (positive : 0 < d) (le : k * d ≤ n) : k ≤ roundHalfEven n d := by
  have quotient : k ≤ n / d := (Nat.le_div_iff_mul_le positive).mpr le
  unfold roundHalfEven
  dsimp only
  split
  · omega
  · exact quotient

/-- What is rounded is a half away at most, and just a half only from an even integer. -/
theorem natAbs_roundHalfEven_sub (positive : 0 < d) :
    2 * (roundHalfEven n d * d - n : ℤ).natAbs ≤ d ∧
      (2 * (roundHalfEven n d * d - n : ℤ).natAbs = d → roundHalfEven n d % 2 = 0) := by
  have split := Nat.div_add_mod n d
  have small := Nat.mod_lt n positive
  unfold roundHalfEven
  dsimp only
  generalize n / d = quotient at *
  generalize n % d = remainder at *
  subst split
  split
  · rename_i up
    have above : ((quotient + 1 : Nat) * d - (d * quotient + remainder : Nat) : ℤ) = d - remainder := by
      push_cast
      ring
    rw [above]
    omega
  · rename_i down
    have below : ((quotient : Nat) * d - (d * quotient + remainder : Nat) : ℤ) = -remainder := by
      push_cast
      ring
    rw [below]
    omega

theorem roundHalfEven_le (positive : 0 < d) (le : n ≤ k * d) : roundHalfEven n d ≤ k := by
  obtain ⟨half, _⟩ := natAbs_roundHalfEven_sub (n := n) positive
  by_contra above
  have step : (k + 1) * d ≤ roundHalfEven n d * d := Nat.mul_le_mul_right d (by omega)
  rw [Nat.succ_mul] at step
  omega

/-- Another integer is a half away at least. -/
theorem le_natAbs_sub_of_ne (positive : 0 < d) {other : ℤ} (differs : other ≠ roundHalfEven n d) :
    d ≤ 2 * (other * d - n).natAbs := by
  obtain ⟨half, _⟩ := natAbs_roundHalfEven_sub (n := n) positive
  have apart : d ≤ (other * d - roundHalfEven n d * d : ℤ).natAbs := by
    rw [← sub_mul, Int.natAbs_mul, Int.natAbs_natCast]
    exact Nat.le_mul_of_pos_left d (Int.natAbs_pos.mpr (sub_ne_zero.mpr differs))
  omega

/-- No integer is nearer. -/
theorem natAbs_roundHalfEven_sub_le (positive : 0 < d) (other : ℤ) :
    (roundHalfEven n d * d - n : ℤ).natAbs ≤ (other * d - n).natAbs := by
  rcases eq_or_ne other (roundHalfEven n d) with rfl | differs
  · exact Nat.le_refl _
  · have half := (natAbs_roundHalfEven_sub (n := n) positive).1
    have away := le_natAbs_sub_of_ne positive differs
    omega

/-- If another integer is as near, the result is even. -/
theorem roundHalfEven_even (positive : 0 < d) {other : ℤ} (differs : other ≠ roundHalfEven n d)
    (tie : (roundHalfEven n d * d - n : ℤ).natAbs = (other * d - n).natAbs) : roundHalfEven n d % 2 = 0 := by
  obtain ⟨half, even⟩ := natAbs_roundHalfEven_sub (n := n) positive
  have away := le_natAbs_sub_of_ne positive differs
  exact even (by omega)

/-- A half above an odd integer is rounded up. -/
theorem lt_roundHalfEven_iff (positive : 0 < d) (odd : k % 2 = 1) :
    k < roundHalfEven n d ↔ (2 * k + 1) * d ≤ 2 * n := by
  obtain ⟨half, even⟩ := natAbs_roundHalfEven_sub (n := n) positive
  have expand : (2 * k + 1) * d = 2 * (k * d) + d := by ring
  rw [expand]
  constructor
  · intro above
    have step : (k + 1) * d ≤ roundHalfEven n d * d := Nat.mul_le_mul_right d above
    rw [Nat.succ_mul] at step
    omega
  · intro le
    by_contra below
    rcases Nat.lt_or_eq_of_le (Nat.le_of_not_lt below) with less | same
    · have step : (roundHalfEven n d + 1) * d ≤ k * d := Nat.mul_le_mul_right d less
      rw [Nat.succ_mul] at step
      omega
    · rw [same] at half even
      omega

end

/-! ## Fields of a pattern -/

section

theorem cast_pow_two (exponent : Nat) : ((Nat.pow 2 exponent : Nat) : ℤ) = 2 ^ exponent :=
  Nat.cast_pow 2 exponent

theorem pow_fraction : Nat.pow 2 52 = 4503599627370496 := rfl

theorem pow_exponent : Nat.pow 2 11 = 2048 := rfl

theorem pow_magnitude : Nat.pow 2 63 = 9223372036854775808 := rfl

variable {pattern shift count : Nat}

/-- The value of a pattern. -/
def ofPattern (pattern : Nat) : Binary64 :=
  ⟨UInt64.ofNat pattern⟩

theorem toNat_bits_ofPattern (fits : pattern ≤ infinityBits) : (ofPattern pattern).bits.toNat = pattern := by
  refine UInt64.toNat_ofNat_of_lt' (Nat.lt_of_le_of_lt fits ?_)
  decide

/-- Whether a count on top of some steps of the exponent field is the pattern of a finite value. -/
structure MakesFinite (shift count : Nat) : Prop where
  fits : count ≤ Nat.pow 2 53
  /-- With steps, the leading bit of the significand is implied. -/
  normal : shift = 0 ∨ Nat.pow 2 52 ≤ count
  finite : shift * Nat.pow 2 52 + count < infinityBits

/-- Such a pattern has no sign. Its significand is the count, and the steps its scale, unless the count takes
fifty-four bits and is halved. -/
theorem MakesFinite.fields (made : MakesFinite shift count) :
    let x := ofPattern (shift * Nat.pow 2 52 + count)
    x.isNegative = false ∧ x.exponentField < 2047 ∧
      ((x.significand = count ∧ x.scale = shift) ∨
        (count = Nat.pow 2 53 ∧ x.significand = Nat.pow 2 52 ∧ x.scale = shift + 1)) := by
  obtain ⟨fits, normal, finite⟩ := made
  intro x
  have bits : x.bits.toNat = shift * Nat.pow 2 52 + count := toNat_bits_ofPattern (Nat.le_of_lt finite)
  have double : Nat.pow 2 53 = 9007199254740992 := rfl
  simp only [isNegative, significand, scale, exponentField, fractionField, bits, infinityBits, pow_fraction,
    pow_exponent, pow_magnitude, double] at *
  refine ⟨?_, ?_, ?_⟩
  · rw [beq_eq_false_iff_ne]
    omega
  · omega
  · split
    · omega
    · omega

theorem exponentField_lt (x : Binary64) : x.exponentField < 2048 :=
  Nat.mod_lt _ (by decide)

theorem isFinite_iff {x : Binary64} : x.IsFinite ↔ x.exponentField < 2047 := by
  have bound := x.exponentField_lt
  simp only [IsFinite, isNaN, isInfinite, Bool.and_eq_false_iff, beq_eq_false_iff_ne, bne_eq_false_iff_eq]
  omega

theorem significand_lt (x : Binary64) : x.significand < Nat.pow 2 53 := by
  have fraction : x.fractionField < Nat.pow 2 52 := Nat.mod_lt _ (by decide)
  have double : Nat.pow 2 53 = 2 * Nat.pow 2 52 := rfl
  unfold significand
  split
  all_goals omega

/-- So the magnitude is the count, in units that are doubled as often as there are steps, and an even count makes
an even significand. -/
theorem MakesFinite.units (made : MakesFinite shift count) :
    let x := ofPattern (shift * Nat.pow 2 52 + count)
    x.signedUnits = count * 2 ^ shift ∧ (count % 2 = 0 → x.significand % 2 = 0) := by
  intro x
  obtain ⟨notNegative, _, fields⟩ := made.fields
  rw [signedUnits, notNegative, if_neg Bool.false_ne_true, Binary64.units]
  rcases fields with ⟨significand, scale⟩ | ⟨full, significand, scale⟩
  · rw [significand, scale]
    exact ⟨by push_cast [Nat.pow_eq]; rfl, id⟩
  · rw [significand, scale, full]
    refine ⟨?_, fun _ => rfl⟩
    push_cast [Nat.pow_eq]
    ring

/-- A finite value is on the grid of coarse units, or is less than the values with this exponent. -/
theorem exists_onGrid (y : Binary64) (shift : Nat) :
    (∃ k : ℤ, y.signedUnits = k * 2 ^ shift) ∨
      (shift ≠ 0 ∧ y.signedUnits < 2 ^ 52 * 2 ^ shift) := by
  rcases Nat.lt_or_ge y.scale shift with finer | coarser
  · refine .inr ⟨by omega, ?_⟩
    have units : y.units < 2 ^ 52 * 2 ^ shift :=
      calc y.units < 2 ^ 53 * 2 ^ y.scale := Nat.mul_lt_mul_of_pos_right y.significand_lt (Nat.two_pow_pos _)
        _ = 2 ^ 52 * 2 ^ (y.scale + 1) := by ring
        _ ≤ 2 ^ 52 * 2 ^ shift := Nat.mul_le_mul_left _ (Nat.pow_le_pow_right (by decide) finer)
    have units : (y.units : ℤ) < 2 ^ 52 * 2 ^ shift := by exact_mod_cast units
    unfold signedUnits
    split
    all_goals omega
  · obtain ⟨more, same⟩ := Nat.exists_eq_add_of_le coarser
    have units : (y.units : ℤ) = (y.significand * 2 ^ more : ℤ) * 2 ^ shift := by
      rw [Binary64.units, same]
      push_cast [Nat.pow_eq]
      ring
    unfold signedUnits
    split
    · exact .inl ⟨-(y.significand * 2 ^ more), by rw [units, neg_mul]⟩
    · exact .inl ⟨_, units⟩

end

/-! ## Distances -/

/-- A numerator in units, so that a fraction has it over its denominator. -/
def inUnits (n : Nat) : Nat :=
  n * Nat.pow 2 unitPlaces

/-- Distances from a fraction are those of integers. -/
theorem abs_toRat_sub (x : Binary64) (n : Nat) {d : Nat} (positive : 0 < d) :
    |x.toRat - n / d| = ((x.signedUnits * d - inUnits n : ℤ).natAbs : ℚ) / (d * 2 ^ unitPlaces) := by
  have unit : (0 : ℚ) < 2 ^ unitPlaces := by positivity
  have denominator : (0 : ℚ) < d := by exact_mod_cast positive
  have cross : x.toRat - n / d = (x.signedUnits * d - n * 2 ^ unitPlaces) / (d * 2 ^ unitPlaces) := by
    rw [toRat, div_sub_div _ _ unit.ne' denominator.ne', mul_comm (2 ^ unitPlaces : ℚ) d,
      mul_comm (2 ^ unitPlaces : ℚ) n]
  rw [cross, abs_div, abs_of_pos (mul_pos denominator unit), Nat.cast_natAbs, inUnits, Nat.cast_mul, cast_pow_two]
  push_cast
  rfl

/-! ## The steps of a fraction -/

section

variable {n d : Nat}

/-- How often the unit is doubled that a fraction is counted in. -/
def shiftOf (n d : Nat) : Nat :=
  Nat.log2 (inUnits n / d) - 52

/-- The rounded count of these units. -/
def countOf (n d : Nat) : Nat :=
  roundHalfEven (inUnits n) (d * Nat.pow 2 (shiftOf n d))

theorem nearest_eq (n d : Nat) :
    nearest n d = ofPattern (min (shiftOf n d * Nat.pow 2 52 + countOf n d) infinityBits) := by
  have units : 1074 = unitPlaces := rfl
  unfold nearest
  rw [units]
  rfl

theorem coarse_pos (positive : 0 < d) : 0 < d * Nat.pow 2 (shiftOf n d) :=
  Nat.mul_pos positive (Nat.two_pow_pos _)

theorem coarse_succ {a b : Nat} (d : Nat) (next : b = a + 1) : d * Nat.pow 2 b = 2 * (d * Nat.pow 2 a) := by
  rw [next, Nat.pow_eq, Nat.pow_eq, Nat.pow_succ]
  ring

theorem coarse_le {a b : Nat} (d : Nat) (le : a ≤ b) : d * Nat.pow 2 a ≤ d * Nat.pow 2 b :=
  Nat.mul_le_mul_left d (Nat.pow_le_pow_right (by decide) le)

/-- A count takes fifty-three bits. -/
theorem lt_shiftOf (positive : 0 < d) :
    inUnits n < Nat.pow 2 53 * (d * Nat.pow 2 (shiftOf n d)) := by
  unfold shiftOf
  generalize inUnits n = fine
  have bits : fine / d < Nat.pow 2 (53 + (Nat.log2 (fine / d) - 52)) :=
    Nat.lt_of_lt_of_le Nat.lt_log2_self (Nat.pow_le_pow_right (by decide) (by omega))
  have scaled := (Nat.div_lt_iff_lt_mul positive).mp bits
  rw [Nat.pow_eq, Nat.pow_add] at scaled
  calc fine < 2 ^ 53 * 2 ^ (Nat.log2 (fine / d) - 52) * d := scaled
    _ = 2 ^ 53 * (d * 2 ^ (Nat.log2 (fine / d) - 52)) := by ring

/-- All of them are needed if the unit is coarse. -/
theorem shiftOf_le (positive : 0 < d) (coarse : shiftOf n d ≠ 0) :
    Nat.pow 2 52 * (d * Nat.pow 2 (shiftOf n d)) ≤ inUnits n := by
  unfold shiftOf at *
  generalize inUnits n = fine at *
  have bits : 2 ^ Nat.log2 (fine / d) ≤ fine / d := by
    refine Nat.log2_self_le ?_
    intro zero
    rw [zero] at coarse
    exact coarse rfl
  have split : Nat.log2 (fine / d) = 52 + (Nat.log2 (fine / d) - 52) := by omega
  rw [split, Nat.pow_add] at bits
  calc 2 ^ 52 * (d * 2 ^ (Nat.log2 (fine / d) - 52))
      = 2 ^ 52 * 2 ^ (Nat.log2 (fine / d) - 52) * d := by ring
    _ ≤ fine := (Nat.le_div_iff_mul_le positive).mp bits

theorem countOf_le (positive : 0 < d) : countOf n d ≤ Nat.pow 2 53 :=
  roundHalfEven_le (coarse_pos positive) (Nat.le_of_lt (lt_shiftOf positive))

theorem shiftOf_eq_zero_or_le (positive : 0 < d) : shiftOf n d = 0 ∨ Nat.pow 2 52 ≤ countOf n d := by
  rcases Nat.eq_zero_or_pos (shiftOf n d) with fine | coarse
  · exact .inl fine
  · exact .inr (le_roundHalfEven (coarse_pos positive) (shiftOf_le positive (Nat.ne_of_gt coarse)))

/-- What is rounded passes the last finite pattern just if it is half a step above the greatest finite value at
least. The steps that end with this value have twice the unit of `2 ^ e`. -/
theorem infinityBits_le_iff (positive : 0 < d) {e : Nat} (half : e = 2044) :
    infinityBits ≤ shiftOf n d * Nat.pow 2 52 + countOf n d ↔
      (Nat.pow 2 54 - 1) * (d * Nat.pow 2 e) ≤ inUnits n := by
  have below := lt_shiftOf (n := n) positive
  have above := shiftOf_le (n := n) positive
  have count_le := countOf_le (n := n) positive
  have normal := shiftOf_eq_zero_or_le (n := n) positive
  have odd : (Nat.pow 2 53 - 1) % 2 = 1 := rfl
  have tie := lt_roundHalfEven_iff (n := inUnits n) (coarse_pos (n := n) positive) odd
  have literals : Nat.pow 2 53 = 9007199254740992 ∧ Nat.pow 2 54 = 18014398509481984 := ⟨rfl, rfl⟩
  have smaller : shiftOf n d ≤ e → d * Nat.pow 2 (shiftOf n d) ≤ d * Nat.pow 2 e := coarse_le d
  have next : shiftOf n d = e + 1 → d * Nat.pow 2 (shiftOf n d) = 2 * (d * Nat.pow 2 e) := coarse_succ d
  have larger : e + 2 ≤ shiftOf n d → d * Nat.pow 2 (e + 2) ≤ d * Nat.pow 2 (shiftOf n d) := coarse_le d
  rw [coarse_succ (a := e + 1) d rfl, coarse_succ (a := e) d rfl] at larger
  unfold countOf at *
  rw [infinityBits, pow_fraction, literals.2]
  rw [pow_fraction] at above normal
  rw [literals.1] at below count_le tie
  generalize roundHalfEven _ _ = count at *
  generalize inUnits n = fine at *
  generalize d * Nat.pow 2 e = last at *
  generalize d * Nat.pow 2 (shiftOf n d) = unit at *
  rcases Nat.lt_trichotomy (shiftOf n d) (e + 1) with small | same | large
  all_goals omega

/-- So it becomes infinity just if the fraction is at least this. -/
theorem infinityBits_le_iff_rat (positive : 0 < d) :
    infinityBits ≤ shiftOf n d * Nat.pow 2 52 + countOf n d ↔ (2 : ℚ) ^ 1024 - 2 ^ 970 ≤ n / d := by
  have denominator : (0 : ℚ) < d := by exact_mod_cast positive
  have unit : (0 : ℚ) < 2 ^ unitPlaces := by positivity
  have odd : Nat.pow 2 54 - 1 = 18014398509481983 := rfl
  have top : (2 : ℚ) ^ 1024 = 2 ^ 54 * 2 ^ 970 := pow_add 2 54 970
  have scaled : ((2 : ℚ) ^ 1024 - 2 ^ 970) * d * 2 ^ unitPlaces
      = 18014398509481983 * (d * 2 ^ (970 + unitPlaces)) := by
    rw [top, pow_add]
    generalize (2 : ℚ) ^ 970 = half
    ring
  rw [infinityBits_le_iff positive (e := 970 + unitPlaces) rfl, le_div_iff₀ denominator,
    ← mul_le_mul_iff_left₀ unit, scaled, odd, inUnits]
  generalize 970 + unitPlaces = places
  generalize unitPlaces = units
  exact_mod_cast Iff.rfl

/-! ## The law -/

/-- A finite result, in signed units, is the count of coarse units. -/
theorem nearest_of_lt (positive : 0 < d)
    (finite : shiftOf n d * Nat.pow 2 52 + countOf n d < infinityBits) :
    (nearest n d).IsFinite ∧ (nearest n d).isNegative = false ∧
      (nearest n d).signedUnits = countOf n d * 2 ^ shiftOf n d ∧
      (countOf n d % 2 = 0 → (nearest n d).significand % 2 = 0) := by
  have made : MakesFinite (shiftOf n d) (countOf n d) :=
    ⟨countOf_le positive, shiftOf_eq_zero_or_le positive, finite⟩
  obtain ⟨notNegative, exponent, _⟩ := made.fields
  rw [nearest_eq, Nat.min_eq_left (Nat.le_of_lt finite), isFinite_iff]
  exact ⟨exponent, notNegative, made.units⟩

theorem nearest_of_le (overflow : infinityBits ≤ shiftOf n d * Nat.pow 2 52 + countOf n d) :
    nearest n d = infinity := by
  rw [nearest_eq, Nat.min_eq_right overflow]
  rfl

/-- No finite value is nearer to a fraction than the count of coarse units, and one that is as near makes it even. -/
theorem natAbs_countOf_sub_le (positive : 0 < d) (y : Binary64) :
    (countOf n d * 2 ^ shiftOf n d * d - inUnits n : ℤ).natAbs
        ≤ (y.signedUnits * d - inUnits n : ℤ).natAbs ∧
      (y.signedUnits ≠ countOf n d * 2 ^ shiftOf n d →
        (countOf n d * 2 ^ shiftOf n d * d - inUnits n : ℤ).natAbs
          = (y.signedUnits * d - inUnits n : ℤ).natAbs →
        countOf n d % 2 = 0) := by
  have coarse := coarse_pos (n := n) positive
  have onGrid (k : ℤ) : k * 2 ^ shiftOf n d * d = k * (d * Nat.pow 2 (shiftOf n d) : Nat) := by
    rw [Nat.cast_mul, cast_pow_two]
    ring
  have first := shiftOf_le (n := n) positive
  rw [onGrid]
  rcases y.exists_onGrid (shiftOf n d) with ⟨k, same⟩ | ⟨isCoarse, less⟩
  · rw [same, onGrid]
    refine ⟨natAbs_roundHalfEven_sub_le coarse k, ?_⟩
    intro differs
    refine roundHalfEven_even coarse ?_
    rintro rfl
    exact differs rfl
  · -- The first power of two in front of the fraction is on the grid, and is nearer than this value.
    have toFirst := natAbs_roundHalfEven_sub_le (n := inUnits n) coarse (2 ^ 52)
    have nearer : y.signedUnits * d < 2 ^ 52 * (d * Nat.pow 2 (shiftOf n d) : Nat) := by
      rw [← onGrid]
      exact mul_lt_mul_of_pos_right less (by exact_mod_cast positive)
    have first : (2 ^ 52 * (d * Nat.pow 2 (shiftOf n d) : Nat) : ℤ) ≤ inUnits n := by
      exact_mod_cast first isCoarse
    unfold countOf
    generalize inUnits n = fine at *
    omega

/-- **What is computed for a fraction is nearest to it**, of two values the even one, without a sign, and infinite
just if it is half a step above the greatest finite value at least. -/
theorem isNearest_nearest (n : Nat) (positive : 0 < d) : IsNearest (n / d) (nearest n d) := by
  have overflow_iff := infinityBits_le_iff_rat (n := n) positive
  rcases Nat.lt_or_ge (shiftOf n d * Nat.pow 2 52 + countOf n d) infinityBits with finite | overflow
  · obtain ⟨isFinite, notNegative, units, even⟩ := nearest_of_lt positive finite
    have scale : (0 : ℚ) < d * 2 ^ unitPlaces := by positivity
    constructor
    case notNaN => exact isFinite.1
    case notNegative => exact notNegative
    case isInfinite_iff =>
      rw [isFinite.2, ← overflow_iff]
      exact iff_of_false Bool.false_ne_true (Nat.not_le.mpr finite)
    case nearest =>
      intro _ y _
      have nearer := (natAbs_countOf_sub_le (n := n) positive y).1
      rw [abs_toRat_sub _ n positive, abs_toRat_sub _ n positive, units, div_le_div_iff_of_pos_right scale]
      exact_mod_cast nearer
    case even =>
      intro _ y _ differs tie
      apply even
      apply (natAbs_countOf_sub_le (n := n) positive y).2
      · intro same
        apply differs
        rw [toRat, toRat, same, units]
      · rw [abs_toRat_sub _ n positive, abs_toRat_sub _ n positive, units, div_left_inj' scale.ne'] at tie
        exact_mod_cast tie
  · rw [nearest_of_le overflow]
    have infinite : infinity.isInfinite = true := by decide
    have notFinite : ¬ infinity.IsFinite := by
      intro isFinite
      rw [isFinite.2] at infinite
      cases infinite
    constructor
    case notNaN => decide
    case notNegative => decide
    case isInfinite_iff => exact iff_of_true infinite (overflow_iff.mp overflow)
    case nearest => exact fun isFinite => absurd isFinite notFinite
    case even => exact fun isFinite => absurd isFinite notFinite

end

end LoxLexing.Binary64
