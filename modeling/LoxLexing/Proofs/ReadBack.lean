import LoxLexing.Binary64.Shortest
import LoxLexing.Proofs.Neighbours

/-!
# The interval that reads back

A fraction is rounded to a value just if it lies between the midpoints to the two neighbours of the value, and it
may be a midpoint itself if the significand is even.

**The law** (`nearest_eq_iff`): counted in grains, these are the bounds that the search for the shortest text works
with. The neighbour above the greatest finite value is that of the pattern of infinity, read as if it were one more
step; so the bound above it is that of overflow.

The bounds are necessary, for a neighbour beyond one of them would be nearer (`midway_le`, `le_midway`). They are
sufficient because a fraction within them is rounded to something, whose own bounds must then hold too.
-/

namespace LoxLexing.Binary64

variable {x : Binary64} {p q n d : Nat}

/-! ## From one pattern to the next -/

theorem signedUnits_of_notNegative (notNegative : x.isNegative = false) : x.signedUnits = x.units := by
  rw [signedUnits, notNegative, if_neg Bool.false_ne_true]

theorem isNegative_ofPattern (fits : p ≤ infinityBits) : (ofPattern p).isNegative = false := by
  have bits := toNat_bits_ofPattern fits
  simp only [isNegative, bits, infinityBits, pow_fraction, pow_magnitude, beq_eq_false_iff_ne] at *
  omega

/-- A magnitude grows by one coarse unit. That of infinity's pattern is the next one after the last. -/
theorem units_succ (finite : p < infinityBits) :
    (ofPattern (p + 1)).units = (ofPattern p).units + Nat.pow 2 (ofPattern p).scale := by
  rcases Nat.lt_or_eq_of_le (Nat.succ_le_of_lt finite) with less | last
  · obtain ⟨shift, count, rfl, fits, normal⟩ := exists_steps p
    have here : MakesFinite shift count := ⟨Nat.le_of_lt fits, normal, finite⟩
    have next : MakesFinite shift (count + 1) :=
      ⟨Nat.succ_le_of_lt fits, normal.imp_right Nat.le_succ_of_le, less⟩
    obtain ⟨_, _, ⟨significand, scale⟩ | ⟨full, _⟩⟩ := here.fields
    · have units := next.units.1
      rw [signedUnits_of_notNegative next.fields.1] at units
      rw [Nat.add_assoc, Binary64.units.eq_def (ofPattern (shift * Nat.pow 2 52 + count)), significand, scale]
      rw [Nat.pow_eq, ← Nat.succ_mul]
      exact_mod_cast units
    · exact absurd full (Nat.ne_of_lt fits)
  · obtain rfl : p = infinityBits - 1 := Nat.eq_sub_of_add_eq last
    decide +kernel

theorem units_lt (less : p < q) (fits : q ≤ infinityBits) : (ofPattern p).units < (ofPattern q).units := by
  induction q, less using Nat.le_induction with
  | base =>
    rw [units_succ fits]
    exact Nat.lt_add_of_pos_right (Nat.two_pow_pos _)
  | succ q _ ih =>
    rw [units_succ fits]
    exact Nat.lt_add_right _ (ih (Nat.le_of_succ_le fits))

/-! ## Midpoints -/

/-- The units of a pattern and of the next one. Half of this is midway between them. -/
def midway (p : Nat) : Nat :=
  (ofPattern p).units + (ofPattern (p + 1)).units

theorem midway_lt (less : p < q) (fits : q < infinityBits) : midway p < midway q :=
  Nat.add_lt_add (units_lt less (Nat.le_of_lt fits)) (units_lt (Nat.succ_lt_succ less) fits)

theorem midway_mul_lt (positive : 0 < d) (less : p < q) (fits : q < infinityBits) : midway p * d < midway q * d :=
  Nat.mul_lt_mul_of_pos_right (midway_lt less fits) positive

/-! ## What is rounded to a value -/

theorem not_isFinite_infinity : ¬ infinity.IsFinite := by
  intro isFinite
  exact absurd isFinite.2 (by decide)

/-- No pattern is nearer to a fraction than what it is rounded to, and one that is as near makes this even. -/
theorem natAbs_nearest_sub_le (positive : 0 < d) (finite : (nearest n d).IsFinite) (y : Binary64) :
    ((nearest n d).signedUnits * d - inUnits n : ℤ).natAbs ≤ (y.signedUnits * d - inUnits n : ℤ).natAbs ∧
      (y.signedUnits ≠ (nearest n d).signedUnits →
        ((nearest n d).signedUnits * d - inUnits n : ℤ).natAbs = (y.signedUnits * d - inUnits n : ℤ).natAbs →
        (nearest n d).significand % 2 = 0) := by
  rcases Nat.lt_or_ge (shiftOf n d * Nat.pow 2 52 + countOf n d) infinityBits with fits | overflow
  · obtain ⟨_, _, units, even⟩ := nearest_of_lt positive fits
    obtain ⟨nearer, tie⟩ := natAbs_countOf_sub_le (n := n) positive y
    rw [units]
    exact ⟨nearer, fun differs same => even (tie differs same)⟩
  · rw [nearest_of_le overflow] at finite
    exact absurd finite not_isFinite_infinity

/-- A magnitude that a fraction is rounded to, against any other magnitude. -/
theorem natAbs_units_sub_le (positive : 0 < d) (finite : x.IsFinite) (rounded : nearest n d = x) {y : Binary64}
    (notNegative : y.isNegative = false) (differs : y.units ≠ x.units) :
    ((x.units * d : Nat) - inUnits n : ℤ).natAbs ≤ ((y.units * d : Nat) - inUnits n : ℤ).natAbs ∧
      (((x.units * d : Nat) - inUnits n : ℤ).natAbs = ((y.units * d : Nat) - inUnits n : ℤ).natAbs →
        x.significand % 2 = 0) := by
  have notNegative' := rounded ▸ (isNearest_nearest n positive).notNegative
  obtain ⟨nearer, tie⟩ := natAbs_nearest_sub_le positive (rounded ▸ finite) y
  rw [rounded, signedUnits_of_notNegative notNegative', signedUnits_of_notNegative notNegative] at nearer tie
  rw [Nat.cast_mul, Nat.cast_mul]
  exact ⟨nearer, tie (by exact_mod_cast differs)⟩

/-- So a fraction is not above the midpoint to the next pattern, -/
theorem le_midway (positive : 0 < d) (finite : x.IsFinite) (rounded : nearest n d = x) :
    2 * inUnits n + x.significand % 2 ≤ midway x.bits.toNat * d := by
  have notNegative := rounded ▸ (isNearest_nearest n positive).notNegative
  have fits := finite.toNat_bits_lt notNegative
  have order : x.units < (ofPattern (x.bits.toNat + 1)).units := by
    have order := units_lt (Nat.lt_add_one x.bits.toNat) fits
    rwa [ofPattern_toNat] at order
  obtain ⟨nearer, tie⟩ := natAbs_units_sub_le positive finite rounded (isNegative_ofPattern fits) (Nat.ne_of_gt order)
  have scaled := Nat.mul_lt_mul_of_pos_right order positive
  rw [midway, ofPattern_toNat, Nat.add_mul]
  generalize x.units * d = here at *
  generalize (ofPattern (x.bits.toNat + 1)).units * d = there at *
  generalize inUnits n = fine at *
  omega

/-- nor below the midpoint to the one before. -/
theorem midway_le (positive : 0 < d) (finite : x.IsFinite) (rounded : nearest n d = x)
    (bits : x.bits.toNat = p + 1) : midway p * d + x.significand % 2 ≤ 2 * inUnits n := by
  have notNegative := rounded ▸ (isNearest_nearest n positive).notNegative
  have fits := finite.toNat_bits_lt notNegative
  have same : ofPattern (p + 1) = x := bits ▸ ofPattern_toNat x
  have order : (ofPattern p).units < x.units := by
    have order := units_lt (Nat.lt_add_one p) (bits ▸ Nat.le_of_lt fits)
    rwa [same] at order
  have notNegative' : (ofPattern p).isNegative = false := isNegative_ofPattern (by omega)
  obtain ⟨nearer, tie⟩ := natAbs_units_sub_le positive finite rounded notNegative' (Nat.ne_of_lt order)
  have scaled := Nat.mul_lt_mul_of_pos_right order positive
  rw [midway, same, Nat.add_mul]
  generalize x.units * d = here at *
  generalize (ofPattern p).units * d = there at *
  generalize inUnits n = fine at *
  omega

theorem midway_last {e : Nat} (half : e = 2044) :
    midway (infinityBits - 1) = 2 * ((Nat.pow 2 54 - 1) * Nat.pow 2 e) := by
  subst half
  decide +kernel

/-- Rounding overflows from the midpoint to the pattern of infinity on. -/
theorem lt_midway_last_iff (positive : 0 < d) :
    2 * inUnits n < midway (infinityBits - 1) * d ↔ shiftOf n d * Nat.pow 2 52 + countOf n d < infinityBits := by
  obtain ⟨e, half⟩ : ∃ e, e = 2044 := ⟨2044, rfl⟩
  have overflow := infinityBits_le_iff (n := n) positive half
  rw [← not_iff_not, Nat.not_lt, Nat.not_lt, overflow, midway_last half]
  generalize Nat.pow 2 e = unit
  rw [Nat.mul_assoc, Nat.mul_assoc, Nat.mul_comm unit d]
  exact Nat.mul_le_mul_left_iff Nat.two_pos

/-- **A fraction is rounded to a value between whose midpoints it lies.** -/
theorem nearest_eq_iff_midway (positive : 0 < d) (finite : x.IsFinite) (notNegative : x.isNegative = false)
    (bits : x.bits.toNat = p + 1) :
    nearest n d = x ↔ midway p * d + x.significand % 2 ≤ 2 * inUnits n ∧
      2 * inUnits n + x.significand % 2 ≤ midway (p + 1) * d := by
  have fits := finite.toNat_bits_lt notNegative
  constructor
  · intro rounded
    have below := le_midway positive finite rounded
    rw [bits] at below
    exact ⟨midway_le positive finite rounded bits, below⟩
  · rintro ⟨above, below⟩
    rw [significand_mod_two, bits] at above below
    rw [bits] at fits
    have notOverflow : 2 * inUnits n < midway (infinityBits - 1) * d := by
      rcases Nat.lt_or_eq_of_le (Nat.le_sub_one_of_lt fits) with less | last
      · exact Nat.lt_of_le_of_lt (Nat.le_of_add_right_le below) (midway_mul_lt positive less (by decide))
      · have odd : (p + 1) % 2 = 1 := last ▸ rfl
        rw [← last]
        omega
    have finite' := (nearest_of_lt positive ((lt_midway_last_iff positive).mp notOverflow)).1
    have notNegative' := (isNearest_nearest n positive).notNegative
    have fits' := finite'.toNat_bits_lt notNegative'
    have below' := le_midway positive finite' rfl
    rw [significand_mod_two] at below'
    rcases Nat.lt_trichotomy (nearest n d).bits.toNat (p + 1) with less | same | greater
    · -- Two intervals meet at a midpoint at most, and that belongs to one of them.
      exfalso
      rcases Nat.lt_or_eq_of_le (Nat.le_of_lt_succ less) with less | last
      · have apart := midway_mul_lt positive less (Nat.lt_of_succ_lt fits)
        omega
      · rw [last] at below'
        omega
    · rw [← ofPattern_toNat (nearest n d), same, ← bits, ofPattern_toNat]
    · exfalso
      obtain ⟨r, bits'⟩ := Nat.exists_eq_add_one_of_ne_zero (Nat.ne_zero_of_lt greater)
      have above' := midway_le positive finite' rfl bits'
      rw [significand_mod_two, bits'] at above'
      rcases Nat.lt_or_eq_of_le (show p + 1 ≤ r by omega) with less | last
      · have apart := midway_mul_lt positive less (by omega)
        omega
      · rw [← last] at above'
        omega

/-! ## In grains -/

/-- A numerator in grains, so that a fraction has it over its denominator. -/
def inGrains (n : Nat) : Nat :=
  n * Nat.pow 10 grainPlaces

/-- The number of grains in half a unit. -/
def halfUnit : Nat :=
  2 * Nat.pow 5 grainPlaces

theorem five_pow_pos (places : Nat) : 0 < Nat.pow 5 places :=
  Nat.pow_pos (by decide)

theorem halfUnit_pos : 0 < halfUnit :=
  Nat.mul_pos Nat.two_pos (five_pow_pos grainPlaces)

theorem quarterGap_pos (x : Binary64) : 0 < x.quarterGap :=
  Nat.mul_pos (Nat.two_pow_pos _) (five_pow_pos grainPlaces)

/-- The factors of a power of ten, two of the twos apart. -/
theorem ten_pow {a b : Nat} (places : a = b + 2) : Nat.pow 10 a = 4 * Nat.pow 2 b * Nat.pow 5 a := by
  have split : (10 : Nat) ^ a = 2 ^ a * 5 ^ a := Nat.mul_pow 2 5 a
  have four : (2 : Nat) ^ a = 4 * 2 ^ b := by rw [places, Nat.pow_add, Nat.mul_comm]
  rw [Nat.pow_eq, Nat.pow_eq, Nat.pow_eq, split, four]

theorem inGrains_eq (n : Nat) : inGrains n = 2 * inUnits n * halfUnit := by
  have places : grainPlaces = unitPlaces + 2 := rfl
  rw [inGrains, inUnits, halfUnit, ten_pow places]
  generalize Nat.pow 2 unitPlaces = twos
  generalize Nat.pow 5 grainPlaces = fives
  ring

/-- The grains at the midpoint to the value below. -/
def bottom (x : Binary64) : Nat :=
  x.grains - (if x.narrowBelow then 1 else 2) * x.quarterGap

/-- The grains at the midpoint to the value above. -/
def top (x : Binary64) : Nat :=
  x.grains + 2 * x.quarterGap

theorem lowest_eq (x : Binary64) : x.lowest = x.bottom + x.inset := rfl

theorem highest_eq (x : Binary64) : x.highest = x.top - x.inset := rfl

theorem grains_eq (x : Binary64) : x.grains = 2 * x.units * halfUnit := by
  rw [grains, quarterGap, units, halfUnit]
  generalize Nat.pow 5 grainPlaces = fives
  ring

theorem midway_top (fits : x.bits.toNat < infinityBits) : midway x.bits.toNat * halfUnit = x.top := by
  rw [midway, units_succ fits, ofPattern_toNat, top, grains_eq, quarterGap, halfUnit]
  generalize Nat.pow 5 grainPlaces = fives
  ring

/-- The value below is a step of its own size away. This is half of one if the exponent steps up. -/
theorem scale_pred (fits : x.bits.toNat < infinityBits) (bits : x.bits.toNat = p + 1) :
    x.scale = (ofPattern p).scale + if x.narrowBelow then 1 else 0 := by
  have bits' : (ofPattern p).bits.toNat = p := toNat_bits_ofPattern (by omega)
  rw [bits, infinityBits, pow_fraction] at fits
  simp only [scale, narrowBelow, exponentField, fractionField, bits, bits', pow_fraction, pow_exponent,
    Bool.and_eq_true, beq_iff_eq, decide_eq_true_eq]
  split
  all_goals omega

theorem midway_bottom (fits : x.bits.toNat < infinityBits) (bits : x.bits.toNat = p + 1) :
    midway p * halfUnit = x.bottom := by
  have step := units_succ (p := p) (by omega)
  have same : ofPattern (p + 1) = x := bits ▸ ofPattern_toNat x
  have scales := scale_pred fits bits
  have quarters : (if x.narrowBelow then 1 else 2) * x.quarterGap = Nat.pow 2 (ofPattern p).scale * halfUnit := by
    rw [quarterGap, halfUnit, scales]
    generalize Nat.pow 5 grainPlaces = fives
    cases x.narrowBelow with
    | true =>
      rw [if_pos rfl, if_pos rfl, Nat.pow_eq, Nat.pow_eq, Nat.pow_succ]
      ring
    | false =>
      rw [if_neg Bool.false_ne_true, if_neg Bool.false_ne_true, Nat.add_zero]
      ring
  rw [same] at step
  rw [midway, same, bottom, quarters, grains_eq, step]
  refine Nat.eq_sub_of_add_eq ?_
  ring

theorem exists_bits_eq_succ (notNegative : x.isNegative = false) (notZero : x.isZero = false) :
    ∃ p, x.bits.toNat = p + 1 := by
  refine Nat.exists_eq_add_one_of_ne_zero ?_
  intro zero
  obtain rfl : ofPattern 0 = x := zero ▸ ofPattern_toNat x
  exact absurd notZero (by decide)

/-- A larger unit leaves it as it is whether a bound is kept, and whether it is kept strictly. -/
theorem add_le_iff_mul {a b unit strict : Nat} (positive : 0 < unit) (strict_le : strict ≤ 1) :
    a + strict ≤ b ↔ a * unit + strict ≤ b * unit := by
  rcases Nat.le_one_iff_eq_zero_or_eq_one.mp strict_le with rfl | rfl
  · exact (Nat.mul_le_mul_right_iff positive).symm
  · exact (Nat.mul_lt_mul_right positive).symm

theorem inset_le (x : Binary64) : x.inset ≤ 1 :=
  Nat.le_of_lt_succ (Nat.mod_lt _ Nat.two_pos)

/-- **A fraction is rounded to a value just if it lies in the interval of the value**, counted in grains. The ends
of the interval are part of it if the inset is zero. -/
theorem nearest_eq_iff (positive : 0 < d) (finite : x.IsFinite) (notNegative : x.isNegative = false)
    (notZero : x.isZero = false) :
    nearest n d = x ↔ x.bottom * d + x.inset ≤ inGrains n ∧ inGrains n + x.inset ≤ x.top * d := by
  have fits := finite.toNat_bits_lt notNegative
  obtain ⟨p, bits⟩ := exists_bits_eq_succ notNegative notZero
  have scaled (k : Nat) : midway k * halfUnit * d = midway k * d * halfUnit := Nat.mul_right_comm _ _ _
  rw [nearest_eq_iff_midway positive finite notNegative bits, ← midway_bottom fits bits, ← midway_top fits, bits,
    scaled, scaled, inGrains_eq, ← inset]
  exact and_congr (add_le_iff_mul halfUnit_pos x.inset_le) (add_le_iff_mul halfUnit_pos x.inset_le)

end LoxLexing.Binary64
