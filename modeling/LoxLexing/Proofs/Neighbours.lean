import LoxLexing.Proofs.Rounding

/-!
# Neighbouring values

The patterns without a sign, up to that of infinity, are in the order of the magnitudes they stand for: from one to
the next a magnitude grows by one coarse unit, also where the exponent steps up (`signedUnits_succ`). Significands
are even and odd in turn, as the patterns are (`significand_mod_two`).

**The law** (`IsNearest.unique`): only one value is nearest to a rational number. If there were two, the number
would lie midway between them, with no value between, and of two neighbours one has an odd significand.
-/

namespace LoxLexing.Binary64

/-! ## Patterns in order -/

section

variable {x y : Binary64} {p q : Nat}

theorem ofPattern_toNat (x : Binary64) : ofPattern x.bits.toNat = x := by
  rw [ofPattern, UInt64.ofNat_toNat]

/-- The pattern of a value that has no sign and is no NaN. -/
theorem toNat_bits_le (notNaN : x.isNaN = false) (notNegative : x.isNegative = false) :
    x.bits.toNat ≤ infinityBits := by
  have size : x.bits.toNat < 18446744073709551616 := x.bits.toNat_lt
  simp only [isNaN, isNegative, exponentField, fractionField, infinityBits, pow_fraction, pow_exponent,
    pow_magnitude, Bool.and_eq_false_iff, beq_eq_false_iff_ne, bne_eq_false_iff_eq] at *
  omega

theorem isInfinite_iff_toNat_bits (notNegative : x.isNegative = false) :
    x.isInfinite = true ↔ x.bits.toNat = infinityBits := by
  have size : x.bits.toNat < 18446744073709551616 := x.bits.toNat_lt
  simp only [isInfinite, isNegative, exponentField, fractionField, infinityBits, pow_fraction, pow_exponent,
    pow_magnitude, Bool.and_eq_true, beq_iff_eq, beq_eq_false_iff_ne] at *
  omega

/-- Without a sign there is one infinity. -/
theorem isInfinite_iff_eq (notNegative : x.isNegative = false) : x.isInfinite = true ↔ x = infinity := by
  rw [isInfinite_iff_toNat_bits notNegative]
  constructor
  · intro same
    rw [← ofPattern_toNat x, same]
    rfl
  · rintro rfl
    exact toNat_bits_ofPattern (Nat.le_refl _)

theorem IsFinite.toNat_bits_lt (finite : x.IsFinite) (notNegative : x.isNegative = false) :
    x.bits.toNat < infinityBits := by
  refine Nat.lt_of_le_of_ne (toNat_bits_le finite.1 notNegative) ?_
  rw [← isInfinite_iff_toNat_bits notNegative, finite.2]
  exact Bool.false_ne_true

/-- Every pattern is a count of less than fifty-four bits on top of some steps. -/
theorem exists_steps (p : Nat) :
    ∃ shift count, p = shift * Nat.pow 2 52 + count ∧ count < Nat.pow 2 53 ∧
      (shift = 0 ∨ Nat.pow 2 52 ≤ count) := by
  have double : Nat.pow 2 53 = 9007199254740992 := rfl
  rw [pow_fraction, double]
  rcases Nat.lt_or_ge p 9007199254740992 with small | large
  · exact ⟨0, p, by omega, small, .inl rfl⟩
  · exact ⟨p / 4503599627370496 - 1, p % 4503599627370496 + 4503599627370496, by omega, by omega, by omega⟩

/-- The next pattern is that of a greater value, also where the exponent steps up. -/
theorem signedUnits_succ (finite : p + 1 < infinityBits) :
    (ofPattern p).signedUnits < (ofPattern (p + 1)).signedUnits ∧ (ofPattern (p + 1)).IsFinite := by
  obtain ⟨shift, count, rfl, fits, normal⟩ := exists_steps p
  have here : MakesFinite shift count := ⟨Nat.le_of_lt fits, normal, Nat.lt_of_succ_lt finite⟩
  rw [Nat.add_assoc] at finite ⊢
  have next : MakesFinite shift (count + 1) :=
    ⟨Nat.succ_le_of_lt fits, normal.imp_right Nat.le_succ_of_le, finite⟩
  obtain ⟨_, exponent, _⟩ := next.fields
  rw [here.units.1, next.units.1]
  refine ⟨?_, isFinite_iff.mpr exponent⟩
  have unit : (0 : ℤ) < 2 ^ shift := by positivity
  exact mul_lt_mul_of_pos_right (by push_cast; omega) unit

/-- A greater pattern is that of a greater value. -/
theorem signedUnits_lt (less : p < q) (finite : q < infinityBits) :
    (ofPattern p).signedUnits < (ofPattern q).signedUnits := by
  induction q, less using Nat.le_induction with
  | base => exact (signedUnits_succ finite).1
  | succ q _ ih => exact (ih (Nat.lt_of_succ_lt finite)).trans (signedUnits_succ finite).1

theorem significand_mod_two (x : Binary64) : x.significand % 2 = x.bits.toNat % 2 := by
  unfold significand fractionField
  rw [pow_fraction]
  split
  all_goals omega

theorem toRat_lt_toRat (less : x.signedUnits < y.signedUnits) : x.toRat < y.toRat := by
  have unit : (0 : ℚ) < 2 ^ unitPlaces := by positivity
  exact div_lt_div_of_pos_right (by exact_mod_cast less) unit

end

/-! ## One nearest value -/

section

variable {q : ℚ} {x y : Binary64}

/-- What is not between two numbers is not nearer to their midpoint. -/
theorem le_of_midway {a b c q : ℚ} (less : a < c) (same : |a - q| = |b - q|) (notNearer : |a - q| ≤ |c - q|)
    (order : a < b) : b ≤ c := by
  have midway : a - q = -(b - q) := by
    rcases abs_eq_abs.mp same with equal | opposite
    · linarith
    · exact opposite
  by_contra between
  have left : |a - q| = q - a := by
    rw [abs_of_neg (by linarith)]
    ring
  have right : |c - q| < q - a := by
    rw [abs_lt]
    exact ⟨by linarith, by linarith⟩
  linarith

/-- Of two nearest values none has the smaller pattern. -/
theorem IsNearest.toNat_bits_le_of_isFinite (left : IsNearest q x) (right : IsNearest q y) (finiteX : x.IsFinite)
    (finiteY : y.IsFinite) : y.bits.toNat ≤ x.bits.toNat := by
  by_contra less
  have less : x.bits.toNat < y.bits.toNat := Nat.lt_of_not_le less
  have bound := finiteY.toNat_bits_lt right.notNegative
  have next := signedUnits_succ (Nat.lt_of_le_of_lt less bound)
  have order := signedUnits_lt less bound
  rw [ofPattern_toNat] at next order
  rw [ofPattern_toNat] at order
  have tie : |x.toRat - q| = |y.toRat - q| :=
    le_antisymm (left.nearest finiteX y finiteY) (right.nearest finiteY x finiteX)
  have differs : y.toRat ≠ x.toRat := (toRat_lt_toRat order).ne'
  have evenX := left.even finiteX y finiteY differs tie
  have evenY := right.even finiteY x finiteX differs.symm tie.symm
  -- The value behind the one is the other, for between them it would be nearer.
  have last : y.toRat ≤ (ofPattern (x.bits.toNat + 1)).toRat :=
    le_of_midway (toRat_lt_toRat next.1) tie (left.nearest finiteX _ next.2) (toRat_lt_toRat order)
  have adjacent : y.bits.toNat = x.bits.toNat + 1 := by
    by_contra notAdjacent
    have beyond := signedUnits_lt (Nat.lt_of_le_of_ne less (Ne.symm notAdjacent)) bound
    rw [ofPattern_toNat] at beyond
    exact absurd (toRat_lt_toRat beyond) (not_lt.mpr last)
  rw [significand_mod_two] at evenX evenY
  omega

/-- **Only one value is nearest to a number.** -/
theorem IsNearest.unique (left : IsNearest q x) (right : IsNearest q y) : x = y := by
  cases infinite : x.isInfinite with
  | true =>
    have infinite' := right.isInfinite_iff.mpr (left.isInfinite_iff.mp infinite)
    rw [(isInfinite_iff_eq left.notNegative).mp infinite, (isInfinite_iff_eq right.notNegative).mp infinite']
  | false =>
    have finiteX : x.IsFinite := ⟨left.notNaN, infinite⟩
    have finiteY : y.IsFinite := by
      refine ⟨right.notNaN, ?_⟩
      rw [← Bool.not_eq_true, right.isInfinite_iff, ← left.isInfinite_iff, infinite]
      exact Bool.false_ne_true
    have same := le_antisymm (right.toNat_bits_le_of_isFinite left finiteY finiteX)
      (left.toNat_bits_le_of_isFinite right finiteX finiteY)
    rw [← ofPattern_toNat x, same, ofPattern_toNat]

end

end LoxLexing.Binary64
