import LoxLexing.Proofs.NumberValues
import LoxLexing.Proofs.ReadBack

/-!
# The shortest digits read back

The digits of a value are looked for from the coarsest place downwards, among the two multiples around the value
only, and are written with as many places as they need.

**The law**: what is found lies in the interval that reads back, and nothing in it is a multiple at a coarser place
(`isCoarsest_shortest`). So the text that is written reads back as the value (`value_numeral_shortest`), and what
reads back as the value is not fewer digits with zeros behind them (`number_shortest_lt`).

For the last one, fewer digits at a place that is not coarser make a smaller number; then a power of ten between the
two numbers lies in the interval with them, and it is a multiple at a coarser place.

**What it does not establish.** That among the shortest texts the one nearest to the value is found.
-/

namespace LoxLexing.Binary64

theorem ten_pow_pos (places : Nat) : 0 < Nat.pow 10 places :=
  Nat.pow_pos (by decide)

theorem ten_pow_add (a b : Nat) : Nat.pow 10 (a + b) = Nat.pow 10 a * Nat.pow 10 b :=
  Nat.pow_add 10 a b

/-! ## The search -/

/-- Whether digits lie between two bounds, and no multiple at a coarser place does. -/
structure IsCoarsest (low high : Nat) (digits : Digits) : Prop where
  low_le : low ≤ digits.number * Nat.pow 10 digits.place
  le_high : digits.number * Nat.pow 10 digits.place ≤ high
  none_coarser : ∀ place, digits.place < place → ∀ m, low ≤ m * Nat.pow 10 place → high < m * Nat.pow 10 place

section

variable {low value high unit place : Nat}

/-- A power of ten is a multiple at its own place, so there is none between the lower bound and the digits. -/
theorem IsCoarsest.number_lt {digits : Digits} (found : IsCoarsest low high digits) {more : Nat}
    (positive : 0 < more) (low_le : low ≤ Nat.pow 10 (more + digits.place)) : digits.number < Nat.pow 10 more := by
  by_contra notLess
  have power : 1 * Nat.pow 10 (more + digits.place) = Nat.pow 10 more * Nat.pow 10 digits.place := by
    rw [Nat.one_mul, ten_pow_add]
  have beyond := found.none_coarser (more + digits.place) (by omega) 1 (by rwa [Nat.one_mul])
  have le := Nat.mul_le_mul_right (Nat.pow 10 digits.place) (Nat.le_of_not_lt notLess)
  rw [power] at beyond
  exact absurd (le.trans found.le_high) (Nat.not_le.mpr beyond)

/-- If neither of the two multiples around a value lies between bounds that it lies between, none does. -/
theorem lt_mul_of_around (lower : ¬ low ≤ value / unit * unit) (upper : ¬ (value / unit + 1) * unit ≤ high)
    {m : Nat} (low_le : low ≤ m * unit) : high < m * unit := by
  have above : value / unit + 1 ≤ m := by
    by_contra below
    have le : m * unit ≤ value / unit * unit := Nat.mul_le_mul_right unit (by omega)
    omega
  have le : (value / unit + 1) * unit ≤ m * unit := Nat.mul_le_mul_right unit above
  omega

/-- The search finds the coarsest multiple if there is none at the places in front of its start. -/
theorem isCoarsest_coarsest (low_le : low ≤ value) (le_high : value ≤ high)
    (passed : ∀ coarser, place < coarser → ∀ m, low ≤ m * Nat.pow 10 coarser → high < m * Nat.pow 10 coarser) :
    IsCoarsest low high (coarsest low value high place) := by
  induction place with
  | zero =>
    have whole : value * Nat.pow 10 0 = value := Nat.mul_one value
    exact ⟨whole.symm ▸ low_le, whole.symm ▸ le_high, passed⟩
  | succ place ih =>
    have below := Nat.div_mul_le_self value (Nat.pow 10 (place + 1))
    have above := Nat.lt_mul_of_div_lt (Nat.lt_add_one (value / Nat.pow 10 (place + 1))) (ten_pow_pos (place + 1))
    rw [coarsest]
    split
    case isTrue lower =>
      exact ⟨of_decide_eq_true (Bool.and_eq_true_iff.mp lower).1, below.trans le_high, passed⟩
    case isFalse notLower =>
      split
      case isTrue upper =>
        exact ⟨low_le.trans (Nat.le_of_lt above), of_decide_eq_true upper, passed⟩
      case isFalse notUpper =>
        rw [Bool.not_eq_true, decide_eq_false_iff_not] at notUpper
        simp only [notUpper, decide_false, Bool.not_false, Bool.true_or, Bool.and_true, decide_eq_true_eq] at notLower
        apply ih
        intro coarser beyond m
        rcases Nat.lt_or_eq_of_le (Nat.succ_le_of_lt beyond) with further | rfl
        · exact passed coarser further m
        · exact lt_mul_of_around notLower notUpper

/-- A decimal digit is worth three binary ones at least, so no multiple at these places keeps below a bound. -/
theorem lt_mul_pow_ten (positive : 0 < low) (beyond : Nat.log2 high / 3 + 1 < place) {m : Nat}
    (low_le : low ≤ m * Nat.pow 10 place) : high < m * Nat.pow 10 place := by
  have notZero : 0 < m := by
    by_contra zero
    obtain rfl : m = 0 := by omega
    omega
  calc high < 2 ^ (Nat.log2 high + 1) := Nat.lt_log2_self
    _ ≤ 2 ^ (3 * place) := Nat.pow_le_pow_right Nat.two_pos (by omega)
    _ = 8 ^ place := Nat.pow_mul 2 3 place
    _ ≤ 10 ^ place := Nat.pow_le_pow_left (by decide) place
    _ ≤ m * 10 ^ place := Nat.le_mul_of_pos_left _ notZero

end

/-! ## The shortest digits -/

section

variable {x : Binary64}

/-- A value other than zero is a whole gap at least. -/
theorem gap_le_grains (notZero : x.isZero = false) : 4 * x.quarterGap ≤ x.grains := by
  have significand : 0 < x.significand := by
    rw [isZero, Bool.and_eq_false_iff, beq_eq_false_iff_ne, beq_eq_false_iff_ne] at notZero
    unfold significand
    rw [pow_fraction]
    split
    all_goals omega
  rw [grains]
  exact Nat.mul_le_mul_right _ (Nat.le_mul_of_pos_right 4 significand)

/-- So both midpoints are apart from the value, and from zero. -/
theorem bottom_lt_grains (notZero : x.isZero = false) :
    0 < x.bottom ∧ x.bottom < x.grains ∧ x.grains < x.top := by
  have gap := quarterGap_pos x
  have le := gap_le_grains notZero
  rw [bottom, top]
  split
  all_goals omega

theorem isCoarsest_shortest (notZero : x.isZero = false) : IsCoarsest x.lowest x.highest x.shortest := by
  obtain ⟨positive, below, above⟩ := bottom_lt_grains notZero
  have inset := x.inset_le
  rw [shortest]
  apply isCoarsest_coarsest
  case low_le => rw [lowest_eq]; omega
  case le_high => rw [highest_eq]; omega
  case passed =>
    intro coarser beyond m low_le
    refine lt_mul_pow_ten ?_ beyond low_le
    rw [lowest_eq]
    omega

end

/-! ## Digits as a numeral -/

/-- Padding changes the width of a number only. -/
theorem ofDigitChars_paddedDigits (width n : Nat) : Nat.ofDigitChars 10 (paddedDigits width n) 0 = n := by
  rw [paddedDigits, List.leftpad, Nat.ofDigitChars_append, Nat.ofDigitChars_replicate_zero, Nat.mul_zero,
    Nat.ofDigitChars_toDigits (by decide) (by decide)]

theorem length_paddedDigits {width n : Nat} (positive : 0 < width) (fits : n < Nat.pow 10 width) :
    (paddedDigits width n).length = width := by
  have le : (Nat.toDigits 10 n).length ≤ width := (Nat.length_toDigits_le_iff (by decide) positive).mpr fits
  rw [paddedDigits, List.leftpad, List.length_append, List.length_replicate]
  omega

theorem isDigits_toDigits (n : Nat) : IsDigits (Nat.toDigits 10 n) := by
  refine ⟨Nat.toDigits_ne_nil, ?_⟩
  intro c mem
  exact Nat.isDigit_of_mem_toDigits (by decide) (by decide) mem

theorem isDigits_paddedDigits (width n : Nat) : IsDigits (paddedDigits width n) := by
  obtain ⟨notEmpty, digits⟩ := isDigits_toDigits n
  refine ⟨List.append_ne_nil_of_right_ne_nil _ notEmpty, ?_⟩
  intro c mem
  rcases List.mem_append.mp mem with padding | digit
  · rw [List.eq_of_mem_replicate padding]
    rfl
  · exact digits c digit

namespace Digits

/-- A number with some of its digits behind the point. -/
def pointed (places n : Nat) : Numeral :=
  ⟨Nat.toDigits 10 (n / Nat.pow 10 places), some (paddedDigits places (n % Nat.pow 10 places))⟩

/-- The numeral that digits are written as. -/
def numeral (digits : Digits) : Numeral :=
  if grainPlaces ≤ digits.place then
    ⟨Nat.toDigits 10 (digits.number * Nat.pow 10 (digits.place - grainPlaces)), none⟩
  else pointed (grainPlaces - digits.place) digits.number

theorem text_numeral (digits : Digits) : digits.numeral.text = digits.text := by
  unfold numeral text
  split
  all_goals rfl

theorem isWellFormed_numeral (digits : Digits) : digits.numeral.IsWellFormed := by
  unfold numeral
  split
  · exact ⟨isDigits_toDigits _, nofun⟩
  · refine ⟨isDigits_toDigits _, ?_⟩
    intro fraction same
    exact Option.some.inj same ▸ isDigits_paddedDigits _ _

/-- The point takes no digit away. -/
theorem parts_pointed {places : Nat} (positive : 0 < places) (n : Nat) :
    (pointed places n).numerator = n ∧ (pointed places n).denominator = Nat.pow 10 places := by
  have width : (paddedDigits places (n % Nat.pow 10 places)).length = places :=
    length_paddedDigits positive (Nat.mod_lt _ (ten_pow_pos places))
  constructor
  · rw [pointed, Numeral.numerator, Option.getD_some, Nat.ofDigitChars_append, Nat.ofDigitChars_eq_ofDigitChars_zero,
      width, ofDigitChars_paddedDigits, Nat.ofDigitChars_toDigits (by decide) (by decide)]
    exact Nat.div_add_mod n (10 ^ places)
  · rw [pointed, Numeral.denominator, Option.getD_some, width]

/-- Digits denote the number of grains that they count. -/
theorem parts_numeral (digits : Digits) :
    digits.numeral.numerator = digits.number * Nat.pow 10 (digits.place - grainPlaces) ∧
      digits.numeral.denominator = Nat.pow 10 (grainPlaces - digits.place) := by
  unfold numeral
  split
  case isTrue whole =>
    rw [Numeral.numerator, Option.getD_none, List.append_nil, Nat.ofDigitChars_toDigits (by decide) (by decide),
      Nat.sub_eq_zero_of_le whole]
    exact ⟨rfl, rfl⟩
  case isFalse notWhole =>
    have positive : 0 < grainPlaces - digits.place := by omega
    obtain ⟨numerator, denominator⟩ := parts_pointed positive digits.number
    have none : digits.place - grainPlaces = 0 := by omega
    rw [numerator, denominator, none]
    exact ⟨(Nat.mul_one _).symm, rfl⟩

/-- Over its denominator the numeral has the grains. -/
theorem inGrains_numerator (digits : Digits) :
    inGrains digits.numeral.numerator = digits.number * Nat.pow 10 digits.place * digits.numeral.denominator := by
  obtain ⟨numerator, denominator⟩ := digits.parts_numeral
  have places : digits.place - grainPlaces + grainPlaces = digits.place + (grainPlaces - digits.place) := by omega
  rw [inGrains, numerator, denominator, Nat.mul_assoc, Nat.mul_assoc, ← ten_pow_add, ← ten_pow_add, places]

end Digits

/-! ## The law -/

section

variable {x : Binary64}

/-- A fraction of a whole number of grains is rounded to a value just if these are between the least and the greatest
number that reads back. -/
theorem nearest_eq_iff_between {n d count : Nat} (positive : 0 < d) (finite : x.IsFinite)
    (notNegative : x.isNegative = false) (notZero : x.isZero = false) (whole : inGrains n = count * d) :
    nearest n d = x ↔ x.lowest ≤ count ∧ count ≤ x.highest := by
  have wide := bottom_lt_grains notZero
  have inset := x.inset_le
  rw [nearest_eq_iff positive finite notNegative notZero, whole, ← add_le_iff_mul positive inset,
    ← add_le_iff_mul positive inset, lowest_eq, highest_eq]
  omega

/-- **The shortest digits read back.** -/
theorem value_numeral_shortest (finite : x.IsFinite) (notNegative : x.isNegative = false)
    (notZero : x.isZero = false) : x.shortest.numeral.value = x := by
  have found := isCoarsest_shortest notZero
  have positive := x.shortest.numeral.denominator_pos
  have whole := x.shortest.inGrains_numerator
  exact (nearest_eq_iff_between positive finite notNegative notZero whole).mpr ⟨found.low_le, found.le_high⟩

/-- **What reads back as a value has as many digits as the shortest**, zeros at the end not counted. -/
theorem number_shortest_lt (finite : x.IsFinite) (notNegative : x.isNegative = false) (notZero : x.isZero = false)
    {m zeros places digits : Nat} (rounded : nearest (m * Nat.pow 10 zeros) (Nat.pow 10 places) = x)
    (fits : m < Nat.pow 10 digits) : x.shortest.number < Nat.pow 10 digits := by
  have found := isCoarsest_shortest notZero
  have positive := ten_pow_pos places
  have grains : inGrains (m * Nat.pow 10 zeros) = m * Nat.pow 10 (zeros + grainPlaces) := by
    rw [inGrains, Nat.mul_assoc, ← ten_pow_add]
  rcases Nat.lt_or_ge (x.shortest.place + places) (zeros + grainPlaces) with coarser | notCoarser
  · -- What is read is itself a multiple at a coarser place than that of the digits found.
    obtain ⟨place, split⟩ := Nat.exists_eq_add_of_le' (Nat.le_of_lt (Nat.lt_of_add_left_lt coarser))
    rw [split, ten_pow_add, ← Nat.mul_assoc] at grains
    obtain ⟨low_le, le_high⟩ := (nearest_eq_iff_between positive finite notNegative notZero grains).mp rounded
    exact absurd (found.none_coarser place (by omega) m low_le) (Nat.not_lt.mpr le_high)
  · -- Else it is less than a power of ten at the place of the digits found, which is above the lower midpoint then.
    have above := ((nearest_eq_iff positive finite notNegative notZero).mp rounded).1
    rw [grains] at above
    have wide := bottom_lt_grains notZero
    have inset := x.inset_le
    have someDigit : 0 < digits := by
      by_contra noDigit
      obtain rfl : digits = 0 := by omega
      obtain rfl : m = 0 := Nat.lt_one_iff.mp fits
      have positive' := Nat.mul_pos wide.1 positive
      omega
    have less : m * Nat.pow 10 (zeros + grainPlaces) < Nat.pow 10 (digits + x.shortest.place) * Nat.pow 10 places :=
      calc m * Nat.pow 10 (zeros + grainPlaces)
          ≤ m * Nat.pow 10 (x.shortest.place + places) :=
            Nat.mul_le_mul_left m (Nat.pow_le_pow_right (by decide) notCoarser)
        _ < Nat.pow 10 digits * Nat.pow 10 (x.shortest.place + places) :=
            Nat.mul_lt_mul_of_pos_right fits (ten_pow_pos _)
        _ = Nat.pow 10 (digits + x.shortest.place) * Nat.pow 10 places := by
            rw [ten_pow_add, ten_pow_add, Nat.mul_assoc]
    have above_bottom : x.bottom < Nat.pow 10 (digits + x.shortest.place) := by
      refine Nat.lt_of_mul_lt_mul_right (a := Nat.pow 10 places) ?_
      omega
    apply found.number_lt someDigit
    rw [lowest_eq]
    omega

end

end LoxLexing.Binary64
