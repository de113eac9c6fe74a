import Mathlib.Data.List.DropRight
import LoxLexing.Proofs.ShortestDigits

/-!
# Printed numbers

What is printed for a number is digits again, and so it can be scanned.

**The law** (`printed_numbers`): if the value of a number is finite, the text that is printed for it is, alone, one
number with the same value; and no digits with fewer of them significant have this value.

Whether digits are significant is a matter of the text, and what the shortest digits are is said of numbers. The two
meet where zeros at the ends are taken away: what is left bounds the number from above (`ofDigitChars_lt`), and from
below, for the first of it is no zero, and the last of it is no zero and cannot go into a power of ten
(`length_withoutZeros_le`).

**What it does not establish.** What is printed for infinity is a word; a scan takes it for a name.
-/

namespace LoxLexing

/-! ## Significant digits -/

/-- A run of digits without the zeros at its ends. -/
def withoutZeros (digits : List Char) : List Char :=
  (digits.dropWhile (· == '0')).rdropWhile (· == '0')

/-- The number of digits that are left of a text without the zeros at its ends. -/
def significantDigits (text : String) : Nat :=
  (withoutZeros (text.toList.filter Char.isDigit)).length

section

variable {digits : List Char} {c : Char}

theorem ofDigitChars_cons (c : Char) (digits : List Char) :
    Nat.ofDigitChars 10 (c :: digits) 0 = 10 ^ digits.length * (c.toNat - 48) + Nat.ofDigitChars 10 digits 0 := by
  rw [Nat.ofDigitChars_cons, Nat.ofDigitChars_eq_ofDigitChars_zero, Nat.mul_zero, Nat.zero_add]
  rfl

/-- A run of digits is less than one with as many zeros behind it. -/
theorem ofDigitChars_lt (isDigits : ∀ c ∈ digits, c.isDigit = true) :
    Nat.ofDigitChars 10 digits 0 < 10 ^ digits.length := by
  induction digits with
  | nil => decide
  | cons c digits ih =>
    obtain ⟨first, others⟩ := List.forall_mem_cons.mp isDigits
    have digit : c.toNat - 48 ≤ 9 := by
      have bound := isDigit_iff.mp first
      omega
    have scaled := Nat.mul_le_mul_left (10 ^ digits.length) digit
    have less := ih others
    rw [ofDigitChars_cons, List.length_cons, Nat.pow_succ]
    omega

theorem digit_bounds (digit : c.isDigit = true) (notZero : c ≠ '0') :
    0 < c.toNat - 48 ∧ c.toNat - 48 < 10 := by
  have bound := isDigit_iff.mp digit
  have differs : c.toNat ≠ 48 := by
    intro same
    exact notZero (Char.toNat_inj.mp same)
  omega

/-- A first digit that is no zero counts at its place. -/
theorem le_ofDigitChars (digit : c.isDigit = true) (notZero : c ≠ '0') (digits : List Char) :
    10 ^ digits.length ≤ Nat.ofDigitChars 10 (c :: digits) 0 := by
  have positive := (digit_bounds digit notZero).1
  have scaled := Nat.le_mul_of_pos_right (10 ^ digits.length) positive
  rw [ofDigitChars_cons]
  omega

/-- A last digit that is no zero is left by a division by ten. -/
theorem ofDigitChars_mod_ten (digit : c.isDigit = true) (notZero : c ≠ '0') (digits : List Char) :
    Nat.ofDigitChars 10 (digits ++ [c]) 0 % 10 ≠ 0 := by
  have bounds := digit_bounds digit notZero
  rw [Nat.ofDigitChars_append, Nat.ofDigitChars_eq_ofDigitChars_zero, ofDigitChars_cons]
  simp only [List.length_cons, List.length_nil, Nat.ofDigitChars_nil]
  omega

/-! ## Zeros at the ends -/

theorem exists_replicate_append (digits : List Char) :
    ∃ front back, digits = List.replicate front '0' ++ (withoutZeros digits ++ List.replicate back '0') := by
  have zeros (run : List Char) (isZero : ∀ c ∈ run, (c == '0') = true) : run = List.replicate run.length '0' := by
    refine List.eq_replicate_of_mem ?_
    intro c mem
    exact beq_iff_eq.mp (isZero c mem)
  have front := zeros (digits.takeWhile (· == '0')) (forall_mem_takeWhile _ _)
  have back := zeros ((digits.dropWhile (· == '0')).rtakeWhile (· == '0')) fun c mem =>
    List.mem_rtakeWhile_imp (p := (· == '0')) mem
  refine ⟨(digits.takeWhile (· == '0')).length, ((digits.dropWhile (· == '0')).rtakeWhile (· == '0')).length, ?_⟩
  rw [← front, ← back, withoutZeros, List.rdropWhile_append_rtakeWhile, List.takeWhile_append_dropWhile]

/-- The zeros behind the other digits are a power of ten. -/
theorem exists_ofDigitChars_eq (digits : List Char) :
    ∃ zeros, Nat.ofDigitChars 10 digits 0 = Nat.ofDigitChars 10 (withoutZeros digits) 0 * 10 ^ zeros := by
  obtain ⟨front, back, split⟩ := exists_replicate_append digits
  refine ⟨back, ?_⟩
  conv_lhs => rw [split]
  rw [Nat.ofDigitChars_append, Nat.ofDigitChars_append, Nat.ofDigitChars_replicate_zero,
    Nat.ofDigitChars_replicate_zero, Nat.mul_zero, Nat.mul_comm]

theorem isDigit_of_mem_withoutZeros (isDigits : ∀ c ∈ digits, c.isDigit = true) :
    ∀ c ∈ withoutZeros digits, c.isDigit = true := by
  intro c mem
  obtain ⟨front, back, split⟩ := exists_replicate_append digits
  refine isDigits c ?_
  rw [split]
  exact List.mem_append_right _ (List.mem_append_left _ mem)

theorem head_withoutZeros_ne {rest : List Char} (begins : withoutZeros digits = c :: rest) : c ≠ '0' := by
  have prefixed : withoutZeros digits <+: digits.dropWhile (· == '0') := List.rdropWhile_prefix _ _
  have stops := stops_dropWhile (· == '0') digits
  obtain ⟨behind, split⟩ := prefixed
  rw [← split, begins, List.cons_append, stops_cons, beq_eq_false_iff_ne] at stops
  exact stops

theorem last_withoutZeros_ne {front : List Char} (ends : withoutZeros digits = front ++ [c]) : c ≠ '0' := by
  have backwards : (digits.dropWhile (· == '0')).reverse.dropWhile (· == '0') = c :: front.reverse := by
    rw [← List.reverse_inj, List.reverse_cons, List.reverse_reverse, ← ends]
    rfl
  have stops := stops_dropWhile (· == '0') (digits.dropWhile (· == '0')).reverse
  rw [backwards, stops_cons, beq_eq_false_iff_ne] at stops
  exact stops

/-- Of two equal products with powers of ten, one that has all its zeros in the power has the smaller factor. -/
theorem le_of_mul_pow_ten_eq {core m back zeros : Nat} (noZero : core % 10 ≠ 0)
    (same : core * 10 ^ back = m * 10 ^ zeros) : core ≤ m := by
  rcases Nat.lt_or_ge back zeros with less | more
  · obtain ⟨gap, rfl⟩ := Nat.exists_eq_add_of_lt less
    have factored : core * 10 ^ back = m * 10 ^ gap * 10 * 10 ^ back := by
      rw [same]
      ring
    have divides := Nat.eq_of_mul_eq_mul_right (Nat.pow_pos (by decide)) factored
    omega
  · obtain ⟨gap, rfl⟩ := Nat.exists_eq_add_of_le more
    have factored : core * 10 ^ gap * 10 ^ zeros = m * 10 ^ zeros := by
      rw [← same]
      ring
    rw [← Nat.eq_of_mul_eq_mul_right (Nat.pow_pos (by decide)) factored]
    exact Nat.le_mul_of_pos_right core (Nat.pow_pos (by decide))

/-- A number with few digits in front of its last zeros is written with few significant digits. -/
theorem length_withoutZeros_le (isDigits : ∀ c ∈ digits, c.isDigit = true) {m zeros bound : Nat}
    (same : Nat.ofDigitChars 10 digits 0 = m * 10 ^ zeros) (fits : m < 10 ^ bound) :
    (withoutZeros digits).length ≤ bound := by
  have isDigits' := isDigit_of_mem_withoutZeros isDigits
  obtain ⟨back, split⟩ := exists_ofDigitChars_eq digits
  rw [split] at same
  rcases List.eq_nil_or_concat (withoutZeros digits) with empty | ⟨front, last, ends⟩
  · rw [empty]
    exact Nat.zero_le bound
  · rw [List.concat_eq_append] at ends
    have lastDigit := isDigits' last (by simp [ends])
    have noZero := ofDigitChars_mod_ten lastDigit (last_withoutZeros_ne ends) front
    rw [← ends] at noZero
    obtain ⟨first, rest, begins⟩ := List.exists_cons_of_ne_nil (l := withoutZeros digits) (by simp [ends])
    have firstDigit := isDigits' first (by simp [begins])
    have large := le_ofDigitChars firstDigit (head_withoutZeros_ne begins) rest
    rw [← begins] at large
    have le := le_of_mul_pow_ten_eq noZero same
    rw [begins, List.length_cons, Nat.succ_le_iff]
    exact (Nat.pow_lt_pow_iff_right (by decide)).mp (large.trans_lt (le.trans_lt fits))

end

/-! ## Numerals alone -/

section

variable {numeral : Numeral}

/-- The digits of a numeral, without the point. -/
def Numeral.digits (numeral : Numeral) : List Char :=
  numeral.whole ++ numeral.fraction.getD []

theorem isDigit_of_mem_digits (wellFormed : numeral.IsWellFormed) : ∀ c ∈ numeral.digits, c.isDigit = true := by
  obtain ⟨whole, fraction⟩ := numeral
  obtain ⟨⟨_, digits⟩, fractionDigits⟩ := wellFormed
  intro c mem
  rcases List.mem_append.mp mem with front | behind
  · exact digits c front
  · cases fraction with
    | none => exact absurd behind List.not_mem_nil
    | some fraction => exact (fractionDigits fraction rfl).2 c behind

theorem significantDigits_text (wellFormed : numeral.IsWellFormed) :
    significantDigits (String.ofList numeral.text) = (withoutZeros numeral.digits).length := by
  have isDigits := List.filter_eq_self.mpr (isDigit_of_mem_digits wellFormed)
  obtain ⟨whole, fraction⟩ := numeral
  rw [significantDigits, String.toList_ofList]
  cases fraction with
  | none =>
    rw [Numeral.digits, Option.getD_none, List.append_nil] at *
    rw [Numeral.text, isDigits]
  | some fraction =>
    rw [Numeral.digits, Option.getD_some, List.filter_append] at isDigits
    rw [Numeral.text, List.filter_append, List.filter_cons_of_neg (by decide), isDigits, Numeral.digits,
      Option.getD_some]

/-- A numeral alone is one number. -/
theorem scan_numeral (wellFormed : numeral.IsWellFormed) :
    scan (String.ofList numeral.text) =
      ⟨[Located.toToken ⟨.start, .number numeral⟩ .number (some (.number numeral.value)),
        .endOfInput (Position.start.after numeral.text)], []⟩ := by
  have found : Segment.next? numeral.text = some (.number numeral, []) := by
    have formed : (Segment.number numeral).IsWellFormed := wellFormed
    have found := Segment.next?_of_endsBefore formed (Segment.endsBefore_nil _)
    rwa [List.append_nil] at found
  have alone : segments (String.ofList numeral.text) = [⟨.start, .number numeral⟩] := by
    rw [segments, String.toList_ofList, segmentsFrom_of_next? found, segmentsFrom_nil]
  have tokens := scan_tokens (String.ofList numeral.text)
  have diagnostics := scan_diagnostics (String.ofList numeral.text)
  rw [alone, String.toList_ofList] at tokens
  rw [alone] at diagnostics
  calc scan (String.ofList numeral.text)
      = ⟨(scan (String.ofList numeral.text)).tokens, (scan (String.ofList numeral.text)).diagnostics⟩ := rfl
    _ = _ := by
      rw [tokens, diagnostics]
      rfl

/-- Whether a text is one number with a value, and nothing else. -/
def ScansAs (text : String) (value : Binary64) : Prop :=
  ∃ token, scan text = ⟨[token, .endOfInput (Position.start.after text.toList)], []⟩ ∧ token.kind = .number ∧
    token.literal = some (.number value)

theorem scansAs_numeral_iff (wellFormed : numeral.IsWellFormed) {value : Binary64} :
    ScansAs (String.ofList numeral.text) value ↔ numeral.value = value := by
  constructor
  · rintro ⟨token, scanned, -, literal⟩
    rw [scan_numeral wellFormed, Scan.mk.injEq, List.cons.injEq] at scanned
    obtain ⟨⟨rfl, -⟩, -⟩ := scanned
    exact Literal.number.inj (Option.some.inj literal)
  · intro same
    subst same
    rw [ScansAs, String.toList_ofList, scan_numeral wellFormed]
    exact ⟨_, rfl, rfl, rfl⟩

end

/-! ## What is printed -/

namespace Binary64

variable {x : Binary64} {numeral : Numeral}

/-- The numeral that a value without a sign is printed as. -/
def printed (x : Binary64) : Numeral :=
  if x.isZero then ⟨['0'], none⟩ else x.shortest.numeral

theorem text_eq (finite : x.IsFinite) (notNegative : x.isNegative = false) :
    x.text = String.ofList x.printed.text := by
  rw [text, magnitudeText, printed, finite.1, finite.2, notNegative, if_neg Bool.false_ne_true,
    if_neg Bool.false_ne_true, if_neg Bool.false_ne_true, List.nil_append]
  cases x.isZero with
  | true => rfl
  | false => rw [if_neg Bool.false_ne_true, if_neg Bool.false_ne_true, x.shortest.text_numeral]

theorem isWellFormed_printed (x : Binary64) : x.printed.IsWellFormed := by
  unfold printed
  split
  · exact ⟨⟨nofun, forall_mem_of_all (by decide)⟩, nofun⟩
  · exact x.shortest.isWellFormed_numeral

theorem value_printed (finite : x.IsFinite) (notNegative : x.isNegative = false) : x.printed.value = x := by
  rw [printed]
  cases zero : x.isZero with
  | true =>
    have zero' : (Numeral.mk ['0'] none).value = ⟨0⟩ := by decide +kernel
    rw [if_pos rfl, zero']
    exact eq_of_isZero (by decide) zero (by decide) notNegative
  | false =>
    rw [if_neg Bool.false_ne_true]
    exact value_numeral_shortest finite notNegative zero

/-- No numeral with fewer significant digits has the value. -/
theorem significantDigits_printed_le (finite : x.IsFinite) (notNegative : x.isNegative = false)
    (wellFormed : numeral.IsWellFormed) (same : numeral.value = x) :
    significantDigits (String.ofList x.printed.text) ≤ significantDigits (String.ofList numeral.text) := by
  rw [significantDigits_text wellFormed, significantDigits_text x.isWellFormed_printed]
  cases zero : x.isZero with
  | true =>
    rw [printed, zero, if_pos rfl]
    exact Nat.zero_le _
  | false =>
    have isDigits := isDigit_of_mem_withoutZeros (isDigit_of_mem_digits wellFormed)
    obtain ⟨zeros, split⟩ := exists_ofDigitChars_eq numeral.digits
    have rounded : nearest (Nat.ofDigitChars 10 (withoutZeros numeral.digits) 0 * Nat.pow 10 zeros)
        (Nat.pow 10 (numeral.fraction.getD []).length) = x := by
      rw [Nat.pow_eq, ← split]
      exact same
    have fits := number_shortest_lt finite notNegative zero rounded (ofDigitChars_lt isDigits)
    have printedAs : x.printed = x.shortest.numeral := by
      rw [printed, zero, if_neg Bool.false_ne_true]
    have numerator := x.shortest.parts_numeral.1
    rw [← printedAs] at numerator
    exact length_withoutZeros_le (isDigit_of_mem_digits x.isWellFormed_printed) numerator fits

end Binary64

/-! ## The law -/

/-- **Printed numbers scan back.** Every number of a source has a value; and if that is finite, what is printed for
it is one number with the same value, and no numeral with fewer significant digits is. -/
theorem printed_numbers {source : String} {token : Token} (mem : token ∈ (scan source).tokens)
    (number : token.kind = .number) :
    ∃ value, token.literal = some (.number value) ∧
      (value.IsFinite → ScansAs (Literal.number value).display value ∧
        ∀ numeral : Numeral, numeral.IsWellFormed → ScansAs (String.ofList numeral.text) value →
          significantDigits (Literal.number value).display ≤ significantDigits (String.ofList numeral.text)) := by
  obtain ⟨value, literal⟩ := exists_literal_of_number mem number
  obtain ⟨written, _, _, isValue⟩ := exists_numeral_of_literal ⟨source, mem⟩ literal
  have notNegative : value.isNegative = false := isValue ▸ written.isNearest_value.notNegative
  refine ⟨value, literal, ?_⟩
  intro finite
  have display : (Literal.number value).display = String.ofList value.printed.text :=
    Binary64.text_eq finite notNegative
  rw [display]
  constructor
  · exact (scansAs_numeral_iff value.isWellFormed_printed).mpr (Binary64.value_printed finite notNegative)
  · intro numeral wellFormed scansAs
    have same := (scansAs_numeral_iff wellFormed).mp scansAs
    exact Binary64.significantDigits_printed_le finite notNegative wellFormed same

/-- A number that seventeen digits are printed for. No sixteen have its value. -/
theorem printed_numbers_sum :
    let token : Token := ⟨.number, "0.3000000000000000444", some (.number ⟨0x3FD3333333333334⟩), 1, ⟨0, 21⟩⟩
    token ∈ (scan "0.3000000000000000444").tokens ∧ token.kind = .number ∧
      ScansAs "0.30000000000000004" ⟨0x3FD3333333333334⟩ ∧
      ∀ numeral : Numeral, numeral.IsWellFormed → ScansAs (String.ofList numeral.text) ⟨0x3FD3333333333334⟩ →
        17 ≤ significantDigits (String.ofList numeral.text) := by
  intro token
  have scanned : (scan "0.3000000000000000444").tokens = [token, .endOfInput ⟨21, 1⟩] := by decide +kernel
  have mem : token ∈ (scan "0.3000000000000000444").tokens := scanned ▸ List.mem_cons_self
  have display : (Literal.number ⟨0x3FD3333333333334⟩).display = "0.30000000000000004" := by decide +kernel
  have digits : significantDigits "0.30000000000000004" = 17 := by decide +kernel
  have finite : Binary64.IsFinite ⟨0x3FD3333333333334⟩ := ⟨by decide, by decide⟩
  obtain ⟨value, literal, prints⟩ := printed_numbers mem rfl
  obtain rfl := Literal.number.inj (Option.some.inj literal)
  obtain ⟨scansAs, shortest⟩ := prints finite
  rw [display] at scansAs shortest
  rw [digits] at shortest
  exact ⟨mem, rfl, scansAs, shortest⟩

end LoxLexing
