import LoxLexing.Proofs.Neighbours
import LoxLexing.Proofs.Rendering

/-!
# The values of numbers

A numeral denotes a rational number (`Numeral.toRat`), and as a literal it has the binary64 value nearest to it.

**The law** (`number_of_scan`): every number of a source is digits, or digits on both sides of a point, and its
value is the nearest one to what these denote, and the only such value: never a NaN, without a sign, and infinite
just if the number is too large. The same value comes out of a reader for decimal text in general, which may fail
(`Binary64.ofText?`); it never fails here, so what would stand in for a failure decides nothing.

Hence tokens can be compared. Among values that no scan gives, a NaN differs from itself and the zeros are equal;
among those that scans do give, `==` is equality (`Token.IsScan.beq_iff`).
-/

namespace LoxLexing

/-! ## What a numeral denotes -/

namespace Numeral

variable {numeral : Numeral}

/-- The number in front of the point, and behind it as many decimal places as there are digits. -/
def toRat (numeral : Numeral) : ℚ :=
  Nat.ofDigitChars 10 numeral.whole 0
    + Nat.ofDigitChars 10 (numeral.fraction.getD []) 0 / 10 ^ (numeral.fraction.getD []).length

theorem denominator_pos (numeral : Numeral) : 0 < numeral.denominator :=
  Nat.pow_pos (by decide)

theorem toRat_eq (numeral : Numeral) : numeral.toRat = numeral.numerator / numeral.denominator := by
  have places : (10 : ℚ) ^ (numeral.fraction.getD []).length ≠ 0 := by positivity
  unfold toRat numerator denominator
  generalize numeral.fraction.getD [] = fraction at *
  have joined : Nat.ofDigitChars 10 (numeral.whole ++ fraction) 0
      = 10 ^ fraction.length * Nat.ofDigitChars 10 numeral.whole 0 + Nat.ofDigitChars 10 fraction 0 := by
    rw [Nat.ofDigitChars_append, Nat.ofDigitChars_eq_ofDigitChars_zero]
  rw [joined, Nat.pow_eq]
  push_cast
  field_simp

/-- The value of a numeral is nearest to what it denotes. -/
theorem isNearest_value (numeral : Numeral) : Binary64.IsNearest numeral.toRat numeral.value := by
  rw [toRat_eq]
  exact Binary64.isNearest_nearest numeral.numerator numeral.denominator_pos

end Numeral

/-! ## Decimal text in general -/

namespace Binary64

/-- A run of digits as a number. -/
def digits? (text : List Char) : Option Nat :=
  if text ≠ [] ∧ text.all Char.isDigit then some (Nat.ofDigitChars 10 text 0) else none

/-- The power of ten behind a decimal number, if there is one. -/
def exponent? : List Char → Option ℤ
  | [] => some 0
  | mark :: text =>
    if mark = 'e' ∨ mark = 'E' then
      match text with
      | '-' :: text => (digits? text).map fun n => -n
      | '+' :: text => (digits? text).map fun n => n
      | text => (digits? text).map fun n => n
    else none

/-- A decimal number without a sign. There may be no digits on one side of the point. -/
def decimal? (text : List Char) : Option Binary64 :=
  let whole := text.takeWhile Char.isDigit
  let behind := text.dropWhile Char.isDigit
  let point := behind.head? = some '.'
  let fraction := if point then behind.tail.takeWhile Char.isDigit else []
  let rest := if point then behind.tail.dropWhile Char.isDigit else behind
  if whole ++ fraction = [] then none
  else (exponent? rest).map fun exponent =>
    nearest (Nat.ofDigitChars 10 (whole ++ fraction) 0 * Nat.pow 10 exponent.toNat)
      (Nat.pow 10 fraction.length * Nat.pow 10 (-exponent).toNat)

/-- A magnitude: a decimal number, or one of the names for what is no finite number, in any case. -/
def magnitude? (text : List Char) : Option Binary64 :=
  let name := text.map Char.toLower
  if name = ['i', 'n', 'f'] ∨ name = ['i', 'n', 'f', 'i', 'n', 'i', 't', 'y'] then some infinity
  else if name = ['n', 'a', 'n'] then some ⟨0x7FF8000000000000⟩
  else decimal? text

/-- The value that a text stands for, with an optional sign, if it stands for one. -/
def ofText? (text : List Char) : Option Binary64 :=
  match text with
  | '-' :: text => (magnitude? text).map fun x => ⟨x.bits ^^^ 0x8000000000000000⟩
  | '+' :: text => magnitude? text
  | text => magnitude? text

section

variable {c : Char} {rest : List Char} {numeral : Numeral}

theorem toLower_of_isDigit (digit : c.isDigit = true) : c.toLower = c := by
  have small : c.val.toNat ≤ 57 := (isDigit_iff.mp digit).2
  have noCapital : ¬ (c.val ≥ 'A'.val ∧ c.val ≤ 'Z'.val) := by
    intro capital
    have large : 'A'.val.toNat ≤ c.val.toNat := UInt32.le_iff_toNat_le.mp capital.1
    have bound : 'A'.val.toNat = 65 := rfl
    omega
  exact dif_neg noCapital

/-- What begins with a digit has no sign and is not one of the names. -/
theorem ofText?_of_isDigit (digit : c.isDigit = true) : ofText? (c :: rest) = decimal? (c :: rest) := by
  have signs : ∀ c ∈ ['-', '+', 'i', 'n'], c.isDigit = false := forall_mem_of_all (by decide)
  have notName (first : Char) (among : first ∈ ['-', '+', 'i', 'n']) : c ≠ first := by
    rintro rfl
    rw [signs c among] at digit
    cases digit
  have notI := notName 'i' (by decide)
  have notN := notName 'n' (by decide)
  have magnitude : magnitude? (c :: rest) = decimal? (c :: rest) := by
    unfold magnitude?
    simp only [List.map_cons, toLower_of_isDigit digit, List.cons.injEq, notI, notN, false_and, or_self,
      if_false]
  rw [← magnitude]
  unfold ofText?
  split
  · rename_i same
    exact absurd (List.cons.inj same).1 (notName '-' (by decide))
  · rename_i same
    exact absurd (List.cons.inj same).1 (notName '+' (by decide))
  · rfl

theorem decimal?_text (wellFormed : numeral.IsWellFormed) : decimal? numeral.text = some numeral.value := by
  obtain ⟨whole, fraction⟩ := numeral
  obtain ⟨⟨notEmpty, digits⟩, fractionDigits⟩ := wellFormed
  cases fraction with
  | none =>
    have taken := takeWhile_append_of_stops digits (stops_nil Char.isDigit)
    have dropped := dropWhile_append_of_stops digits (stops_nil Char.isDigit)
    rw [List.append_nil] at taken dropped
    unfold decimal? Numeral.text
    simp [taken, dropped, notEmpty, exponent?, Numeral.value, Numeral.numerator, Numeral.denominator]
  | some fraction =>
    have ends : Stops Char.isDigit ('.' :: fraction) := stops_cons.mpr (by decide)
    have taken := takeWhile_append_of_stops digits ends
    have dropped := dropWhile_append_of_stops digits ends
    have fractionTaken := takeWhile_append_of_stops (fractionDigits fraction rfl).2 (stops_nil Char.isDigit)
    have fractionDropped := dropWhile_append_of_stops (fractionDigits fraction rfl).2 (stops_nil Char.isDigit)
    rw [List.append_nil] at fractionTaken fractionDropped
    unfold decimal? Numeral.text
    simp [taken, dropped, fractionTaken, fractionDropped, notEmpty, exponent?, Numeral.value, Numeral.numerator,
      Numeral.denominator]

/-- A numeral is decimal text, and its value is that of this text. -/
theorem ofText?_text (wellFormed : numeral.IsWellFormed) : ofText? numeral.text = some numeral.value := by
  obtain ⟨c, rest, begins, digit⟩ := numeral.exists_text_eq_cons wellFormed
  rw [begins, ofText?_of_isDigit digit, ← begins, decimal?_text wellFormed]

example : ofText? "-.5e+1".toList = some ⟨0xC014000000000000⟩ ∧ ofText? "1e".toList = none := by
  decide +kernel

end

/-! ## Comparison -/

section

variable {x y : Binary64}

/-- Without a sign there is one zero. -/
theorem eq_of_isZero (zeroX : x.isZero = true) (zeroY : y.isZero = true) (notNegativeX : x.isNegative = false)
    (notNegativeY : y.isNegative = false) : x = y := by
  have sizeX : x.bits.toNat < 18446744073709551616 := x.bits.toNat_lt
  have sizeY : y.bits.toNat < 18446744073709551616 := y.bits.toNat_lt
  simp only [isZero, isNegative, exponentField, fractionField, pow_fraction, pow_exponent, pow_magnitude,
    Bool.and_eq_true, beq_iff_eq, beq_eq_false_iff_ne] at *
  have same : x.bits.toNat = y.bits.toNat := by omega
  rw [← ofPattern_toNat x, same, ofPattern_toNat]

/-- Values that are nearest to something compare as their bits do. -/
theorem beq_iff_of_isNearest {p q : ℚ} (left : IsNearest p x) (right : IsNearest q y) :
    (x == y) = true ↔ x = y := by
  show (!x.isNaN && !y.isNaN && (x.bits == y.bits || (x.isZero && y.isZero))) = true ↔ x = y
  rw [left.notNaN, right.notNaN, Bool.not_false, Bool.true_and, Bool.true_and, Bool.or_eq_true, beq_iff_eq,
    Bool.and_eq_true]
  constructor
  · rintro (same | ⟨zeroX, zeroY⟩)
    · cases x
      cases y
      exact congrArg Binary64.mk same
    · exact eq_of_isZero zeroX zeroY left.notNegative right.notNegative
  · rintro rfl
    exact .inl rfl

end

end Binary64

/-! ## Tokens -/

/-- Whether a token is one of a scan, be it the end of the input. -/
def Token.IsOfScan (token : Token) : Prop :=
  ∃ source, token ∈ (scan source).tokens

section

variable {source : String} {token left right : Token}

/-- A number literal is the value of a numeral that is the lexeme. -/
theorem exists_numeral_of_literal (scanned : token.IsOfScan) {value : Binary64}
    (literal : token.literal = some (.number value)) :
    ∃ numeral : Numeral, numeral.IsWellFormed ∧ token.lexeme = String.ofList numeral.text ∧
      value = numeral.value := by
  obtain ⟨source, mem⟩ := scanned
  rcases mem_scan_tokens.mp mem with ⟨⟨here, segment⟩, among, given⟩ | rfl
  · have wellFormed := isWellFormed_of_mem_segmentsFrom among
    cases segment with
    | number numeral =>
      obtain rfl := Option.some.inj given
      have same := Literal.number.inj (Option.some.inj literal)
      exact ⟨numeral, wellFormed, rfl, same.symm⟩
    | operator op => cases given; cases literal
    | word text => cases given; cases literal
    | quoted body => cases given; cases literal
    | _ => cases given
  · cases literal

/-- A number has a number literal. -/
theorem exists_literal_of_number (mem : token ∈ (scan source).tokens) (number : token.kind = .number) :
    ∃ value, token.literal = some (.number value) := by
  rcases mem_scan_tokens.mp mem with ⟨⟨here, segment⟩, _, given⟩ | rfl
  · cases segment with
    | number numeral => obtain rfl := Option.some.inj given; exact ⟨_, rfl⟩
    | word text =>
      cases given
      simp only [Located.toToken, Kind.ofWord] at number
      cases found : Keyword.ofSpelling? (String.ofList text) with
      | none => rw [found] at number; cases number
      | some keyword => rw [found] at number; cases number
    | operator op => cases given; cases number
    | quoted body => cases given; cases number
    | _ => cases given
  · cases number

/-- Literals of scans compare by equality. -/
theorem literal_beq_iff (leftScanned : left.IsOfScan) (rightScanned : right.IsOfScan) :
    (left.literal == right.literal) = true ↔ left.literal = right.literal := by
  have numbers (x y : Binary64) : (some (Literal.number x) == some (.number y)) = (x == y) := rfl
  have texts (x y : String) : (some (Literal.text x) == some (.text y)) = (x == y) := rfl
  cases leftLiteral : left.literal with
  | none =>
    cases right.literal with
    | none => exact iff_of_true rfl rfl
    | some literal => exact iff_of_false Bool.false_ne_true nofun
  | some first =>
    cases rightLiteral : right.literal with
    | none => exact iff_of_false Bool.false_ne_true nofun
    | some second =>
      cases first with
      | text first =>
        cases second with
        | text second => rw [texts, beq_iff_eq, Option.some.injEq, Literal.text.injEq]
        | number second => exact iff_of_false Bool.false_ne_true nofun
      | number first =>
        cases second with
        | text second => exact iff_of_false Bool.false_ne_true nofun
        | number second =>
          obtain ⟨numeral, _, _, isLeft⟩ := exists_numeral_of_literal leftScanned leftLiteral
          obtain ⟨numeral', _, _, isRight⟩ := exists_numeral_of_literal rightScanned rightLiteral
          have nearest : Binary64.IsNearest numeral.toRat first := isLeft ▸ numeral.isNearest_value
          have nearest' : Binary64.IsNearest numeral'.toRat second := isRight ▸ numeral'.isNearest_value
          rw [numbers, Binary64.beq_iff_of_isNearest nearest nearest', Option.some.injEq, Literal.number.injEq]

/-- Tokens of scans compare by equality of kind, lexeme, literal, line and span. -/
theorem token_beq_iff (leftScanned : left.IsOfScan) (rightScanned : right.IsOfScan) :
    (left == right) = true ↔ left.kind = right.kind ∧ left.lexeme = right.lexeme ∧
      left.literal = right.literal ∧ left.line = right.line ∧ left.span = right.span := by
  show (left.kind == right.kind && (left.lexeme == right.lexeme && (left.literal == right.literal
    && (left.line == right.line && left.span == right.span)))) = true ↔ _
  rw [Bool.and_eq_true, Bool.and_eq_true, Bool.and_eq_true, Bool.and_eq_true,
    literal_beq_iff leftScanned rightScanned, beq_iff_eq, beq_iff_eq, beq_iff_eq, beq_iff_eq]

theorem token_beq_iff_eq (leftScanned : left.IsOfScan) (rightScanned : right.IsOfScan) :
    (left == right) = true ↔ left = right := by
  rw [token_beq_iff leftScanned rightScanned]
  cases left
  cases right
  rw [Token.mk.injEq]

/-- So comparing them is an equivalence. -/
theorem equivalence_beq :
    Equivalence fun left right : {token : Token // token.IsOfScan} => (left.val == right.val) = true where
  refl token := (token_beq_iff_eq token.property token.property).mpr rfl
  symm {left right} same := by
    rw [token_beq_iff_eq left.property right.property] at same
    rw [token_beq_iff_eq right.property left.property]
    exact same.symm
  trans {left middle right} first second := by
    rw [token_beq_iff_eq left.property middle.property] at first
    rw [token_beq_iff_eq middle.property right.property] at second
    rw [token_beq_iff_eq left.property right.property]
    exact first.trans second

end

/-! ## The law -/

/-- **The values of numbers.** Every number of a source is digits, or digits on both sides of a point. Its value is
the nearest one to what these denote, of two the even one; it is a number, has no sign, and is infinite just if the
number is too large; and whatever stands in for text that cannot be read, it is what the lexeme is read as. So
tokens compare by equality of all their fields. -/
theorem number_of_scan :
    (∀ (source : String), ∀ token ∈ (scan source).tokens, token.kind = .number →
      ∃ (numeral : Numeral) (value : Binary64),
        numeral.IsWellFormed ∧ token.lexeme = String.ofList numeral.text ∧ token.literal = some (.number value) ∧
        Binary64.IsNearest numeral.toRat value ∧
        (∀ other, Binary64.IsNearest numeral.toRat other → other = value) ∧
        (value = .infinity ↔ (2 : ℚ) ^ 1024 - 2 ^ 970 ≤ numeral.toRat) ∧
        ∀ fallback, (Binary64.ofText? token.lexeme.toList).getD fallback = value) ∧
      (∀ left right : Token, left.IsOfScan → right.IsOfScan →
        ((left == right) = true ↔ left.kind = right.kind ∧ left.lexeme = right.lexeme ∧
          left.literal = right.literal ∧ left.line = right.line ∧ left.span = right.span)) ∧
      Equivalence fun left right : {token : Token // token.IsOfScan} => (left.val == right.val) = true := by
  refine ⟨?_, fun _ _ => token_beq_iff, equivalence_beq⟩
  intro source token mem number
  obtain ⟨value, literal⟩ := exists_literal_of_number mem number
  obtain ⟨numeral, wellFormed, lexeme, same⟩ := exists_numeral_of_literal ⟨source, mem⟩ literal
  have nearest : Binary64.IsNearest numeral.toRat value := same ▸ numeral.isNearest_value
  refine ⟨numeral, value, wellFormed, lexeme, literal, nearest, ?_, ?_, ?_⟩
  · intro other isNearest
    exact isNearest.unique nearest
  · rw [← Binary64.isInfinite_iff_eq nearest.notNegative, nearest.isInfinite_iff]
  · intro fallback
    rw [lexeme, String.toList_ofList, Binary64.ofText?_text wellFormed, Option.getD_some, same]

/-- A number midway between two values, and one that has the same value and is another token. -/
theorem number_of_scan_tie :
    let tie : Token := ⟨.number, "4503599627370497.5", some (.number ⟨0x4330000000000002⟩), 1, ⟨0, 18⟩⟩
    let whole : Token := ⟨.number, "4503599627370498", some (.number ⟨0x4330000000000002⟩), 1, ⟨0, 16⟩⟩
    tie ∈ (scan "4503599627370497.5").tokens ∧ tie.kind = .number ∧ tie.IsOfScan ∧ whole.IsOfScan ∧
      (∃ numeral : Numeral, numeral.IsWellFormed ∧ tie.lexeme = String.ofList numeral.text ∧
        Binary64.IsNearest numeral.toRat ⟨0x4330000000000002⟩) ∧
      (tie == tie) = true ∧ ¬ (tie == whole) = true := by
  intro tie whole
  have scanned : (scan "4503599627370497.5").tokens = [tie, .endOfInput ⟨18, 1⟩] := by decide +kernel
  have scanned' : (scan "4503599627370498").tokens = [whole, .endOfInput ⟨16, 1⟩] := by decide +kernel
  have mem : tie ∈ (scan "4503599627370497.5").tokens := scanned ▸ List.mem_cons_self
  have isOfScan : tie.IsOfScan := ⟨_, mem⟩
  have isOfScan' : whole.IsOfScan := ⟨_, scanned' ▸ List.mem_cons_self⟩
  obtain ⟨numbers, compares, _⟩ := number_of_scan
  obtain ⟨numeral, value, wellFormed, lexeme, literal, nearest, _⟩ := numbers _ tie mem rfl
  have same := Literal.number.inj (Option.some.inj literal)
  rw [← same] at nearest
  refine ⟨mem, rfl, isOfScan, isOfScan', ⟨numeral, wellFormed, lexeme, nearest⟩, ?_, ?_⟩
  · exact (compares tie tie isOfScan isOfScan).mpr ⟨rfl, rfl, rfl, rfl, rfl⟩
  · rw [compares tie whole isOfScan isOfScan']
    rintro ⟨_, lexemes, _⟩
    exact absurd lexemes (by decide)

end LoxLexing
