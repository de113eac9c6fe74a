import LoxLexing.Proofs.Sequence

/-!
# Longest match

A grammar of Lox at the level of characters says which texts belong to which **lexical class**; it knows
nothing of looking ahead. A source is cut by it in one way: at every point the next unit is the longest
prefix of what is left that belongs to any class, and where no prefix belongs to one, a single character,
or all that is left if this character is a quote.

**The law** (`tokens_of_segmentation`): every source has exactly one such segmentation, and its tokens
are those of the units, in order and each at its place, closed by the end of the input.

The work lies in `exists_next?_of_class`: in front of any text that belongs to a class, reading finds a
unit of some class that is at least as long. Since what is read belongs to its class itself, it is the
longest, and it is no stray character where any class has a prefix.
-/

namespace LoxLexing

/-! ## The grammar -/

/-- The lexical classes. A name is a word that is not reserved. A number is told by its digits and a string
by what stands between its quotes, for these decide the value. -/
inductive LexicalClass where
  | operator (op : Operator)
  | reserved (word : Keyword)
  | name
  | number (numeral : Numeral)
  | string (body : List Char)
  | comment
  | blank
deriving DecidableEq, Repr

namespace LexicalClass

/-- Which texts belong to a class. -/
def Contains : LexicalClass → List Char → Prop
  | operator op, text => text = op.spelling
  | reserved word, text => text = word.spelling.toList
  | name, text => IsWord text ∧ ∀ word : Keyword, text ≠ word.spelling.toList
  | number ⟨whole, none⟩, text => IsDigits whole ∧ text = whole
  | number ⟨whole, some fraction⟩, text =>
    IsDigits whole ∧ IsDigits fraction ∧ text = whole ++ '.' :: fraction
  | string body, text => '"' ∉ body ∧ text = '"' :: (body ++ ['"'])
  | comment, text => ∃ body, '\n' ∉ body ∧ text = '/' :: '/' :: body
  | blank, text => ∃ c ∈ [' ', '\t', '\r', '\n'], text = [c]

/-- The kind of the tokens of a class. Comments and white space give none. -/
def kind? : LexicalClass → Option Kind
  | operator op => some (.operator op)
  | reserved word => some (.keyword word)
  | name => some .identifier
  | number _ => some .number
  | string _ => some .string
  | comment | blank => none

/-- The value of the tokens of a class. -/
def literal? : LexicalClass → Option Literal
  | number numeral => some (.number numeral.value)
  | string body => some (.text (String.ofList body))
  | _ => none

end LexicalClass

/-! ## Segmentations -/

/-- A unit of a segmentation, with its class if it was found by one. -/
structure LexicalUnit where
  text : List Char
  matched : Option LexicalClass
deriving DecidableEq, Repr

/-- Whether a text, in front of a rest, is the longest prefix of both that belongs to any class. -/
structure IsLongestMatch (found : LexicalClass) (text rest : List Char) : Prop where
  ne_nil : text ≠ []
  contains : found.Contains text
  longest : ∀ (other : LexicalClass) (longer tail : List Char),
    other.Contains longer → longer ++ tail = text ++ rest → longer.length ≤ text.length

/-- Whether no prefix of a text belongs to any class. -/
def IsUnmatched (input : List Char) : Prop :=
  ∀ (other : LexicalClass) (text rest : List Char), other.Contains text → text ++ rest ≠ input

/-- How a text is cut by longest match. -/
inductive Segmentation : List Char → List LexicalUnit → Prop where
  | ended : Segmentation [] []
  | matched {found : LexicalClass} {text rest : List Char} {units : List LexicalUnit} :
    IsLongestMatch found text rest → Segmentation rest units →
      Segmentation (text ++ rest) (⟨text, some found⟩ :: units)
  | character {c : Char} {rest : List Char} {units : List LexicalUnit} :
    IsUnmatched (c :: rest) → c ≠ '"' → Segmentation rest units →
      Segmentation (c :: rest) (⟨[c], none⟩ :: units)
  | openQuote {rest : List Char} :
    IsUnmatched ('"' :: rest) → Segmentation ('"' :: rest) [⟨'"' :: rest, none⟩]

namespace LexicalUnit

/-- The token of a unit that begins at `here`. -/
def token? (here : Position) (unit : LexicalUnit) : Option Token :=
  unit.matched.bind fun found => found.kind?.map fun kind =>
    ⟨kind, String.ofList unit.text, found.literal?, here.line,
      ⟨here.offset, here.offset + utf8Length unit.text⟩⟩

/-- The tokens of units one after another, the first of which begins at `here`. -/
def tokens (here : Position) : List LexicalUnit → List Token
  | [] => []
  | unit :: units => (unit.token? here).toList ++ tokens (here.after unit.text) units

end LexicalUnit

/-! ## Segments and classes -/

namespace Segment

/-- The class that a segment belongs to, if it is Lox. -/
def class? : Segment → Option LexicalClass
  | operator op => some (.operator op)
  | word text =>
    match Keyword.ofSpelling? (String.ofList text) with
    | some reserved => some (.reserved reserved)
    | none => some .name
  | number numeral => some (.number numeral)
  | quoted body => some (.string body)
  | comment _ => some .comment
  | blank _ => some .blank
  | stray _ | unclosed _ => none

/-- A segment as a unit of a segmentation. -/
def unit (segment : Segment) : LexicalUnit :=
  ⟨segment.text, segment.class?⟩

theorem class?_word_of_spelling {text : List Char} {word : Keyword}
    (spelled : text = word.spelling.toList) : (Segment.word text).class? = some (.reserved word) := by
  rw [class?, spelled, String.ofList_toList, Keyword.ofSpelling?_spelling]

theorem isWord_spelling (word : Keyword) : IsWord word.spelling.toList := by
  have start : word.spelling.toList.head?.any isWordStart = true := by
    cases word <;> decide
  have parts : word.spelling.toList.all isWordPart = true := by
    cases word <;> decide
  exact ⟨(Option.any_eq_true _ _).mp start, List.all_eq_true.mp parts⟩

/-- Only a stray character and a string that is never closed belong to no class. -/
theorem class?_eq_none_cases {segment : Segment} (unclassed : segment.class? = none) :
    (∃ c, segment = .stray c) ∨ ∃ body, segment = .unclosed body := by
  cases segment with
  | stray c => exact .inl ⟨c, rfl⟩
  | unclosed body => exact .inr ⟨body, rfl⟩
  | word text =>
    rw [class?] at unclassed
    split at unclassed <;> cases unclassed
  | _ => cases unclassed

/-- What belongs to a class is the text of a segment. -/
theorem exists_of_contains {found : LexicalClass} {text : List Char} (mem : found.Contains text) :
    ∃ segment : Segment,
      segment.IsWellFormed ∧ segment.text = text ∧ segment.class? = some found := by
  cases found with
  | operator op => exact ⟨.operator op, trivial, mem.symm, rfl⟩
  | reserved word =>
    exact ⟨.word text, mem ▸ isWord_spelling word, rfl, class?_word_of_spelling mem⟩
  | name =>
    refine ⟨.word text, mem.1, rfl, ?_⟩
    cases found : Keyword.ofSpelling? (String.ofList text) with
    | none => simp [class?, found]
    | some reserved =>
      have spelled : reserved.spelling.toList = text := by
        rw [Keyword.spelling_of_ofSpelling? found, String.toList_ofList]
      exact absurd spelled.symm (mem.2 reserved)
  | number numeral =>
    obtain ⟨whole, fraction⟩ := numeral
    cases fraction with
    | none => exact ⟨.number ⟨whole, none⟩, ⟨mem.1, by simp⟩, mem.2.symm, rfl⟩
    | some fraction =>
      exact ⟨.number ⟨whole, some fraction⟩, ⟨mem.1, by simpa using mem.2.1⟩, mem.2.2.symm, rfl⟩
  | string body => exact ⟨.quoted body, mem.1, mem.2.symm, rfl⟩
  | comment =>
    obtain ⟨body, oneLine, rfl⟩ := mem
    exact ⟨.comment body, oneLine, rfl, rfl⟩
  | blank =>
    obtain ⟨c, blank, rfl⟩ := mem
    exact ⟨.blank c, isBlank_iff.mpr blank, rfl, rfl⟩

/-- The text of a segment belongs to the segment's class. -/
theorem contains_of_class? {segment : Segment} {found : LexicalClass}
    (wellFormed : segment.IsWellFormed) (classed : segment.class? = some found) :
    found.Contains segment.text := by
  cases segment with
  | word text =>
    cases spelled : Keyword.ofSpelling? (String.ofList text) with
    | some reserved =>
      simp only [class?, spelled, Option.some.injEq] at classed
      subst classed
      show text = reserved.spelling.toList
      rw [Keyword.spelling_of_ofSpelling? spelled, String.toList_ofList]
    | none =>
      simp only [class?, spelled, Option.some.injEq] at classed
      subst classed
      refine ⟨wellFormed, ?_⟩
      rintro word rfl
      simp [String.ofList_toList, Keyword.ofSpelling?_spelling] at spelled
  | number numeral =>
    cases classed
    obtain ⟨whole, fraction⟩ := numeral
    cases fraction with
    | none => exact ⟨wellFormed.1, rfl⟩
    | some fraction => exact ⟨wellFormed.1, wellFormed.2 fraction rfl, rfl⟩
  | operator op => cases classed; rfl
  | quoted body => cases classed; exact ⟨wellFormed, rfl⟩
  | comment body => cases classed; exact ⟨body, wellFormed, rfl⟩
  | blank c => cases classed; exact ⟨c, isBlank_iff.mp wellFormed, rfl⟩
  | stray c => cases classed
  | unclosed body => cases classed

/-! ## Reading is longest match -/

theorem exists_readOperator {c : Char} (mark : c ∈ punctuation) (rest : List Char) :
    ∃ op rest', readOperator c rest = (operator op, rest') := by
  unfold readOperator
  split
  · exact ⟨_, _, rfl⟩
  · obtain ⟨op, found⟩ := Operator.exists_ofSpelling?_singleton c mark
    simp [found]

theorem exists_readNumeral {numeral : Numeral} (wellFormed : numeral.IsWellFormed)
    (rest : List Char) :
    ∃ longer rest', readNumeral (numeral.text ++ rest) = (number longer, rest') ∧
      numeral.text.length ≤ longer.text.length := by
  obtain ⟨whole, fraction⟩ := numeral
  obtain ⟨⟨_, digits⟩, behind⟩ := wellFormed
  cases fraction with
  | none =>
    have taken : (whole ++ rest).takeWhile Char.isDigit = whole ++ rest.takeWhile Char.isDigit :=
      List.takeWhile_append_of_pos digits
    simp only [Numeral.text, readNumeral, taken]
    split
    · split
      · exact ⟨_, _, rfl, by simp⟩
      · exact ⟨_, _, rfl, by simp⟩
    · exact ⟨_, _, rfl, by simp⟩
  | some fraction =>
    obtain ⟨notEmpty, digits'⟩ := behind fraction rfl
    obtain ⟨first, tail, rfl⟩ := List.exists_cons_of_ne_nil notEmpty
    have taken : (first :: (tail ++ rest)).takeWhile Char.isDigit
        = first :: tail ++ rest.takeWhile Char.isDigit := List.takeWhile_append_of_pos digits'
    rw [Numeral.text, List.append_assoc, List.cons_append, List.cons_append,
      readNumeral_point digits (digits' first List.mem_cons_self), taken]
    exact ⟨_, _, rfl, by simp [Numeral.text]⟩

/-- In front of a text that belongs to a class, reading finds a segment of some class that is at least
as long. -/
theorem exists_next?_of_class {segment : Segment} (wellFormed : segment.IsWellFormed)
    (classed : segment.class?.isSome) (rest : List Char) :
    ∃ longer rest', next? (segment.text ++ rest) = some (longer, rest') ∧ longer.class?.isSome ∧
      segment.text.length ≤ longer.text.length := by
  cases segment with
  | operator op =>
    rcases op.spelling_cases with ⟨c, mark, single⟩ | ⟨c, mark, double, _, never⟩
    · rw [text, single, List.cons_append, List.nil_append, next?]
      rcases read_of_mem_punctuation mark rest with ⟨rfl, tail, rfl⟩ | ⟨_, reads⟩
      · exact ⟨_, _, by rw [read_slashes], rfl, by simp [text]⟩
      · obtain ⟨longer, rest', reads'⟩ := exists_readOperator mark rest
        refine ⟨_, _, by rw [reads, reads'], rfl, ?_⟩
        exact List.length_pos_iff.mpr longer.spelling_ne_nil
    · have ends : (operator op).EndsBefore rest := fun d _ => never d
      exact ⟨_, _, next?_of_endsBefore wellFormed ends, rfl, Nat.le_refl _⟩
  | word word =>
    obtain ⟨c, tail, rfl, start, parts⟩ := IsWord.exists_eq_cons wellFormed
    refine ⟨_, _, by rw [text, List.cons_append, next?, read_of_isWordStart start], ?_, ?_⟩
    · rw [class?]
      split <;> rfl
    · simp [text, List.takeWhile_append_of_pos parts]
  | number numeral =>
    obtain ⟨c, tail, spelled, digit⟩ := Numeral.exists_text_eq_cons wellFormed
    obtain ⟨longer, rest', reads, length⟩ := exists_readNumeral wellFormed rest
    rw [spelled, List.cons_append] at reads
    exact ⟨number longer, rest',
      by rw [text, spelled, List.cons_append, next?, read_of_isDigit digit, reads], rfl, length⟩
  | comment body =>
    have run := forall_mem_bne_iff.mpr wellFormed
    refine ⟨_, _, by rw [text, List.cons_append, List.cons_append, next?, read_slashes], rfl, ?_⟩
    simp [text, List.takeWhile_append_of_pos run]
  | quoted body => exact ⟨_, _, next?_of_endsBefore wellFormed trivial, rfl, Nat.le_refl _⟩
  | blank c => exact ⟨_, _, next?_of_endsBefore wellFormed trivial, rfl, Nat.le_refl _⟩
  | stray c => cases classed
  | unclosed body => cases classed

/-- What is read and belongs to a class is the longest match. -/
theorem isLongestMatch_of_next? {segment : Segment} {rest : List Char} {found : LexicalClass}
    (reads : next? (segment.text ++ rest) = some (segment, rest))
    (classed : segment.class? = some found) : IsLongestMatch found segment.text rest := by
  obtain ⟨wellFormed, _, _⟩ := next?_eq_some_iff.mp reads
  refine ⟨text_ne_nil_of_next? reads, contains_of_class? wellFormed classed, ?_⟩
  intro other longer tail mem same
  obtain ⟨candidate, formed, rfl, classed'⟩ := exists_of_contains mem
  obtain ⟨found', rest', reads', _, length⟩ :=
    exists_next?_of_class formed (by rw [classed']; rfl) tail
  rw [same, reads] at reads'
  obtain ⟨rfl, rfl⟩ := Prod.mk.inj (Option.some.inj reads')
  exact length

/-- What is read and belongs to no class is read because no class has a prefix there. -/
theorem isUnmatched_of_next? {input rest : List Char} {segment : Segment}
    (reads : next? input = some (segment, rest)) (unclassed : segment.class? = none) :
    IsUnmatched input := by
  intro other text tail mem same
  obtain ⟨candidate, formed, rfl, classed⟩ := exists_of_contains mem
  obtain ⟨found', rest', reads', classed', _⟩ :=
    exists_next?_of_class formed (by rw [classed]; rfl) tail
  rw [same, reads] at reads'
  obtain ⟨rfl, rfl⟩ := Prod.mk.inj (Option.some.inj reads')
  rw [unclassed] at classed'
  cases classed'

/-- The longest match is what is read. -/
theorem next?_of_isLongestMatch {found : LexicalClass} {text rest : List Char}
    (longest : IsLongestMatch found text rest) :
    ∃ segment : Segment, next? (text ++ rest) = some (segment, rest) ∧ segment.text = text ∧
      segment.class? = some found := by
  obtain ⟨candidate, formed, rfl, classed⟩ := exists_of_contains longest.contains
  obtain ⟨segment, rest', reads, classed', length⟩ :=
    exists_next?_of_class formed (by rw [classed]; rfl) rest
  obtain ⟨wellFormed, _, same⟩ := next?_eq_some_iff.mp reads
  obtain ⟨found', classed'⟩ := Option.isSome_iff_exists.mp classed'
  have length' := longest.longest found' _ rest' (contains_of_class? wellFormed classed') same
  obtain ⟨sameText, rfl⟩ := List.append_inj same (Nat.le_antisymm length' length)
  obtain rfl := eq_of_text_eq wellFormed formed sameText
  exact ⟨segment, reads, rfl, classed⟩

/-- Where no class has a prefix, what is read belongs to none. -/
theorem class?_eq_none_of_isUnmatched {input rest : List Char} {segment : Segment}
    (unmatched : IsUnmatched input) (reads : next? input = some (segment, rest)) :
    segment.class? = none := by
  obtain ⟨wellFormed, _, same⟩ := next?_eq_some_iff.mp reads
  cases classed : segment.class? with
  | none => rfl
  | some found => exact absurd same (unmatched found _ _ (contains_of_class? wellFormed classed))

end Segment

/-! ## The segmentation of a source -/

/-- The units of a text, as it is read. -/
def unitsOf (input : List Char) : List LexicalUnit :=
  (Segment.sequence input).map Segment.unit

@[simp] theorem unitsOf_nil : unitsOf [] = [] := by
  simp [unitsOf]

theorem unitsOf_of_next? {input rest : List Char} {segment : Segment}
    (reads : Segment.next? input = some (segment, rest)) :
    unitsOf input = segment.unit :: unitsOf rest := by
  rw [unitsOf, Segment.sequence_of_next? reads, List.map_cons, unitsOf]

/-- Reading cuts every text by longest match. -/
theorem segmentation_unitsOf (input : List Char) : Segmentation input (unitsOf input) := by
  induction input using Segment.next?_induction with
  | ended => exact unitsOf_nil ▸ .ended
  | @step segment rest reads wellFormed ends ih =>
    rw [unitsOf_of_next? reads]
    cases classed : segment.class? with
    | some found =>
      rw [Segment.unit, classed]
      exact .matched (Segment.isLongestMatch_of_next? reads classed) ih
    | none =>
      have unmatched := Segment.isUnmatched_of_next? reads classed
      rcases Segment.class?_eq_none_cases classed with ⟨c, rfl⟩ | ⟨body, rfl⟩
      · have notQuote := (isForeign_iff.mp wellFormed).2.2.1
        exact .character unmatched notQuote ih
      · obtain rfl : rest = [] := ends
        rw [List.append_nil] at unmatched ⊢
        exact unitsOf_nil ▸ .openQuote unmatched

/-- There is no other way to cut a text by longest match. -/
theorem Segmentation.eq_unitsOf {input : List Char} {units : List LexicalUnit}
    (cut : Segmentation input units) : units = unitsOf input := by
  induction cut with
  | ended => simp
  | matched longest _ ih =>
    obtain ⟨segment, reads, rfl, classed⟩ := Segment.next?_of_isLongestMatch longest
    rw [unitsOf_of_next? reads, Segment.unit, classed, ih]
  | @character c rest units unmatched notQuote _ ih =>
    obtain ⟨segment, rest', reads⟩ := Segment.exists_next?_cons c rest
    obtain ⟨_, _, same⟩ := Segment.next?_eq_some_iff.mp reads
    rw [unitsOf_of_next? reads]
    rcases Segment.class?_eq_none_cases (Segment.class?_eq_none_of_isUnmatched unmatched reads) with
      ⟨d, rfl⟩ | ⟨body, rfl⟩
    · obtain ⟨rfl, rfl⟩ := List.cons.inj same
      rw [ih]
      rfl
    · exact absurd (List.cons.inj same).1.symm notQuote
  | @openQuote rest unmatched =>
    obtain ⟨segment, rest', reads⟩ := Segment.exists_next?_cons '"' rest
    obtain ⟨wellFormed, ends, same⟩ := Segment.next?_eq_some_iff.mp reads
    rw [unitsOf_of_next? reads]
    rcases Segment.class?_eq_none_cases (Segment.class?_eq_none_of_isUnmatched unmatched reads) with
      ⟨d, rfl⟩ | ⟨body, rfl⟩
    · have notQuote := (isForeign_iff.mp wellFormed).2.2.1
      exact absurd (List.cons.inj same).1 notQuote
    · obtain rfl : rest' = [] := ends
      rw [List.append_nil] at same
      rw [← same, unitsOf_nil]
      rfl

/-! ## The tokens of a source -/

/-- The token of a segment is that of its unit. -/
theorem Segment.token?_unit (here : Position) (segment : Segment) :
    segment.unit.token? here = Located.token? ⟨here, segment⟩ := by
  cases segment with
  | word text =>
    simp only [Segment.unit, Segment.class?, LexicalUnit.token?, Located.token?, Kind.ofWord]
    cases Keyword.ofSpelling? (String.ofList text) <;> rfl
  | _ => rfl

theorem tokens_map_unit (here : Position) (segments : List Segment) :
    LexicalUnit.tokens here (segments.map Segment.unit)
      = (Segment.locate here segments).filterMap Located.token? := by
  induction segments generalizing here with
  | nil => rfl
  | cons segment segments ih =>
    rw [List.map_cons, LexicalUnit.tokens, Segment.token?_unit, Segment.locate]
    cases given : Located.token? ⟨here, segment⟩ with
    | none => rw [List.filterMap_cons_none given, ← ih]; rfl
    | some token => rw [List.filterMap_cons_some given, ← ih]; rfl

/-- **Maximal munch.** A source has exactly one segmentation by longest match, and its tokens are those
of the units, each at its place, closed by the end of the input. -/
theorem tokens_of_segmentation (source : String) :
    ∃ units, Segmentation source.toList units ∧
      (∀ other, Segmentation source.toList other → other = units) ∧
      (scan source).tokens
        = LexicalUnit.tokens .start units ++ [.endOfInput (Position.start.after source.toList)] := by
  refine ⟨unitsOf source.toList, segmentation_unitsOf _, fun other cut => cut.eq_unitsOf, ?_⟩
  rw [scan_tokens, segments, Segment.segmentsFrom_eq_locate, unitsOf, tokens_map_unit]

end LoxLexing
