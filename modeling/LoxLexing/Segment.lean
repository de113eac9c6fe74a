import LoxLexing.Kind
import LoxLexing.Numeral
import LoxLexing.Position

/-!
# Segments

A source falls into **segments**: operators, words, numerals, strings, comments, single blanks, and the
two kinds of text that are no Lox, a stray character and a string that is never closed. A segment keeps
exactly the characters that it was read from, so that its text can always be given back.

`Segment.next?` reads the segment at the head of a text. Its laws say that nothing is lost
(`text_append_of_next?`), that every step gets ahead (`length_lt_of_next?`) and that it stops at the end
of the text only (`next?_eq_none_iff`). Which segment comes next depends on the text ahead alone, never
on what was read before.
-/

namespace LoxLexing

/-- A piece of a source that is read in one step. -/
inductive Segment where
  | operator (op : Operator)
  | word (text : List Char)
  | number (numeral : Numeral)
  /-- A string literal, given by what stands between its quotes. -/
  | quoted (body : List Char)
  /-- A comment, given by what follows the two slashes. The line end is not part of it. -/
  | comment (body : List Char)
  | blank (c : Char)
  /-- A character that begins no other segment. -/
  | stray (c : Char)
  /-- A quote that is never closed, given by what follows it: all of the remaining source. -/
  | unclosed (body : List Char)
deriving DecidableEq, Repr

/-! ## Character classes -/

/-- The white space of Lox: space, tab, carriage return, line feed. -/
def isBlank (c : Char) : Bool :=
  c == ' ' || c == '\t' || c == '\r' || c == '\n'

/-- What a word begins with: an ASCII letter or an underscore. -/
def isWordStart (c : Char) : Bool :=
  c.isAlpha || c == '_'

/-- What a word goes on with: an ASCII letter, an ASCII digit or an underscore. -/
def isWordPart (c : Char) : Bool :=
  isWordStart c || c.isDigit

namespace Segment

/-- The characters of a segment. -/
def text : Segment → List Char
  | operator op => op.spelling
  | word text => text
  | number numeral => numeral.text
  | quoted body => '"' :: (body ++ ['"'])
  | comment body => '/' :: '/' :: body
  | blank c => [c]
  | stray c => [c]
  | unclosed body => '"' :: body

/-! ## Reading a segment -/

/-- Reads a numeral. A point belongs to it only if a digit follows. -/
def readNumeral (input : List Char) : Segment × List Char :=
  let whole := input.takeWhile Char.isDigit
  match input.dropWhile Char.isDigit with
  | '.' :: digit :: rest =>
    if digit.isDigit then
      (number ⟨whole, some ((digit :: rest).takeWhile Char.isDigit)⟩,
        (digit :: rest).dropWhile Char.isDigit)
    else (number ⟨whole, none⟩, '.' :: digit :: rest)
  | rest => (number ⟨whole, none⟩, rest)

/-- Reads a string, from behind its opening quote. -/
def readString (input : List Char) : Segment × List Char :=
  let body := input.takeWhile (· != '"')
  match input.dropWhile (· != '"') with
  | [] => (unclosed body, [])
  | _ :: rest => (quoted body, rest)

/-- Reads an operator of two characters if there is one, else of one. Failing that, the first character
is stray. -/
def readOperator (c : Char) (rest : List Char) : Segment × List Char :=
  match Operator.ofSpelling? (c :: rest.take 1) with
  | some op => (operator op, rest.drop 1)
  | none =>
    match Operator.ofSpelling? [c] with
    | some op => (operator op, rest)
    | none => (stray c, rest)

/-- Reads the segment that begins with `c`. -/
def read (c : Char) (rest : List Char) : Segment × List Char :=
  if isBlank c then (blank c, rest)
  else if isWordStart c then
    (word (c :: rest.takeWhile isWordPart), rest.dropWhile isWordPart)
  else if c.isDigit then readNumeral (c :: rest)
  else if c = '"' then readString rest
  else if c = '/' ∧ rest.head? = some '/' then
    (comment (rest.tail.takeWhile (· != '\n')), rest.tail.dropWhile (· != '\n'))
  else readOperator c rest

/-- Reads the segment at the head of a text, if the text is not at its end. -/
def next? : List Char → Option (Segment × List Char)
  | [] => none
  | c :: rest => some (read c rest)

/-! ## Laws of reading -/

theorem next?_eq_none_iff {input : List Char} : next? input = none ↔ input = [] := by
  cases input <;> simp [next?]

theorem text_append_readNumeral (input : List Char) :
    (readNumeral input).1.text ++ (readNumeral input).2 = input := by
  have split := List.takeWhile_append_dropWhile (p := Char.isDigit) (l := input)
  unfold readNumeral
  split
  · rename_i digit rest found
    rw [found] at split
    split
    · simp [text, Numeral.text, List.takeWhile_append_dropWhile, split]
    · simp [text, Numeral.text, split]
  · simp [text, Numeral.text, split]

theorem text_append_readString (input : List Char) :
    (readString input).1.text ++ (readString input).2 = '"' :: input := by
  have split := List.takeWhile_append_dropWhile (p := (· != '"')) (l := input)
  unfold readString
  split
  · rename_i found
    rw [found, List.append_nil] at split
    simp [text, split]
  · rename_i c rest found
    have quote : c = '"' := by
      have := List.head?_dropWhile_not (· != '"') input
      rw [found] at this
      simpa using this
    rw [found, quote] at split
    simpa [text] using split

theorem text_append_readOperator (c : Char) (rest : List Char) :
    (readOperator c rest).1.text ++ (readOperator c rest).2 = c :: rest := by
  unfold readOperator
  split
  · rename_i op found
    simp only [text, Operator.spelling_of_ofSpelling? found, List.cons_append,
      List.take_append_drop]
  · split
    · rename_i op found
      simp [text, Operator.spelling_of_ofSpelling? found]
    · simp [text]

theorem text_append_read (c : Char) (rest : List Char) :
    (read c rest).1.text ++ (read c rest).2 = c :: rest := by
  unfold read
  split
  · simp [text]
  split
  · simp [text, List.takeWhile_append_dropWhile]
  split
  · exact text_append_readNumeral (c :: rest)
  split
  · rename_i quote
    rw [quote]
    exact text_append_readString rest
  split
  · rename_i slashes
    obtain ⟨rfl, second⟩ := slashes
    obtain ⟨tail, rfl⟩ : ∃ tail, rest = '/' :: tail := by
      cases rest <;> simp_all
    simp [text, List.takeWhile_append_dropWhile]
  · exact text_append_readOperator c rest

/-- Nothing is lost: a segment's text and the rest make up what was read. -/
theorem text_append_of_next? {input rest : List Char} {segment : Segment}
    (found : next? input = some (segment, rest)) : segment.text ++ rest = input := by
  cases input with
  | nil => simp [next?] at found
  | cons c tail =>
    have := text_append_read c tail
    simp only [next?, Option.some.injEq] at found
    rwa [found] at this

theorem text_readNumeral_ne_nil {c : Char} {rest : List Char} (digit : c.isDigit) :
    (readNumeral (c :: rest)).1.text ≠ [] := by
  unfold readNumeral
  split
  · split <;> simp [text, Numeral.text, digit]
  · simp [text, Numeral.text, digit]

theorem text_read_ne_nil (c : Char) (rest : List Char) : (read c rest).1.text ≠ [] := by
  unfold read
  split
  · simp [text]
  split
  · simp [text]
  split
  · rename_i digit
    exact text_readNumeral_ne_nil digit
  split
  · unfold readString
    split <;> simp [text]
  split
  · simp [text]
  · unfold readOperator
    split
    · exact Operator.spelling_ne_nil _
    · split
      · exact Operator.spelling_ne_nil _
      · simp [text]

/-- No segment is empty. -/
theorem text_ne_nil_of_next? {input rest : List Char} {segment : Segment}
    (found : next? input = some (segment, rest)) : segment.text ≠ [] := by
  cases input with
  | nil => simp [next?] at found
  | cons c tail =>
    have := text_read_ne_nil c tail
    simp only [next?, Option.some.injEq] at found
    rwa [found] at this

/-- Every step gets ahead. -/
theorem length_lt_of_next? {input rest : List Char} {segment : Segment}
    (found : next? input = some (segment, rest)) : rest.length < input.length := by
  rw [← text_append_of_next? found, List.length_append]
  have := List.length_pos_iff.mpr (text_ne_nil_of_next? found)
  omega

end Segment

end LoxLexing
