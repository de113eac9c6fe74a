import LoxLexing.Kind
import LoxLexing.Position
import LoxLexing.Prompt.Command
import LoxLexing.Styled

/-!
# Completion and hints

A **cursor** splits a line into what stands before it and what stands after it. The word at a cursor is
the longest run of letters, digits, underscores and dots that ends there. It can be completed to each
vocabulary word that it begins; the candidates say what would have to be added. At the end of a line the
rest of the first longer vocabulary word is shown ahead as a hint, once the word has two characters.
-/

namespace LoxLexing

/-! ## Cursors -/

/-- A place in a line. -/
structure Cursor where
  before : List Char
  after : List Char
deriving DecidableEq, Repr

namespace Cursor

/-- The cursor behind a number of bytes of a line, if a character ends there. -/
def atOffset? (line : List Char) : Nat → Option Cursor
  | 0 => some ⟨[], line⟩
  | offset + 1 =>
    match line with
    | [] => none
    | c :: rest =>
      if c.utf8Size ≤ offset + 1 then
        (atOffset? rest (offset + 1 - c.utf8Size)).map fun cursor =>
          { cursor with before := c :: cursor.before }
      else none

/-- The number of bytes before a cursor. -/
def offset (cursor : Cursor) : Nat :=
  utf8Length cursor.before

/-- Whether a character belongs to the words that are completed. -/
def isWordCharacter (c : Char) : Bool :=
  c.isAlphanum || c == '_' || c == '.'

/-- The word that ends at a cursor. -/
def word (cursor : Cursor) : List Char :=
  (cursor.before.reverse.takeWhile isWordCharacter).reverse

/-- The number of bytes before the word that ends at a cursor. -/
def wordStart (cursor : Cursor) : Nat :=
  cursor.offset - utf8Length cursor.word

end Cursor

/-! ## Candidates -/

/-- The words that can be completed to: reserved words, then commands. -/
def vocabulary : List String :=
  Keyword.alphabetical.map Keyword.spelling ++ Command.all.map Command.fullSpelling

/-- A way to complete a word. -/
structure Candidate where
  word : String
  /-- What has to be added for it. -/
  addition : String
deriving DecidableEq, Repr

/-- The candidate that a vocabulary word is for the beginning of a word. -/
def candidate? (beginning : List Char) (word : String) : Option Candidate :=
  if beginning.isPrefixOf word.toList then
    some ⟨word, String.ofList (word.toList.drop beginning.length)⟩
  else none

namespace Cursor

/-- The candidates at a cursor, in the order of the vocabulary. Nothing is offered for no word. -/
def candidates (cursor : Cursor) : List Candidate :=
  if cursor.word.isEmpty then [] else vocabulary.filterMap (candidate? cursor.word)

/-- The offset from which additions are inserted, and the candidates they belong to. -/
def completion (cursor : Cursor) : Nat × List Candidate :=
  (cursor.offset, cursor.candidates)

/-- What is shown ahead at a cursor: the rest of the first vocabulary word that the word begins and that is
longer. -/
def hint? (cursor : Cursor) : Option Piece :=
  if cursor.after.isEmpty && decide (2 ≤ utf8Length cursor.word) then
    (vocabulary.find? fun word =>
      cursor.word.isPrefixOf word.toList && decide (utf8Length cursor.word < word.utf8ByteSize)).map fun word =>
        .dimmed (String.ofList (word.toList.drop cursor.word.length))
  else none

end Cursor

end LoxLexing
