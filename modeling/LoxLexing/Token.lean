import LoxLexing.Binary64.Shortest
import LoxLexing.Kind
import LoxLexing.Position

/-!
# Tokens

A token is a kind, the exact source text of it, its value if it is a literal, and where it stands. Its
display line is the kind's name, the lexeme and the value, with one space between each two; the spaces
stay when lexeme or value is empty.

Tokens are compared by `==` field by field. Number literals compare as the format compares them, which
is equality of the bits for every value that a scan produces.
-/

namespace LoxLexing

/-- The value of a literal. -/
inductive Literal where
  | number (value : Binary64)
  /-- The text between the quotes of a string. -/
  | text (value : String)
deriving BEq, DecidableEq, Repr

/-- The text of a literal's value: nothing is quoted or escaped. -/
def Literal.display : Literal → String
  | number value => value.text
  | text value => value

/-- A token of a source. -/
structure Token where
  kind : Kind
  /-- The source text of it; nothing for the end of the input. -/
  lexeme : String
  literal : Option Literal
  /-- The line of its first character. -/
  line : Nat
  span : Span
deriving BEq, DecidableEq, Repr

namespace Token

/-- The mark of the end of an input that ends at `here`. -/
def endOfInput (here : Position) : Token :=
  ⟨.endOfInput, "", none, here.line, ⟨here.offset, here.offset⟩⟩

/-- The value as it stands in a line of a listing. -/
def literalText (token : Token) : String :=
  token.literal.elim "" Literal.display

/-- The line of a plain listing, without the line end. -/
def display (token : Token) : String :=
  token.kind.name ++ " " ++ token.lexeme ++ " " ++ token.literalText

end Token

end LoxLexing
