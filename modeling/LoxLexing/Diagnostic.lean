/-!
# Lexical errors

There are two ways in which a text fails to be Lox: a character that begins no token, and a string that
is never closed. Neither stops a scan. A **diagnostic** is such an error with its line.
-/

namespace LoxLexing

/-- Why a part of a source gives no token. -/
inductive LexicalError where
  | unexpectedCharacter (c : Char)
  | unterminatedString
deriving DecidableEq, Repr

/-- The wording of an error. The character stands in it as it is. -/
def LexicalError.message : LexicalError → String
  | unexpectedCharacter c => "Unexpected character '" ++ String.singleton c ++ "'."
  | unterminatedString => "Unterminated string."

/-- A lexical error and the line on which it was found. -/
structure Diagnostic where
  /-- The line of the character, or the last line for a string that is never closed. -/
  line : Nat
  error : LexicalError
deriving DecidableEq, Repr

namespace Diagnostic

/-- The wording without the line. -/
def message (diagnostic : Diagnostic) : String :=
  diagnostic.error.message

/-- The mark of the line, as it opens every display of a diagnostic. -/
def lineMark (diagnostic : Diagnostic) : String :=
  "[line " ++ toString diagnostic.line ++ "]"

/-- The plain line of a diagnostic. -/
def display (diagnostic : Diagnostic) : String :=
  diagnostic.lineMark ++ " Error: " ++ diagnostic.message

end Diagnostic

end LoxLexing
