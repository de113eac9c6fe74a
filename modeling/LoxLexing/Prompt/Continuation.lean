import LoxLexing.Prompt.Command
import LoxLexing.Scan

/-!
# Open input

When a line is entered, the input so far may still be **open**: a string is not closed, a bracket is not
closed, or the last token asks for an operand. Then the next line is added to it. A closing bracket that
closes nothing is no reason to wait, and hides no opening one. A dot-command is never open.
-/

namespace LoxLexing

/-! ## Brackets -/

/-- The brackets that are awaited, the innermost first, after one more token. An opening bracket awaits
its closing one; a closing bracket that is not the one awaited next is passed over. -/
def awaitAfter (awaited : List Operator) (token : Token) : List Operator :=
  match token.kind with
  | .operator op =>
    match op.closer? with
    | some closer => closer :: awaited
    | none => if awaited.head? = some op then awaited.tail else awaited
  | _ => awaited

/-- The closing brackets that are still awaited after some tokens, the innermost first. -/
def awaited (tokens : List Token) : List Operator :=
  tokens.foldl awaitAfter []

/-- Whether every opening bracket is closed. -/
def isBalanced (tokens : List Token) : Bool :=
  (awaited tokens).isEmpty

/-! ## Operands -/

/-- Whether a token at the end of the input asks for more. -/
def Kind.asksForMore : Kind → Bool
  | .operator .plus | .operator .minus | .operator .star | .operator .slash | .operator .equal
  | .operator .comma => true
  | .keyword .and | .keyword .or => true
  | _ => false

/-! ## Input -/

/-- The last token in front of the end of the input. -/
def Scan.lastToken? (result : Scan) : Option Token :=
  result.tokens.dropLast.getLast?

/-- Whether a string is not closed. -/
def Scan.hasOpenString (result : Scan) : Bool :=
  result.diagnostics.any (·.error == .unterminatedString)

/-- Whether a scanned input asks for another line. -/
def Scan.isOpen (result : Scan) : Bool :=
  result.hasOpenString || !isBalanced result.tokens
    || result.lastToken?.any (·.kind.asksForMore)

/-- Whether an input asks for another line, if it is source. -/
def needsMore (input : String) : Bool :=
  (scan input).isOpen

/-- Whether an input is complete when the line is entered: a command, or source that is not open. -/
def isComplete (input : String) : Bool :=
  (Command.parse? input).isSome || !needsMore input

end LoxLexing
