import LoxLexing.Prompt.Continuation
import LoxLexing.Styled

/-!
# Highlighting

A line is coloured while it is typed. A command is coloured as a whole. Source is coloured by the tokens
that its scan gives; between them lie **gaps**, which hold white space, comments and whatever the scan
rejected, and are dimmed. A string that is not closed yet gives no token, so it lies in the gap before the
end of the input; it is found there again as the first quote outside a comment, and shown as a string.

The pieces of a highlighted line say the line itself.
-/

namespace LoxLexing

/-! ## Gaps -/

/-- A token and what stands between it and the token before. -/
structure Spaced where
  gap : List Char
  token : Token
deriving DecidableEq, Repr

/-- Adds a segment in front of the token that comes next and those behind it. A segment that gives no
token becomes part of the gap. -/
def Spaced.prepend (found : Located) (next : Spaced × List Spaced) : Spaced × List Spaced :=
  match found.token? with
  | some token => (⟨[], token⟩, next.1 :: next.2)
  | none => ({ next.1 with gap := found.segment.text ++ next.1.gap }, next.2)

/-- The tokens of a source, each with its gap. -/
def spacedTokens (source : String) : List Spaced :=
  let last : Spaced := ⟨[], .endOfInput (Position.start.after source.toList)⟩
  let all := (segments source).foldr Spaced.prepend (last, [])
  all.1 :: all.2

/-! ## Open strings -/

/-- Counts the characters of a gap up to its first quote that is not in a comment, from `count` on. -/
def countToQuote? (count : Nat) (gap : List Char) : Option Nat :=
  match gap with
  | [] => none
  | c :: rest =>
    if c = '"' then some count
    else if c = '/' ∧ rest.head? = some '/' then
      let comment := rest.takeWhile (· != '\n')
      countToQuote? (count + 1 + comment.length) (rest.dropWhile (· != '\n'))
    else countToQuote? (count + 1) rest
termination_by gap.length
decreasing_by
  · exact Nat.lt_succ_of_le (List.dropWhile_suffix _).length_le
  · simp

/-- A gap in front of its first quote outside a comment, and from the quote on. -/
def splitAtQuote? (gap : List Char) : Option (List Char × List Char) :=
  (countToQuote? 0 gap).map fun count => (gap.take count, gap.drop count)

/-- The number of bytes of a gap in front of its first quote outside a comment. -/
def openQuote? (gap : List Char) : Option Nat :=
  (splitAtQuote? gap).map fun (front, _) => utf8Length front

/-! ## Colours -/

/-- The pieces of a gap. The string that is not closed is shown as a string if the input has one here. -/
def highlightGap (gap : List Char) (unterminated : Bool) : StyledText :=
  match unterminated, splitAtQuote? gap with
  | true, some (front, string) =>
    [.dimmed (String.ofList front), .coloured .green (String.ofList string)]
  | _, _ => [.dimmed (String.ofList gap)]

/-- The style of a token's lexeme. -/
def Kind.lexemeStyles : Kind → List Style
  | .keyword .true | .keyword .false | .keyword .nil | .keyword .this => [.coloured .blue]
  | .keyword _ => [.bold, .coloured .magenta]
  | .number => [.coloured .yellow]
  | .string => [.coloured .green]
  | .operator .leftParen | .operator .rightParen | .operator .leftBrace | .operator .rightBrace =>
    [.coloured .yellow]
  | .operator .dot | .operator .comma | .operator .semicolon => []
  | .operator _ => [.coloured .cyan]
  | .identifier | .endOfInput => []

/-- The pieces of a token and of the gap before it, if there is one. -/
def Spaced.highlight (hasOpenString : Bool) (spaced : Spaced) : StyledText :=
  let gap :=
    if spaced.gap.isEmpty then []
    else highlightGap spaced.gap (hasOpenString && spaced.token.kind == .endOfInput)
  gap ++ [⟨spaced.token.kind.lexemeStyles, spaced.token.lexeme⟩]

/-- The pieces of a line at the prompt. -/
def highlight (line : String) : StyledText :=
  if (Command.parse? line).isSome then [.coloured .magenta line]
  else (spacedTokens line).flatMap (Spaced.highlight (scan line).hasOpenString)

end LoxLexing
