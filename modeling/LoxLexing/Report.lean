import LoxLexing.Scan
import LoxLexing.Styled

/-!
# Reports

What a program shows of a scan. Tokens go to standard output, one to a line, either plainly or with the
name of the kind coloured by what kind it is. Diagnostics go to standard error, always coloured.

A **transcript** is all that was written on the two outputs. How writings on the one and on the other
interleave is not kept, for nobody can see it.
-/

namespace LoxLexing

/-! ## Transcripts -/

/-- What was written on standard output and on standard error. -/
structure Transcript where
  out : String := ""
  err : String := ""
deriving DecidableEq, Repr, Inhabited

namespace Transcript

/-- One transcript after another. -/
instance : Append Transcript where
  append first second := ⟨first.out ++ second.out, first.err ++ second.err⟩

/-- A styled line on standard output. -/
def line (text : StyledText) : Transcript :=
  { out := text.render ++ "\n" }

/-- A styled line on standard error. -/
def errorLine (text : StyledText) : Transcript :=
  { err := text.render ++ "\n" }

/-- Transcripts one after another. -/
def join (parts : List Transcript) : Transcript :=
  parts.foldl (· ++ ·) {}

theorem append_assoc (first second third : Transcript) :
    first ++ second ++ third = first ++ (second ++ third) := by
  show Transcript.mk _ _ = Transcript.mk _ _
  congr 1
  · exact String.append_assoc
  · exact String.append_assoc

@[simp] theorem nothing_append (part : Transcript) : ({} : Transcript) ++ part = part := by
  show Transcript.mk _ _ = part
  rw [String.empty_append, String.empty_append]

@[simp] theorem append_nothing (part : Transcript) : part ++ ({} : Transcript) = part := by
  show Transcript.mk _ _ = part
  rw [String.append_empty, String.append_empty]

@[simp] theorem join_nil : join [] = {} := rfl

theorem join_cons (first : Transcript) (parts : List Transcript) :
    join (first :: parts) = first ++ join parts := by
  have begun (parts : List Transcript) (sofar : Transcript) :
      parts.foldl (· ++ ·) sofar = sofar ++ join parts := by
    induction parts generalizing sofar with
    | nil => simp
    | cons part parts ih =>
      rw [join, List.foldl_cons, List.foldl_cons, ih, ih ({} ++ part), nothing_append, append_assoc]
  rw [join, List.foldl_cons, nothing_append, begun]

end Transcript

/-! ## Tokens -/

/-- The name of a kind, coloured by what kind it is. -/
def Kind.styled (kind : Kind) : Piece :=
  match kind with
  | .keyword _ => .bold .magenta kind.name
  | .number | .string => .coloured .yellow kind.name
  | .identifier => .coloured .cyan kind.name
  | .endOfInput => .dimmed kind.name
  | .operator _ => .unstyled kind.name

/-- The line of a coloured listing. The value is green, also where there is none. -/
def Token.styled (token : Token) : StyledText :=
  [token.kind.styled, .unstyled (" " ++ token.lexeme ++ " "), .coloured .green token.literalText]

/-- How tokens are listed. -/
inductive ListingStyle where
  | plain | coloured
deriving DecidableEq, Repr

/-- The line of a token in a listing. -/
def Token.listed (style : ListingStyle) (token : Token) : String :=
  match style with
  | .plain => token.display
  | .coloured => token.styled.render

/-- A listing: a line for each token. -/
def listing (style : ListingStyle) (tokens : List Token) : String :=
  String.join (tokens.map (·.listed style ++ "\n"))

/-! ## Diagnostics -/

/-- The word that introduces every error. -/
def errorWord : Piece :=
  .bold .red "Error"

/-- The coloured line of a diagnostic. -/
def Diagnostic.styled (diagnostic : Diagnostic) : StyledText :=
  [.dimmed diagnostic.lineMark, .unstyled " ", errorWord, .unstyled (": " ++ diagnostic.message)]

/-- A line for each diagnostic. -/
def complaints (diagnostics : List Diagnostic) : String :=
  String.join (diagnostics.map (·.styled.render ++ "\n"))

/-! ## Whole scans -/

/-- Tokens, if a listing of them is wanted, and diagnostics. -/
def report (style : Option ListingStyle) (tokens : List Token) (diagnostics : List Diagnostic) :
    Transcript :=
  ⟨style.elim "" (listing · tokens), complaints diagnostics⟩

end LoxLexing
