/-!
# Styled text

Text for a terminal is a list of **pieces**, each with the styles that it is shown in. What the pieces
say (`plain`) is kept apart from how they are shown; the control sequences appear when the text is
rendered for output (`render`) and nowhere else.

A style is switched on in front of a piece and off behind it, the outermost style first and last. This
happens around an empty piece too.
-/

namespace LoxLexing

/-- The colours in use. -/
inductive Colour where
  | red | green | yellow | blue | magenta | cyan | white | brightGreen | brightYellow | brightCyan
deriving DecidableEq, Repr

/-- The number that selects a colour for the foreground. -/
def Colour.code : Colour → String
  | red => "31"
  | green => "32"
  | yellow => "33"
  | blue => "34"
  | magenta => "35"
  | cyan => "36"
  | white => "37"
  | brightGreen => "92"
  | brightYellow => "93"
  | brightCyan => "96"

/-- A way of showing a text. -/
inductive Style where
  | bold
  | dimmed
  | coloured (colour : Colour)
deriving DecidableEq, Repr

namespace Style

/-- A control sequence that sets one attribute. -/
def sequence (code : String) : String :=
  "\x1b[" ++ code ++ "m"

/-- What switches a style on. -/
def opening : Style → String
  | bold => sequence "1"
  | dimmed => sequence "2"
  | coloured colour => sequence colour.code

/-- What switches a style off: all attributes, or the colour alone. -/
def closing : Style → String
  | bold | dimmed => sequence "0"
  | coloured _ => sequence "39"

/-- A text between the switches of some styles, the first of them outermost. -/
def wrap (styles : List Style) (text : String) : String :=
  styles.foldr (fun style inner => style.opening ++ inner ++ style.closing) text

end Style

/-- A text that is shown in one way. -/
structure Piece where
  /-- The styles, the outermost first. -/
  styles : List Style
  text : String
deriving DecidableEq, Repr

namespace Piece

/-- A piece with its control sequences. -/
def render (piece : Piece) : String :=
  Style.wrap piece.styles piece.text

/-- A text without styles. -/
def unstyled (text : String) : Piece :=
  ⟨[], text⟩

/-- A dimmed text. -/
def dimmed (text : String) : Piece :=
  ⟨[.dimmed], text⟩

/-- A coloured text. -/
def coloured (colour : Colour) (text : String) : Piece :=
  ⟨[.coloured colour], text⟩

/-- A coloured text in bold. -/
def bold (colour : Colour) (text : String) : Piece :=
  ⟨[.bold, .coloured colour], text⟩

end Piece

/-- A text made of pieces. -/
abbrev StyledText := List Piece

namespace StyledText

/-- The text with its control sequences. -/
def render (text : StyledText) : String :=
  String.join (text.map Piece.render)

/-- What the text says, without any style. -/
def plain (text : StyledText) : String :=
  String.join (text.map Piece.text)

end StyledText

end LoxLexing
