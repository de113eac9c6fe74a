/-!
# Positions in a source

A source is a list of characters. A **position** counts what lies before a character in the two ways
that readers of a scan need: in UTF-8 bytes, for slicing, and in lines, for messages. Reading a text
moves a position on by that text (`Position.after`), and reading two texts one after the other moves it
on by their concatenation (`Position.after_append`); so a position never has to be recomputed from the
start of the source.

A **span** is the half-open range of bytes that a lexeme takes.
-/

namespace LoxLexing

/-- The number of bytes that a text takes in UTF-8. -/
def utf8Length (text : List Char) : Nat :=
  text.foldr (fun c bytes => c.utf8Size + bytes) 0

@[simp] theorem utf8Length_nil : utf8Length [] = 0 := rfl

@[simp] theorem utf8Length_cons (c : Char) (text : List Char) :
    utf8Length (c :: text) = c.utf8Size + utf8Length text := rfl

@[simp] theorem utf8Length_append (left right : List Char) :
    utf8Length (left ++ right) = utf8Length left + utf8Length right := by
  induction left with
  | nil => simp
  | cons c left ih => simp [ih, Nat.add_assoc]

/-- The number of line ends in a text. Only the line feed ends a line. -/
def newlines (text : List Char) : Nat :=
  text.count '\n'

@[simp] theorem newlines_nil : newlines [] = 0 := rfl

@[simp] theorem newlines_append (left right : List Char) :
    newlines (left ++ right) = newlines left + newlines right :=
  List.count_append

/-- A place between two characters of a source. -/
structure Position where
  /-- The number of bytes before it. -/
  offset : Nat
  /-- One more than the number of line ends before it. -/
  line : Nat
deriving DecidableEq, Repr

namespace Position

/-- The place before the first character. -/
def start : Position := ⟨0, 1⟩

/-- The place that is reached from `here` by reading `text`. -/
def after (here : Position) (text : List Char) : Position :=
  ⟨here.offset + utf8Length text, here.line + newlines text⟩

@[simp] theorem after_nil (here : Position) : here.after [] = here := rfl

@[simp] theorem after_append (here : Position) (left right : List Char) :
    here.after (left ++ right) = (here.after left).after right := by
  simp [after, Nat.add_assoc]

end Position

/-- A half-open range of bytes. -/
structure Span where
  start : Nat
  /-- The first byte behind the range. -/
  stop : Nat
deriving DecidableEq, Repr

namespace Span

/-- The number of bytes in the range. -/
def length (span : Span) : Nat :=
  span.stop - span.start

/-- Whether the range holds no byte. -/
def isEmpty (span : Span) : Bool :=
  span.start == span.stop

end Span

end LoxLexing
