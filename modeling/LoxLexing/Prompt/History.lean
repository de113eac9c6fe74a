import LoxLexing.Text.Blank

/-!
# The history of lines

Lines entered at a terminal are remembered, the newest last, so that they can be recalled and kept in a
file. A line is not remembered if it is empty, if white space stands at its start, or if it repeats the
newest one. Only the newest lines are kept, up to a limit.

In a file every remembered line takes one line, under a first line that marks the format. Line ends and
backslashes in it are escaped, so `unescape?` gives the line back. A file is read by remembering its
lines one after another, and is only written if a line was added since.
-/

namespace LoxLexing

/-- Remembered lines. -/
structure History where
  /-- The lines, the oldest first. -/
  lines : List String := []
  /-- Whether a line was added since the history was read. -/
  grown : Bool := false
deriving DecidableEq, Repr, Inhabited

namespace History

/-- How many lines are kept. -/
def limit : Nat := 1000

/-- Whether a line is worth remembering. -/
def admits (history : History) (line : String) : Bool :=
  !line.isEmpty && !line.toList.head?.any isWhiteSpace && history.lines.getLast? != some line

/-- Remembers a line, if it is worth it, and forgets the oldest beyond the limit. -/
def add (history : History) (line : String) : History :=
  if history.admits line then
    let lines := history.lines ++ [line]
    ⟨lines.drop (lines.length - limit), true⟩
  else history

/-- The line that is recalled by going back a number of lines from the end, if there are so many. -/
def earlier? (history : History) (back : Nat) : Option String :=
  if back = 0 then none else history.lines.reverse[back - 1]?

/-! ## The form in a file -/

/-- The first line of a history file. -/
def formatMark : String := "#V2"

/-- A line with its line ends and backslashes escaped. -/
def escape : List Char → List Char
  | [] => []
  | c :: rest =>
    if c = '\\' then '\\' :: '\\' :: escape rest
    else if c = '\n' then '\\' :: 'n' :: escape rest
    else c :: escape rest

/-- Undoes the escapes. There are only two; any other makes the text no escaped line. -/
def unescape? : List Char → Option (List Char)
  | [] => some []
  | '\\' :: '\\' :: rest => (unescape? rest).map ('\\' :: ·)
  | '\\' :: 'n' :: rest => (unescape? rest).map ('\n' :: ·)
  | c :: rest => if c = '\\' then none else (unescape? rest).map (c :: ·)

/-- A line of a file without the carriage return that may belong to its line end. -/
def withoutReturn (line : List Char) : List Char :=
  if line.getLast? = some '\r' then line.dropLast else line

/-- The line that a line of a file stands for. One that is not properly escaped stands for itself. -/
def ofFileLine (line : String) : String :=
  let written := withoutReturn line.toList
  String.ofList ((unescape? written).getD written)

/-- Reads a history from the lines of a file below its mark. -/
def ofFileLines (lines : List String) : History :=
  let read := (lines.map ofFileLine).foldl add {}
  { read with grown := false }

/-- The lines of the file that a history is written to. -/
def toFileLines (history : History) : List String :=
  formatMark :: history.lines.map fun line => String.ofList (escape line.toList)

end History

/-! ## Keeping a history -/

/-- What stands where the history is kept. -/
inductive HistoryStore where
  | absent
  /-- A file, by its lines below the mark. -/
  | file (lines : List String)
  /-- A directory, which can be neither read nor written. -/
  | directory
deriving DecidableEq, Repr

namespace HistoryStore

/-- The history to start with. -/
def load : HistoryStore → History
  | file lines => .ofFileLines lines
  | absent | directory => {}

/-- What stands there after keeping a history, and whether it could be kept. A history that has not grown
is not written. -/
def save (store : HistoryStore) (history : History) : Except HistoryStore HistoryStore :=
  if history.grown then
    match store with
    | directory => .error directory
    | _ => .ok (.file history.toFileLines.tail)
  else .ok store

/-- All lines of the file, if there is one. -/
def contents? : HistoryStore → Option (List String)
  | file lines => some (History.formatMark :: lines)
  | absent | directory => none

end HistoryStore

end LoxLexing
