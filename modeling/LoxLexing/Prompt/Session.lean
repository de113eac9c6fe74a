import LoxLexing.Prompt.Command
import LoxLexing.Report
import LoxLexing.Sources

/-!
# Sessions at the prompt

A **session** answers one line after another. It holds the diagnostics of the latest scan and whether
tokens are listed. A command changes the session or prints something; every other line is scanned. A
file that cannot be read leaves the session as it is.

`Session.converse` is the whole exchange: it answers what is read until a command ends the session or
nothing more comes. What is read is a list, and how it is read from a pipe or a terminal is no matter of
the session; nothing behind the line that ends it has any effect.
-/

namespace LoxLexing

/-! ## Fixed texts -/

/-- The version of the program. -/
def programVersion : String := "0.1.0"

/-- The version of the compiler that the program is built for. -/
def compilerVersion : String := "1.85"

namespace Session

/-- What is shown in front of every line on a terminal. -/
def promptText : StyledText :=
  [.bold .brightGreen "lox>", .unstyled " "]

/-- Lines on standard output. -/
def printed (lines : List StyledText) : Transcript :=
  .join (lines.map .line)

/-- What is printed before the first line. -/
def banner : Transcript :=
  printed [[],
    [.unstyled "  ", .bold .white "Lox Scanner", .unstyled " ", .dimmed "v", .unstyled " ",
      .coloured .brightYellow programVersion],
    [.unstyled "  ", .dimmed "Every line is scanned and its tokens are printed"],
    [],
    [.unstyled "  ", .dimmed "Type", .unstyled " ", .coloured .cyan ".help", .unstyled " ",
      .dimmed "for available commands"],
    []]

/-- What is printed after the last line. -/
def goodbye : Transcript :=
  printed [[], [.coloured .brightCyan "Goodbye!"], []]

/-- A text with spaces behind it up to the width of the help text's first column. -/
def padded (text : String) : String :=
  text ++ String.ofList (List.replicate (16 - text.length) ' ')

/-- A line of the help text. -/
def helpLine (colour : Colour) (name description : String) : StyledText :=
  [.unstyled "  ", .coloured colour (padded name), .unstyled " ", .dimmed description]

/-- The help text. -/
def helpText : Transcript :=
  printed <|
    [[], [.bold .white "REPL Commands:"], []]
      ++ Command.all.map (fun command => helpLine .cyan command.usage command.description)
      ++ [[], [.bold .white "Keyboard Shortcuts:"], [],
        helpLine .yellow "Ctrl+C" "Cancel current input",
        helpLine .yellow "Ctrl+D" "Exit REPL",
        helpLine .yellow "Ctrl+L" "Clear screen",
        helpLine .yellow "Tab" "Autocomplete",
        helpLine .yellow "↑/↓" "Navigate history",
        []]

/-- What the version command prints. -/
def versionText : Transcript :=
  printed [[],
    [.bold .brightCyan "Lox", .unstyled ": ", .coloured .yellow programVersion],
    [.dimmed "Rust", .unstyled (": " ++ compilerVersion)],
    []]

/-- What clears the screen and puts the cursor at its top. -/
def clearScreen : Transcript :=
  { out := "\x1b[2J\x1b[H" }

/-- An error that the prompt reports itself. -/
def problem (text : StyledText) : Transcript :=
  .errorLine ([errorWord, .unstyled ": "] ++ text)

end Session

/-! ## States -/

/-- The state between two lines. -/
structure Session where
  /-- What the latest scan found wrong. -/
  diagnostics : List Diagnostic := []
  /-- Whether tokens are listed. -/
  showTokens : Bool := true
deriving DecidableEq, Repr, Inhabited

/-- What one step of a session gives. -/
structure Answer where
  session : Session
  printed : Transcript := {}
  /-- Whether the session is over. -/
  leaves : Bool := false
deriving DecidableEq, Repr

namespace Session

/-- Scans a source. What was wrong with the previous one is forgotten. -/
def scan (session : Session) (source : String) : List Token × Session :=
  let result := LoxLexing.scan source
  (result.tokens, { session with diagnostics := result.diagnostics })

/-- Scans a source and reports it. -/
def scanAndReport (session : Session) (source : String) : Answer :=
  let (tokens, session) := session.scan source
  let style := if session.showTokens then some .coloured else none
  { session, printed := report style tokens session.diagnostics }

/-- Scans and reports the text of a file. -/
def load (read : TextReader) (session : Session) (path : String) : Answer :=
  match read path with
  | .ok source => session.scanAndReport source
  | .error cause =>
    { session,
      printed := problem [.unstyled "failed to read '", .coloured .cyan path,
        .unstyled ("': " ++ cause.message)] }

/-- Does what is commanded. -/
def execute (read : TextReader) (session : Session) (command : Command)
    (argument : Option String) : Answer :=
  match command with
  | .help => { session, printed := helpText }
  | .exit => { session, leaves := true }
  | .clear => { session, printed := clearScreen }
  | .version => { session, printed := versionText }
  | .load =>
    match argument with
    | some path => session.load read path
    | none =>
      { session,
        printed := problem [.coloured .cyan ".load", .unstyled " ",
          .dimmed "requires a file path"] }
  | .tokens =>
    let session := { session with showTokens := !session.showTokens }
    { session,
      printed := .line [.dimmed "Token output", .unstyled " ",
        .coloured .cyan (if session.showTokens then "on" else "off")] }

/-- Answers a line: nothing for a blank one, else its command, else a scan of it. -/
def answer (read : TextReader) (session : Session) (line : String) : Answer :=
  if isBlankText line.toList then { session }
  else
    match Command.parse? line with
    | some (command, argument) => session.execute read command argument
    | none => session.scanAndReport line

end Session

/-! ## Whole exchanges -/

/-- What comes from the reader of lines. -/
inductive Reading where
  /-- An entered line, which may hold line ends. -/
  | line (text : String)
  /-- The line was given up. -/
  | interrupted
deriving DecidableEq, Repr

/-- The file that a reading names to be loaded. -/
def Reading.path? : Reading → Option String
  | .line text =>
    match Command.parse? text with
    | some (.load, path) => path
    | _ => none
  | .interrupted => none

/-- Why nothing more comes from the reader of lines. -/
inductive Ending where
  | endOfInput
  /-- The input is no text. -/
  | unreadable
deriving DecidableEq, Repr

/-- All that a reader of lines gives. -/
structure Input where
  readings : List Reading
  ending : Ending
deriving DecidableEq, Repr

/-- What is printed for the end of the input. -/
def Ending.farewell : Ending → Transcript
  | .endOfInput => .line [.dimmed "^D"]
  | .unreadable =>
    Session.problem [.unstyled ("Io(Error \x7b kind: InvalidData, message: "
      ++ "\"stream did not contain valid UTF-8\" \x7d)")]

/-- A whole exchange. -/
structure Exchange where
  session : Session
  printed : Transcript
  /-- What was answered before the exchange was over, the line that ended it included. -/
  answered : List Reading
deriving DecidableEq, Repr

namespace Session

/-- Answers one reading. -/
def respond (read : TextReader) (session : Session) : Reading → Answer
  | .line text => session.answer read text
  | .interrupted => { session, printed := .line [.dimmed "^C"] }

/-- Answers a reading from the same session alike, whichever way to read gives the file it names. -/
theorem respond_congr {read read' : TextReader} (session : Session) {reading : Reading}
    (same : ∀ path ∈ reading.path?, read path = read' path) :
    session.respond read reading = session.respond read' reading := by
  cases reading with
  | interrupted => rfl
  | line text =>
    simp only [Reading.path?] at same
    simp only [respond, answer]
    split
    · rfl
    · split
      · rename_i command argument parsed
        cases command <;> cases argument <;> simp_all [execute, load]
      · rfl

/-- Answers readings until one ends the session or none is left. What is printed and answered is added to
what was before. -/
def converseAfter (read : TextReader) (ending : Ending) (before : Exchange) :
    List Reading → Exchange
  | [] => { before with printed := before.printed ++ ending.farewell }
  | reading :: readings =>
    let reply := before.session.respond read reading
    let sofar : Exchange :=
      ⟨reply.session, before.printed ++ reply.printed, reading :: before.answered⟩
    if reply.leaves then sofar else converseAfter read ending sofar readings

/-- The whole exchange over an input, from the banner to the goodbye. -/
def converse (read : TextReader) (session : Session) (input : Input) : Exchange :=
  let done := converseAfter read input.ending ⟨session, banner, []⟩ input.readings
  { done with printed := done.printed ++ goodbye, answered := done.answered.reverse }

end Session

/-! ## Single steps -/

/-- Something that can be asked of a session from outside. -/
inductive SessionStep where
  /-- Do a command, if the line is one. -/
  | command (line : String)
  | report (source : String)
  | scan (source : String)
  | load (path : String)
deriving DecidableEq, Repr

/-- What a single step gives beside the session. -/
inductive StepResult where
  | nothing
  /-- Whether a command ended the session. -/
  | commanded (leaves : Bool)
  | scanned (tokens : List Token)
deriving DecidableEq, Repr

namespace Session

/-- Does a single step. -/
def step (read : TextReader) (session : Session) : SessionStep → Answer × StepResult
  | .command line =>
    match Command.parse? line with
    | none => ({ session }, .nothing)
    | some (command, argument) =>
      let reply := session.execute read command argument
      (reply, .commanded reply.leaves)
  | .report source => (session.scanAndReport source, .nothing)
  | .scan source =>
    let (tokens, session) := session.scan source
    ({ session }, .scanned tokens)
  | .load path => (session.load read path, .nothing)

/-- Does single steps one after another, also behind one that ends the session. -/
def steps (read : TextReader) (session : Session) : List SessionStep → List (Answer × StepResult)
  | [] => []
  | first :: rest =>
    let done := session.step read first
    done :: done.1.session.steps read rest

end Session

end LoxLexing
