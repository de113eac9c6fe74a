import LoxLexing.CommandLine.Arguments
import LoxLexing.Prompt.Pipe

/-!
# The outcome of a run

A run scans one source and reports it, or holds a session at the prompt. What it leaves behind is an exit
code and what it printed. The code tells a clean source from one with lexical errors, from one that could
not be read, and from a command line that is not understood.
-/

namespace LoxLexing

/-! ## Scanning one source -/

/-- What scanning and reporting a source gives. -/
structure Run where
  failure : Option Failure := none
  printed : Transcript := {}
deriving DecidableEq, Repr

namespace Run

/-- Reports a scan: its tokens, unless they are left out, and its diagnostics. -/
def ofScan (quiet : Bool) (result : Scan) : Run where
  failure := if result.hadError then some (.lexical result.diagnostics.length) else none
  printed := report (if quiet then none else some .plain) result.tokens result.diagnostics

/-- Scans and reports code. -/
def ofCode (quiet : Bool) (code : String) : Run :=
  .ofScan quiet (scan code)

/-- Scans and reports a file. A failure to read it is not printed here. -/
def ofFile (read : TextReader) (quiet : Bool) (path : String) : Run :=
  match scanFile read path with
  | .ok result => .ofScan quiet result
  | .error failure => { failure }

end Run

/-! ## Whole runs -/

/-- What a run of the program leaves behind. -/
structure Outcome where
  code : Nat
  printed : Transcript
deriving DecidableEq, Repr

namespace Outcome

/-- The lines of the help screen. -/
def helpLines : List String :=
  ["Scanner front-end and token REPL for the Lox scripting language",
    "",
    "Usage: lox [OPTIONS] [SCRIPT]",
    "",
    "Arguments:",
    "  [SCRIPT]  Script to scan",
    "",
    "Options:",
    "  -e, --eval <CODE>  Scan source code given on the command line",
    "  -q, --quiet        Only report diagnostics, do not print tokens",
    "  -h, --help         Print help",
    "  -V, --version      Print version"]

/-- The help screen. -/
def helpScreen : String :=
  String.join (helpLines.map (· ++ "\n"))

/-- The line that tells the version. -/
def versionLine : String :=
  "lox " ++ programVersion ++ "\n"

/-- The outcome of a refused command line. -/
def ofRefusal : Refusal → Outcome
  | .help => ⟨0, { out := helpScreen }⟩
  | .version => ⟨0, { out := versionLine }⟩
  | .usage error => ⟨usageExitCode, .errorLine [errorWord, .unstyled (": " ++ error.message)]⟩

/-- The outcome of scanning a source. Lexical errors are reported as diagnostics already; any other failure
is reported now. -/
def ofRun (run : Run) : Outcome :=
  match run.failure with
  | none => ⟨0, run.printed⟩
  | some (.lexical count) => ⟨(Failure.lexical count).exitCode, run.printed⟩
  | some failure =>
    ⟨failure.exitCode,
      run.printed ++ .errorLine [errorWord, .unstyled (": " ++ failure.message)]⟩

/-- The outcome of what a command line asks for, over standard input. With neither code nor script, a
session is held. -/
def ofArguments (read : TextReader) (stdin : ByteArray) (arguments : Arguments) : Outcome :=
  match arguments.eval, arguments.script with
  | some code, _ => ofRun (.ofCode arguments.quiet code)
  | none, some path => ofRun (.ofFile read arguments.quiet path)
  | none, none => ⟨0, (Session.overPipe read stdin).printed⟩

/-- The outcome of a command line over standard input. -/
def ofCommandLine (read : TextReader) (stdin : ByteArray) (arguments : List String) : Outcome :=
  match Arguments.parse arguments with
  | .ok parsed => ofArguments read stdin parsed
  | .error refusal => ofRefusal refusal

end Outcome

end LoxLexing
