import LoxLexing.Text.Blank
import LoxLexing.Text.LowerCase

/-!
# Dot-commands

A line at the prompt whose first word is a dot and a command word is a command; every other line is
source. White space around the line, the case of the command word, and the white space between word and
argument do not matter. The argument is the rest of the line, with what is inside it left as it is; an
argument of nothing is none.
-/

namespace LoxLexing

/-- What can be commanded at the prompt. -/
inductive Command where
  | help | exit | clear | version | load | tokens
deriving DecidableEq, Repr

namespace Command

/-- Every command once, in the order of the help text. -/
def all : List Command :=
  [help, exit, clear, version, load, tokens]

/-- The words that stand for a command, the full one first. -/
def spellings : Command → List String
  | help => ["help", "h", "?"]
  | exit => ["exit", "quit", "q"]
  | clear => ["clear", "cls"]
  | version => ["version", "v"]
  | load => ["load", "l"]
  | tokens => ["tokens", "t"]

/-- The command that a lower-case word stands for. -/
def ofSpelling? (word : String) : Option Command :=
  all.find? (·.spellings.contains word)

/-- The full spelling of a command, with its dot. -/
def fullSpelling : Command → String
  | help => ".help"
  | exit => ".exit"
  | clear => ".clear"
  | version => ".version"
  | load => ".load"
  | tokens => ".tokens"

/-- How a command is written in the help text, with its argument. -/
def usage : Command → String
  | load => ".load <file>"
  | command => command.fullSpelling

/-- What a command does, in the words of the help text. -/
def description : Command → String
  | help => "Show this help message"
  | exit => "Exit the REPL"
  | clear => "Clear the screen"
  | version => "Show version information"
  | load => "Load and scan a Lox file"
  | tokens => "Toggle printing of scanned tokens"

/-- Reads a line as a command and its argument. -/
def parse? (line : String) : Option (Command × Option String) :=
  match trim line.toList with
  | '.' :: rest =>
    let word := rest.takeWhile (!isWhiteSpace ·)
    let argument := trim (rest.dropWhile (!isWhiteSpace ·))
    (ofSpelling? (String.ofList (lowerCase word))).map fun command =>
      (command, if argument.isEmpty then none else some (String.ofList argument))
  | _ => none

end Command

end LoxLexing
