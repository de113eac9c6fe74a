/-!
# Arguments

What a command line asks for: a script, or code given on the spot, and whether to be quiet. Options may be
written long or short, short ones in clusters; `--` ends them, and a lone `-` is no option.

Arguments are understood from left to right, and the first thing wrong is reported. A value that is an
argument of its own, the script or the code behind its option, is **pending** at first: it is judged when
the next argument has been understood to be an option or the script, or at the end. So an argument that
means nothing is reported even where a pending value would have been refused.
-/

namespace LoxLexing

/-- What a command line asks for. -/
structure Arguments where
  script : Option String := none
  eval : Option String := none
  quiet : Bool := false
deriving DecidableEq, Repr, Inhabited

/-! ## Refusals -/

/-- What is wrong with a command line. -/
inductive UsageError where
  /-- A value is missing, or an empty one is not allowed. -/
  | invalidValue
  | unknownArgument
  | tooManyValues
  /-- An option is given twice, or two arguments exclude each other. -/
  | argumentConflict
deriving DecidableEq, Repr

/-- The wording of a usage error. -/
def UsageError.message : UsageError → String
  | invalidValue => "a value is missing or empty"
  | unknownArgument => "unexpected argument"
  | tooManyValues => "unexpected value for an option"
  | argumentConflict => "arguments exclude each other"

/-- Why a command line does not lead to a run. -/
inductive Refusal where
  | help
  | version
  | usage (error : UsageError)
deriving DecidableEq, Repr

namespace Arguments

/-! ## Options -/

/-- The options. -/
inductive Switch where
  | eval | quiet | help | version
deriving DecidableEq, Repr

/-- The option with a one-letter name. -/
def Switch.ofLetter? : Char → Option Switch
  | 'e' => some eval
  | 'q' => some quiet
  | 'h' => some help
  | 'V' => some version
  | _ => none

/-- The option with a long name. There are no abbreviations. -/
def Switch.ofName? : String → Option Switch
  | "eval" => some eval
  | "quiet" => some quiet
  | "help" => some help
  | "version" => some version
  | _ => none

/-! ## Progress along a command line -/

/-- A value that is not judged yet. -/
inductive Pending where
  /-- The code option, whose value comes next. -/
  | awaitedCode
  | code (value : String)
  | script (path : String)
deriving DecidableEq, Repr

/-- How far a command line is understood. -/
structure Progress where
  accepted : Arguments := {}
  pending : Option Pending := none
deriving DecidableEq, Repr, Inhabited

/-- Gives up on a command line. -/
def refuse {α : Type} (error : UsageError) : Except Refusal α :=
  .error (.usage error)

/-- Accepts code, if none was accepted before. -/
def acceptCode (accepted : Arguments) (code : String) : Except Refusal Arguments :=
  if accepted.eval.isSome then refuse .argumentConflict
  else .ok { accepted with eval := some code }

namespace Progress

/-- Judges the pending value. Code must be there, but may be empty; a script may not. -/
def settle (progress : Progress) : Except Refusal Arguments :=
  match progress.pending with
  | none => .ok progress.accepted
  | some .awaitedCode => refuse .invalidValue
  | some (.code code) => acceptCode progress.accepted code
  | some (.script path) =>
    if path.isEmpty then refuse .invalidValue
    else .ok { progress.accepted with script := some path }

/-- Whether there is a script, judged or not. -/
def hasScript (progress : Progress) : Bool :=
  progress.accepted.script.isSome || progress.pending matches some (.script _)

/-- Takes an option, and the value that is attached to it. -/
def takeSwitch (progress : Progress) (switch : Switch) (attached : Option String) :
    Except Refusal Progress :=
  match switch, attached with
  | .eval, none => do return ⟨← progress.settle, some .awaitedCode⟩
  | .eval, some code => do return ⟨← acceptCode (← progress.settle) code, none⟩
  | _, some _ => refuse .tooManyValues
  | .quiet, none => do
    let accepted ← progress.settle
    if accepted.quiet then refuse .argumentConflict
    else return ⟨{ accepted with quiet := true }, none⟩
  | .help, none => do
    let _ ← progress.settle
    .error .help
  | .version, none => do
    let _ ← progress.settle
    .error .version

/-- The value that the rest of a cluster is, without one equals sign in front. -/
def attachedValue? : List Char → Option String
  | [] => none
  | '=' :: value => some (String.ofList value)
  | value => some (String.ofList value)

/-- Takes a cluster of one-letter options. The code option takes the rest of the cluster. -/
def takeCluster (progress : Progress) : List Char → Except Refusal Progress
  | [] => .ok progress
  | letter :: rest =>
    match Switch.ofLetter? letter with
    | none => refuse .unknownArgument
    | some .eval => progress.takeSwitch .eval (attachedValue? rest)
    | some switch => do (← progress.takeSwitch switch none).takeCluster rest

/-- Takes an option with a long name, which a value may follow behind an equals sign. -/
def takeLong (progress : Progress) (text : List Char) : Except Refusal Progress :=
  match Switch.ofName? (String.ofList (text.takeWhile (· != '='))) with
  | none => refuse .unknownArgument
  | some switch =>
    progress.takeSwitch switch ((text.dropWhile (· != '=')).tail?.map String.ofList)

/-- Takes a script. There may be only one. -/
def takeScript (progress : Progress) (path : String) : Except Refusal Progress :=
  if progress.hasScript then refuse .unknownArgument
  else do return ⟨← progress.settle, some (.script path)⟩

/-- Takes an argument in front of the end of the options. -/
def take (progress : Progress) (argument : String) : Except Refusal Progress :=
  match argument.toList with
  | '-' :: '-' :: text => progress.takeLong text
  | '-' :: letter :: rest => progress.takeCluster (letter :: rest)
  | _ =>
    if progress.pending = some .awaitedCode then
      .ok { progress with pending := some (.code argument) }
    else progress.takeScript argument

/-- What is asked for when all arguments are taken. -/
def finish (progress : Progress) : Except Refusal Arguments := do
  let accepted ← progress.settle
  if accepted.script.isSome && accepted.eval.isSome then refuse .argumentConflict
  else return accepted

/-- Takes the remaining arguments. Behind the end of the options everything is a script. -/
def takeAll (progress : Progress) : List String → Except Refusal Arguments
  | [] => progress.finish
  | argument :: rest =>
    if argument = "--" then do (← rest.foldlM takeScript progress).finish
    else do (← progress.take argument).takeAll rest

end Progress

/-- Understands a command line, without the name of the program. -/
def parse (arguments : List String) : Except Refusal Arguments :=
  Progress.takeAll {} arguments

end Arguments

end LoxLexing
