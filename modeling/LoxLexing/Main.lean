import LoxLexing.CommandLine.Outcome

/-!
# The program

The command line, the files, the two outputs and the exit code of a running program. What is done with them
is decided by the modules that this one stands on.

A session answers every line as it comes, so a file is read only when a line names it. Since
`Session.respond_congr` says that the answer to a line depends on no other file, it is the answer that
`Session.converse` gives. At a terminal the terminal itself edits the lines; only the prompt is added.
-/

namespace LoxLexing

/-- The number of an error of the operating system. Some calls give it with its sign turned. -/
def errorNumber (code : UInt32) : Nat :=
  min code.toNat (0 - code).toNat

/-- The failure that an error of the operating system stands for. -/
def ReadFailure.ofError : IO.Error → ReadFailure
  | .noFileOrDirectory .. => notFound
  | .permissionDenied .. => system "Permission denied (os error 13)"
  | .inappropriateType file code details =>
    if errorNumber code = 20 then notADirectory
    else if errorNumber code = 21 then isADirectory
    else system (toString (IO.Error.inappropriateType file code details))
  | .invalidArgument file code details =>
    if errorNumber code = 40 then tooManyLinks
    else if errorNumber code = 36 then pathTooLong
    else system (toString (IO.Error.invalidArgument file code details))
  | error => system (toString error)

/-- Reads the file that a path leads to. -/
def readPath (path : String) : BaseIO (Except ReadFailure String) := do
  if '\x00' ∈ path.toList then return .error .nulInPath
  match ← (IO.FS.readBinFile path).toBaseIO with
  | .ok bytes => return decodeText bytes
  | .error error => return .error (.ofError error)

/-- The reader that knows one file at most. -/
def readerOf : Option String → BaseIO TextReader
  | none => return fun _ => .error .notFound
  | some path => do
    let contents ← readPath path
    return fun _ => contents

/-- Writes a transcript on the two outputs. -/
def Transcript.write (transcript : Transcript) : IO Unit := do
  let out ← IO.getStdout
  out.putStr transcript.out
  out.flush
  let err ← IO.getStderr
  err.putStr transcript.err
  err.flush

/-- Reads up to the next line feed, or to the end of the input. -/
def readPhysicalLine (input : IO.FS.Stream) : IO (List UInt8) := do
  let mut line : Array UInt8 := #[]
  repeat
    let some byte := (← input.read 1).data[0]? | break
    line := line.push byte
    if byte = 10 then break
  return line.toList

/-- Holds a session over standard input. -/
def holdSession : IO Unit := do
  let input ← IO.getStdin
  let mark := if ← input.isTty then Session.promptText.render else ""
  let mut session : Session := {}
  let mut group := ""
  Session.banner.write
  repeat
    if group.isEmpty then Transcript.write { out := mark }
    let bytes ← readPhysicalLine input
    if bytes.isEmpty then
      Ending.endOfInput.farewell.write
      break
    match gather group bytes with
    | .unreadable =>
      Ending.unreadable.farewell.write
      break
    | .pending text => group := text
    | .entered text =>
      let reading := Reading.line text
      let reply := session.respond (← readerOf reading.path?) reading
      reply.printed.write
      if reply.leaves then break
      session := reply.session
      group := ""
  Session.goodbye.write

/-- Does what a command line asks for, and gives the exit code. -/
def runCommandLine (arguments : List String) : IO UInt32 := do
  let outcome ← match Arguments.parse arguments with
    | .error refusal => pure (Outcome.ofRefusal refusal)
    | .ok parsed =>
      if parsed.eval.isNone && parsed.script.isNone then
        holdSession
        pure ⟨0, {}⟩
      else
        pure (Outcome.ofArguments (← readerOf parsed.script) ByteArray.empty parsed)
  outcome.printed.write
  return UInt32.ofNat outcome.code

end LoxLexing

/-- The program. -/
def main (arguments : List String) : IO UInt32 :=
  LoxLexing.runCommandLine arguments
