import LoxLexing.Prompt.Continuation
import LoxLexing.Prompt.Session

/-!
# Reading lines from a pipe

From an input that is no terminal, lines are read as they come. A **physical line** ends with its line
feed; its terminator is the line feed and a carriage return just before it, if there is one. The last
physical line may lack the line feed, and then has no terminator.

An entered line is the shortest group of physical lines whose text is complete: the terminators inside
the group stay in the text, the last one does not. A group that the end of the input cuts short is
dropped, and bytes that are no text end the input.
-/

namespace LoxLexing

/-- Cuts bytes behind every line feed. -/
def physicalLines (bytes : List UInt8) : List (List UInt8) :=
  match bytes with
  | [] => []
  | first :: rest =>
    let line := (first :: rest).takeWhile (· != 10)
    match _cut : (first :: rest).dropWhile (· != 10) with
    | [] => [line]
    | feed :: tail => (line ++ [feed]) :: physicalLines tail
termination_by bytes.length
decreasing_by
  have := (List.dropWhile_suffix (l := first :: rest) (· != 10)).length_le
  rw [_cut, List.length_cons] at this
  omega

/-- The text of a physical line, and its terminator. -/
def splitTerminator (line : List Char) : List Char × List Char :=
  match line.reverse with
  | '\n' :: '\r' :: body => (body.reverse, ['\r', '\n'])
  | '\n' :: body => (body.reverse, ['\n'])
  | _ => (line, [])

/-- What becomes of a group by one more physical line. -/
inductive Gathering where
  | entered (text : String)
  /-- It goes on; its terminators are part of the text. -/
  | pending (text : String)
  | unreadable
deriving DecidableEq, Repr

/-- Adds a physical line to a group. -/
def gather (pending : String) (bytes : List UInt8) : Gathering :=
  match String.fromUTF8? ⟨bytes.toArray⟩ with
  | none => .unreadable
  | some line =>
    let (body, terminator) := splitTerminator line.toList
    let text := pending ++ String.ofList body
    if isComplete text then .entered text else .pending (text ++ String.ofList terminator)

/-- Groups physical lines into entered lines. What is pending of a group comes with its terminators. -/
def groupLines (pending : String) : List (List UInt8) → List String × Ending
  | [] => ([], .endOfInput)
  | bytes :: lines =>
    match gather pending bytes with
    | .unreadable => ([], .unreadable)
    | .pending text => groupLines text lines
    | .entered text =>
      let (entered, ending) := groupLines "" lines
      (text :: entered, ending)

/-- All that is read from a pipe. -/
def Input.ofPipe (bytes : ByteArray) : Input :=
  let (entered, ending) := groupLines "" (physicalLines bytes.toList)
  ⟨entered.map .line, ending⟩

/-- A session over what comes from a pipe. -/
def Session.overPipe (read : TextReader) (bytes : ByteArray) : Exchange :=
  converse read {} (.ofPipe bytes)

end LoxLexing
