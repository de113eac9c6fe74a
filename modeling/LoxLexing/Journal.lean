import LoxLexing.Scan

/-!
# The journal of a scan

A scan can tell what it does while it does it: one entry for each token and for each diagnostic, in the
order of the source, and a summary at the end. Reading a file is announced before its scan. The mark of
the end of the input has no entry of its own; the summary counts it.

An entry says what happened. Its level and its named fields, which are texts in the order of their
names, are how it is written down.
-/

namespace LoxLexing

/-- Something worth telling about a scan. -/
inductive JournalEntry where
  /-- A file was read, and its source takes so many bytes. -/
  | reading (path : String) (bytes : Nat)
  | token (found : Token)
  | diagnostic (found : Diagnostic)
  /-- The source is done: its bytes, its last line, and the number of tokens with the end of input. -/
  | complete (bytes lines tokens : Nat)
deriving DecidableEq, Repr

/-- How much detail an entry is. -/
inductive JournalLevel where
  | trace | debug
deriving DecidableEq, Repr

namespace JournalEntry

/-- Tokens are finer detail than the rest. -/
def level : JournalEntry → JournalLevel
  | .token _ => .trace
  | _ => .debug

/-- The fields of an entry, sorted by name. -/
def fields : JournalEntry → List (String × String)
  | .reading path bytes =>
    [("bytes", toString bytes), ("message", "scanning file"), ("path", path)]
  | .token found => [("line", toString found.line), ("message", found.display)]
  | .diagnostic found =>
    [("error", found.message), ("line", toString found.line), ("message", "lexical error")]
  | .complete bytes lines tokens =>
    [("bytes", toString bytes), ("lines", toString lines), ("message", "scan complete"),
      ("tokens", toString tokens)]

end JournalEntry

/-- The entry that a segment gives. -/
def Located.journalEntry? (found : Located) : Option JournalEntry :=
  match found.token?, found.diagnostic? with
  | some token, _ => some (.token token)
  | none, some diagnostic => some (.diagnostic diagnostic)
  | none, none => none

/-- The journal of scanning a source. -/
def journal (source : String) : List JournalEntry :=
  let step := fun (state : Array JournalEntry × Nat) (found : Located) =>
    (pushSome state.1 found.journalEntry?, state.2 + found.token?.toList.length)
  let walked := walk step (#[], 0) .start source.toList
  (walked.1.1.push (.complete walked.2.offset walked.2.line (walked.1.2 + 1))).toList

end LoxLexing
