import LoxLexing.Files
import LoxLexing.Journal

/-!
# Scanning sources of several kinds

A source may be given as text, as a path, or as one of many. Wherever it comes from, it is scanned as its
text alone would be: a file by the text in it, a list element by element, the result of each in its place.

Many sources may be shared out among workers. Each worker scans a run of neighbouring sources, so that
putting the results of the workers one after another restores the order of the sources.
-/

namespace LoxLexing

/-! ## Failures around a scan -/

/-- Why a run ends badly. -/
inductive Failure where
  | unreadable (path : String) (cause : ReadFailure)
  | noWorkers (cause : String)
  /-- The source has lexical errors, that many. -/
  | lexical (count : Nat)
deriving DecidableEq, Repr

namespace Failure

/-- The wording of a failure. -/
def message : Failure → String
  | unreadable path cause => "Failed to read " ++ path ++ ": " ++ cause.message
  | noWorkers cause => "Failed to create thread pool: " ++ cause
  | lexical count => toString count ++ " lexical error(s)"

/-- The exit code of a failure: no input, internal error, bad data. -/
def exitCode : Failure → Nat
  | unreadable _ _ => 66
  | noWorkers _ => 70
  | lexical _ => 65

end Failure

/-- The exit code of a command line that is not understood. -/
def usageExitCode : Nat := 64

/-! ## Files -/

/-- Scans the text that is read from a path. -/
def scanFile (read : TextReader) (path : String) : Except Failure Scan :=
  match read path with
  | .ok source => .ok (scan source)
  | .error cause => .error (.unreadable path cause)

/-- Scans several files, each on its own. -/
def scanFiles (read : TextReader) (paths : List String) : List (Except Failure Scan) :=
  paths.map (scanFile read)

/-- The journal of scanning a file. A file that cannot be read leaves none. -/
def fileJournal (read : TextReader) (path : String) : List JournalEntry :=
  match read path with
  | .ok source => .reading path source.utf8ByteSize :: journal source
  | .error _ => []

/-! ## Many sources -/

/-- A list cut into runs of a given length, which counts as one if it is zero. The last run may be
shorter. -/
def runsOf {α : Type} (length : Nat) : List α → List (List α)
  | [] => []
  | first :: rest => (first :: rest.take (length - 1)) :: runsOf length (rest.drop (length - 1))
termination_by items => items.length
decreasing_by simp only [List.length_drop, List.length_cons]; omega

@[simp] theorem flatten_runsOf {α : Type} (length : Nat) (items : List α) :
    (runsOf length items).flatten = items := by
  fun_induction runsOf length items with
  | case1 => rfl
  | case2 first rest ih => simp [ih, List.take_append_drop]

/-- Scans sources that are shared out among workers; each worker takes an equal run of neighbours. No
number of workers means one for each source. -/
def scanAcross (workers : Nat) (sources : List String) : List Scan :=
  let share := (sources.length + workers - 1) / workers
  ((runsOf share sources).map (·.map scan)).flatten

end LoxLexing
