import LoxLexing.CommandLine.Outcome
import LoxLexing.Proofs.Content
import LoxLexing.Proofs.PhysicalLines

/-!
# What a run leaves behind

A command line that is understood selects code, or the text of a script, or a script that cannot be read, or
the prompt (`Arguments.selection`). What a run leaves behind is decided by this selection, and by whether
tokens are wanted.

**The law** (`outcome_of_commandLine`): the exit code tells the four ways to end apart. It is 64 for a command
line that is not understood, 66 for a script that cannot be read, 65 for a source with lexical errors, and 0
otherwise. A source is reported in full: standard error has a line for each diagnostic and no other line, and
standard output has the listing of all tokens, or nothing. Being quiet changes neither the code nor standard
error.

That the lines of standard error are those of the diagnostics is more than how they are printed, for a
diagnostic repeats a character of the source as it is. But it is never a line end that is unexpected.

**What it does not establish.** How a command line is understood is taken as it comes; and nothing is said of
what is printed for one that is not.
-/

namespace LoxLexing

/-! ## Lines of diagnostics -/

theorem Style.newline_notMem_wrap {text : String} (whole : '\n' ∉ text.toList)
    (styles : List Style) : '\n' ∉ (wrap styles text).toList := by
  induction styles with
  | nil => exact whole
  | cons style styles ih =>
    have opening : '\n' ∉ style.opening.toList := by
      cases style with
      | coloured colour => cases colour <;> decide
      | _ => decide
    have closing : '\n' ∉ style.closing.toList := by
      cases style with
      | coloured _ =>
        show '\n' ∉ (sequence "39").toList
        decide
      | _ => decide
    have split : wrap (style :: styles) text = style.opening ++ wrap styles text ++ style.closing := rfl
    rw [split, String.toList_append, String.toList_append, List.mem_append, List.mem_append]
    rintro ((mem | mem) | mem)
    · exact opening mem
    · exact ih mem
    · exact closing mem

/-- Styles put no line end into a text. -/
theorem StyledText.newline_notMem_render {text : StyledText}
    (whole : ∀ piece ∈ text, '\n' ∉ piece.text.toList) : '\n' ∉ text.render.toList := by
  rw [render, String.toList_join, List.mem_flatMap]
  rintro ⟨shown, mem', inside⟩
  obtain ⟨piece, mem, rfl⟩ := List.mem_map.mp mem'
  exact Style.newline_notMem_wrap (whole piece mem) piece.styles inside

/-- No line end is unexpected. -/
theorem newline_notMem_message {source : String} {diagnostic : Diagnostic}
    (mem : diagnostic ∈ (scan source).diagnostics) : '\n' ∉ diagnostic.message.toList := by
  refine LexicalError.notMem_message (by decide) ?_
  rintro _ unexpected rfl
  have foreign := (stray_of_unexpected mem unexpected).1
  exact absurd foreign (by decide)

theorem newline_notMem_styled {source : String} {diagnostic : Diagnostic}
    (mem : diagnostic ∈ (scan source).diagnostics) : '\n' ∉ diagnostic.styled.render.toList := by
  refine StyledText.newline_notMem_render ?_
  have colon : '\n' ∉ (": " ++ diagnostic.message).toList := by
    rw [String.toList_append, List.mem_append]
    rintro (mem' | mem')
    · exact absurd mem' (by decide)
    · exact newline_notMem_message mem mem'
  have space : '\n' ∉ " ".toList := by decide
  have word : '\n' ∉ errorWord.text.toList := by decide
  rw [Diagnostic.styled, List.forall_mem_cons, List.forall_mem_cons, List.forall_mem_cons,
    List.forall_mem_singleton]
  exact ⟨diagnostic.notMem_lineMark (by decide) (by decide), space, word, colon⟩

/-- **Each diagnostic of a source is a line of its own.** -/
theorem textLines_complaints (source : String) :
    textLines (complaints (scan source).diagnostics).toList
      = (scan source).diagnostics.map fun diagnostic => diagnostic.styled.render.toList ++ ['\n'] := by
  have lines : (complaints (scan source).diagnostics).toList
      = ((scan source).diagnostics.map (·.styled.render.toList)).flatMap (· ++ ['\n']) := by
    simp [complaints, String.toList_join, List.flatMap_map]
  rw [lines, textLines_flatMap_newline, List.map_map]
  · rfl
  · rw [List.forall_mem_map]
    exact fun _ => newline_notMem_styled

/-! ## Selections -/

/-- What a command line asks to scan, if it is understood. -/
inductive Selection where
  /-- Nothing: the prompt is asked for. -/
  | prompt
  /-- Code, or the text of a script. -/
  | source (text : String)
  /-- A script that cannot be read. -/
  | unreadable (path : String) (cause : ReadFailure)
deriving DecidableEq, Repr

/-- What arguments select. Code comes before a script. -/
def Arguments.selection (read : TextReader) (parsed : Arguments) : Selection :=
  match parsed.eval, parsed.script with
  | some code, _ => .source code
  | none, none => .prompt
  | none, some path =>
    match read path with
    | .ok text => .source text
    | .error cause => .unreadable path cause

/-- The run that arguments ask for, if they select anything. -/
def Arguments.run? (read : TextReader) (parsed : Arguments) : Option Run :=
  match parsed.eval, parsed.script with
  | some code, _ => some (.ofCode parsed.quiet code)
  | none, some path => some (.ofFile read parsed.quiet path)
  | none, none => none

/-- A source is reported in full. -/
structure Run.Reports (source : String) (quiet : Bool) (run : Run) : Prop where
  failure : run.failure
    = if (scan source).diagnostics = [] then none
      else some (.lexical (scan source).diagnostics.length)
  errorLines : textLines run.printed.err.toList
    = (scan source).diagnostics.map fun diagnostic => diagnostic.styled.render.toList ++ ['\n']
  listing : run.printed.out.toList
    = if quiet then [] else (scan source).tokens.flatMap fun token => token.display.toList ++ ['\n']

theorem Run.reports_ofCode (quiet : Bool) (source : String) :
    Reports source quiet (.ofCode quiet source) where
  failure := by
    simp [ofCode, ofScan, Scan.hadError]
  errorLines := textLines_complaints source
  listing := by
    cases quiet with
    | true => rfl
    | false => simp [ofCode, ofScan, report, LoxLexing.listing, Token.listed, String.toList_join, List.flatMap_map]

/-! ## Outcomes -/

section

variable (read : TextReader) (stdin : ByteArray) (parsed : Arguments)

/-- The line that tells of a script that cannot be read. -/
def unreadableLine (path : String) (cause : ReadFailure) : StyledText :=
  [errorWord, .unstyled (": " ++ (Failure.unreadable path cause).message)]

/-- A source is scanned and reported alike, wherever it comes from. -/
theorem run?_eq : parsed.run? read
    = match parsed.selection read with
      | .prompt => none
      | .source text => some (.ofCode parsed.quiet text)
      | .unreadable path cause => some { failure := some (.unreadable path cause) } := by
  simp only [Arguments.run?, Arguments.selection]
  cases parsed.eval with
  | some code => rfl
  | none =>
    cases parsed.script with
    | none => rfl
    | some path =>
      simp only [Run.ofFile, scanFile]
      cases read path <;> rfl

theorem ofArguments_eq : Outcome.ofArguments read stdin parsed
    = (parsed.run? read).elim ⟨0, (Session.overPipe read stdin).printed⟩ Outcome.ofRun := by
  simp only [Outcome.ofArguments, Arguments.run?]
  cases parsed.eval with
  | some code => rfl
  | none => cases parsed.script <;> rfl

theorem ofRun_ofCode (quiet : Bool) (source : String) :
    Outcome.ofRun (.ofCode quiet source)
      = ⟨if (scan source).diagnostics = [] then 0 else 65, (Run.ofCode quiet source).printed⟩ := by
  rw [Outcome.ofRun, (Run.reports_ofCode quiet source).failure]
  by_cases clean : (scan source).diagnostics = []
  · rw [if_pos clean, if_pos clean]
  · rw [if_neg clean, if_neg clean]
    rfl

theorem ofRun_unreadable (path : String) (cause : ReadFailure) :
    Outcome.ofRun { failure := some (.unreadable path cause) }
      = ⟨66, .errorLine (unreadableLine path cause)⟩ := by
  simp only [Outcome.ofRun, Transcript.nothing_append]
  rfl

/-- The exit code, for everything that a command line may come to. -/
theorem code_ofCommandLine (arguments : List String) :
    (Outcome.ofCommandLine read stdin arguments).code
      = match Arguments.parse arguments with
        | .error (.usage _) => 64
        | .error _ => 0
        | .ok parsed =>
          match parsed.selection read with
          | .prompt => 0
          | .source text => if (scan text).diagnostics = [] then 0 else 65
          | .unreadable _ _ => 66 := by
  rw [Outcome.ofCommandLine]
  cases Arguments.parse arguments with
  | error refusal => cases refusal <;> rfl
  | ok parsed =>
    simp only [ofArguments_eq, run?_eq]
    cases parsed.selection read with
    | prompt => rfl
    | source text => simp only [Option.elim_some, ofRun_ofCode]
    | unreadable path cause => simp only [Option.elim_some, ofRun_unreadable]

/-- The ways to end are told apart by the exit code. -/
theorem codes_ofCommandLine (arguments : List String) :
    ((Outcome.ofCommandLine read stdin arguments).code = 64 ↔
        ∃ error, Arguments.parse arguments = .error (.usage error)) ∧
      ((Outcome.ofCommandLine read stdin arguments).code = 66 ↔ ∃ parsed path cause,
        Arguments.parse arguments = .ok parsed ∧ parsed.selection read = .unreadable path cause) ∧
      ((Outcome.ofCommandLine read stdin arguments).code = 65 ↔ ∃ parsed source,
        Arguments.parse arguments = .ok parsed ∧ parsed.selection read = .source source ∧
          (scan source).diagnostics ≠ []) ∧
      ((Outcome.ofCommandLine read stdin arguments).code = 0 ↔
        Arguments.parse arguments = .error .help ∨ Arguments.parse arguments = .error .version ∨
          ∃ parsed, Arguments.parse arguments = .ok parsed ∧
            (parsed.selection read = .prompt ∨
              ∃ source, parsed.selection read = .source source ∧ (scan source).diagnostics = [])) := by
  rw [code_ofCommandLine]
  cases Arguments.parse arguments with
  | error refusal => cases refusal <;> simp
  | ok parsed =>
    cases selects : parsed.selection read with
    | source text => by_cases clean : (scan text).diagnostics = [] <;> simp [selects, clean]
    | _ => simp [selects]

end

/-- What a run over standard input leaves behind. -/
structure IsOutcome (read : TextReader) (stdin : ByteArray) (arguments : List String)
    (outcome : Outcome) : Prop where
  usage : outcome.code = 64 ↔ ∃ error, Arguments.parse arguments = .error (.usage error)
  noInput : outcome.code = 66 ↔ ∃ parsed path cause,
    Arguments.parse arguments = .ok parsed ∧ parsed.selection read = .unreadable path cause
  badData : outcome.code = 65 ↔ ∃ parsed source,
    Arguments.parse arguments = .ok parsed ∧ parsed.selection read = .source source ∧
      (scan source).diagnostics ≠ []
  success : outcome.code = 0 ↔
    Arguments.parse arguments = .error .help ∨ Arguments.parse arguments = .error .version ∨
      ∃ parsed, Arguments.parse arguments = .ok parsed ∧
        (parsed.selection read = .prompt ∨
          ∃ source, parsed.selection read = .source source ∧ (scan source).diagnostics = [])
  unreadable : ∀ parsed path cause, Arguments.parse arguments = .ok parsed →
    parsed.selection read = .unreadable path cause →
    outcome.printed.out = "" ∧ outcome.printed.err = (unreadableLine path cause).render ++ "\n"
  reported : ∀ parsed source, Arguments.parse arguments = .ok parsed →
    parsed.selection read = .source source →
    ∃ run, parsed.run? read = some run ∧ run.Reports source parsed.quiet ∧
      outcome.printed = run.printed
  /-- Another command line that asks for the same, but for being quiet, has the same code and errors. -/
  quiet : ∀ arguments' parsed quiet, Arguments.parse arguments = .ok parsed →
    Arguments.parse arguments' = .ok { parsed with quiet } →
    (Outcome.ofCommandLine read stdin arguments').code = outcome.code ∧
      (Outcome.ofCommandLine read stdin arguments').printed.err = outcome.printed.err

/-- **What a run leaves behind**, for every command line, way to read files and standard input. -/
theorem outcome_of_commandLine (read : TextReader) (stdin : ByteArray) (arguments : List String) :
    IsOutcome read stdin arguments (Outcome.ofCommandLine read stdin arguments) := by
  obtain ⟨usage, noInput, badData, success⟩ := codes_ofCommandLine read stdin arguments
  refine ⟨usage, noInput, badData, success, ?_, ?_, ?_⟩
  · intro parsed path cause understood selects
    rw [Outcome.ofCommandLine, understood]
    simp only [ofArguments_eq, run?_eq, selects, Option.elim_some, ofRun_unreadable]
    exact ⟨rfl, rfl⟩
  · intro parsed source understood selects
    refine ⟨.ofCode parsed.quiet source, ?_, Run.reports_ofCode _ _, ?_⟩
    · simp only [run?_eq, selects]
    · rw [Outcome.ofCommandLine, understood]
      simp only [ofArguments_eq, run?_eq, selects, Option.elim_some, ofRun_ofCode]
  · intro arguments' parsed quiet understood understood'
    rw [Outcome.ofCommandLine, Outcome.ofCommandLine, understood, understood']
    simp only [ofArguments_eq, run?_eq]
    have same : ({ parsed with quiet } : Arguments).selection read = parsed.selection read := rfl
    rw [same]
    cases parsed.selection read with
    | prompt => exact ⟨rfl, rfl⟩
    | source text =>
      rw [Option.elim_some, Option.elim_some, ofRun_ofCode, ofRun_ofCode]
      exact ⟨rfl, rfl⟩
    | unreadable path cause => exact ⟨rfl, rfl⟩

end LoxLexing
