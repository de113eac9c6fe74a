import LoxLexing.Prompt.Session

/-!
# What a session scans

A reading makes a session scan one source or none (`Reading.source?`): a line that is no command is a
source itself, unless it is blank, and a command to load has the text of the file for a source, if there is
one (`Command.source?`). A session that answers such a reading does nothing but scan and report the source
(`respond_of_source?`).

A session holds two things between its steps, the diagnostics of a scan and whether tokens are listed. For a
command, `session_execute` says what becomes of both.

Over lines that are no commands a session shows its scans, one after another, and nothing in between
(`converseAfter_of_noCommand`).
-/

namespace LoxLexing

/-! ## Commands -/

namespace Command

/-- The source that a command scans. -/
def source? (read : TextReader) : Command → Option String → Option String
  | load, some path => (read path).toOption
  | _, _ => none

/-- Whether a command turns the listing of tokens on or off. -/
def togglesTokens : Command → Bool
  | tokens => true
  | _ => false

end Command

/-- What is held behind a step that scanned a source, if it did, and turned the listing, if it did. -/
def Session.behind (session : Session) (source : Option String) (toggled : Bool) : Session where
  diagnostics := source.elim session.diagnostics fun source => (LoxLexing.scan source).diagnostics
  showTokens := if toggled then !session.showTokens else session.showTokens

section

variable (read : TextReader) (session : Session)

theorem session_load (path : String) :
    (session.load read path).session = session.behind (read path).toOption false := by
  rw [Session.load]
  cases read path <;> rfl

/-- What a command makes of a session. -/
theorem session_execute (command : Command) (argument : Option String) :
    (session.execute read command argument).session
      = session.behind (command.source? read argument) command.togglesTokens := by
  cases command with
  | load =>
    cases argument with
    | none => rfl
    | some path => exact session_load read session path
  | _ => rfl

end

section

variable {read : TextReader} {session : Session} {source : String}

theorem load_of_toOption {path : String} (given : (read path).toOption = some source) :
    session.load read path = session.scanAndReport source := by
  cases opened : read path with
  | ok text =>
    rw [opened] at given
    cases Option.some.inj given
    rw [Session.load, opened]
  | error cause =>
    rw [opened] at given
    cases given

/-- A command that has a source is done by a scan of it. -/
theorem execute_of_source? {command : Command} {argument : Option String}
    (scans : command.source? read argument = some source) :
    session.execute read command argument = session.scanAndReport source := by
  cases command with
  | load =>
    cases argument with
    | none => cases scans
    | some path => exact load_of_toOption scans
  | _ => cases scans

end

/-! ## Readings -/

/-- The source that a session scans for a reading. -/
def Reading.source? (read : TextReader) : Reading → Option String
  | .interrupted => none
  | .line text =>
    if isBlankText text.toList then none
    else
      match Command.parse? text with
      | none => some text
      | some (command, argument) => command.source? read argument

/-- All that was scanned in an exchange, in order. -/
def Exchange.scans (read : TextReader) (done : Exchange) : List Scan :=
  (done.answered.filterMap (Reading.source? read)).map scan

/-- What a session prints of a scan. -/
def Scan.printed (result : Scan) (showTokens : Bool) : Transcript :=
  report (if showTokens then some .coloured else none) result.tokens result.diagnostics

section

variable {read : TextReader} {session : Session}

/-- A reading that has a source is answered by a scan of it. -/
theorem respond_of_source? {reading : Reading} {source : String}
    (scanned : reading.source? read = some source) :
    session.respond read reading = session.scanAndReport source := by
  cases reading with
  | interrupted => cases scanned
  | line text =>
    by_cases blank : isBlankText text.toList = true
    · rw [Reading.source?, if_pos blank] at scanned
      cases scanned
    · simp only [Session.respond, Session.answer, if_neg blank]
      cases parsed : Command.parse? text with
      | none =>
        simp only [Reading.source?, if_neg blank, parsed] at scanned
        cases Option.some.inj scanned
        rfl
      | some found =>
        simp only [Reading.source?, if_neg blank, parsed] at scanned
        exact execute_of_source? scanned

/-- A line that is no command is scanned and shown, if it is not blank, and nothing else happens. -/
theorem respond_of_noCommand (read : TextReader) {line : String}
    (noCommand : Command.parse? line = none) (shows : session.showTokens = true) :
    (session.respond read (.line line)).leaves = false ∧
      (session.respond read (.line line)).session.showTokens = true ∧
      (session.respond read (.line line)).printed
        = ((Reading.line line).source? read).elim {} fun source => (scan source).printed true := by
  by_cases blank : isBlankText line.toList = true
  · simp [Session.respond, Session.answer, Reading.source?, blank, shows]
  · have scanned : (Reading.line line).source? read = some line := by
      simp [Reading.source?, blank, noCommand]
    rw [respond_of_source? scanned, scanned]
    simp [Session.scanAndReport, Session.scan, shows, Scan.printed]

/-- Lines that are no commands are all answered, and their scans are all that is shown. -/
theorem converseAfter_of_noCommand (read : TextReader) (ending : Ending) {lines : List String}
    (noCommand : ∀ line ∈ lines, Command.parse? line = none) {before : Exchange}
    (shows : before.session.showTokens = true) :
    (Session.converseAfter read ending before (lines.map .line)).answered
        = (lines.map .line).reverse ++ before.answered ∧
      (Session.converseAfter read ending before (lines.map .line)).printed
        = before.printed
          ++ .join (((lines.map .line).filterMap (Reading.source? read)).map fun source => (scan source).printed true)
          ++ ending.farewell := by
  induction lines generalizing before with
  | nil =>
    refine ⟨rfl, ?_⟩
    rw [List.map_nil, List.filterMap_nil, List.map_nil, Transcript.join_nil,
      Transcript.append_nothing]
    rfl
  | cons line lines ih =>
    obtain ⟨noCommand, noCommand'⟩ := List.forall_mem_cons.mp noCommand
    obtain ⟨stays, shows', printed⟩ := respond_of_noCommand read noCommand shows
    let sofar : Exchange :=
      ⟨(before.session.respond read (.line line)).session,
        before.printed ++ (before.session.respond read (.line line)).printed,
        .line line :: before.answered⟩
    have shown : sofar.session.showTokens = true := shows'
    have soFarPrinted : sofar.printed
        = before.printed
          ++ ((Reading.line line).source? read).elim {} fun source => (scan source).printed true :=
      congrArg (before.printed ++ ·) printed
    obtain ⟨answered, printed'⟩ := ih noCommand' shown
    rw [List.map_cons, Session.converseAfter, if_neg (Bool.eq_false_iff.mp stays)]
    refine ⟨?_, ?_⟩
    · rw [answered, List.reverse_cons, List.append_assoc]
      rfl
    · rw [printed', soFarPrinted]
      cases scanned : (Reading.line line).source? read with
      | none => rw [List.filterMap_cons_none scanned, Option.elim_none, Transcript.append_nothing]
      | some source =>
        rw [List.filterMap_cons_some scanned, List.map_cons, Transcript.join_cons,
          Option.elim_some, Transcript.append_assoc before.printed]

end

end LoxLexing
