import Mathlib.Algebra.Group.Nat.Even
import Mathlib.Data.List.Induction
import LoxLexing.Proofs.SessionScans

/-!
# What a session holds

Of the two things that a session holds between its steps, the diagnostics of a scan and whether tokens are
listed, each is decided by steps of one kind. A step that has a **source** (`SessionStep.source?`) scans it, and
leaves the diagnostics of that scan alone; a file that cannot be read is no source. A step that is the command
for it turns the listing of tokens on or off (`SessionStep.togglesTokens`).

**The law** (`state_of_steps`): after any steps a session holds the diagnostics of the latest source, and lists
tokens if it was told to turn the listing an even number of times. What a scanned source makes it print
depends on the source and on whether tokens are listed, and on nothing that came before; a file makes it print
what its text would.

All of it comes from one equation for what a step makes of the two things (`session_step`), and an induction
along the steps.
-/

namespace LoxLexing

/-! ## Sources and toggles -/

namespace SessionStep

/-- The source that a step scans: one that is given, or the text of a file. -/
def source? (read : TextReader) : SessionStep → Option String
  | command line => (Command.parse? line).bind fun found => found.1.source? read found.2
  | report source | scan source => some source
  | load path => Command.load.source? read (some path)

/-- Whether a step turns the listing of tokens on or off. -/
def togglesTokens : SessionStep → Bool
  | command line => (Command.parse? line).any fun found => found.1.togglesTokens
  | _ => false

/-- Whether a step shows nothing of what it scans. -/
def isSilent : SessionStep → Bool
  | scan _ => true
  | _ => false

end SessionStep

/-! ## One step -/

section

variable (read : TextReader) (session : Session)

/-- **What a step makes of the two things.** -/
theorem session_step (step : SessionStep) :
    (session.step read step).1.session
      = session.behind (step.source? read) step.togglesTokens := by
  cases step with
  | command line =>
    simp only [Session.step, SessionStep.source?, SessionStep.togglesTokens]
    cases Command.parse? line with
    | none => rfl
    | some found => exact session_execute read session found.1 found.2
  | load path => exact session_load read session path
  | _ => rfl

section

variable {read} {session} {source : String}

/-- A source is answered in one way, wherever it comes from. -/
theorem step_of_source? {step : SessionStep} (scans : step.source? read = some source)
    (shows : step.isSilent = false) :
    (session.step read step).1 = session.scanAndReport source := by
  cases step with
  | command line =>
    simp only [SessionStep.source?] at scans
    obtain ⟨found, parsed, scans⟩ := Option.bind_eq_some_iff.mp scans
    simp only [Session.step, parsed]
    exact execute_of_source? scans
  | report text =>
    cases Option.some.inj scans
    rfl
  | scan text => cases shows
  | load path => exact load_of_toOption scans

/-- What a source makes a session print. -/
theorem printed_step {step : SessionStep} (scans : step.source? read = some source) :
    (session.step read step).1.printed
      = if step.isSilent then {} else (scan source).printed session.showTokens := by
  cases silent : step.isSilent with
  | true =>
    cases step with
    | scan text => rfl
    | _ => cases silent
  | false =>
    rw [step_of_source? scans silent]
    rfl

end

end

/-! ## Any steps -/

namespace Session

/-- The session behind answers that were given from it on. -/
def afterAnswers (session : Session) (given : List (Answer × StepResult)) : Session :=
  given.getLast?.elim session fun last => last.1.session

/-- A new session behind some steps. -/
def afterSteps (read : TextReader) (earlier : List SessionStep) : Session :=
  afterAnswers {} (steps read {} earlier)

theorem afterAnswers_cons (session : Session) (first : Answer × StepResult)
    (given : List (Answer × StepResult)) :
    session.afterAnswers (first :: given) = first.1.session.afterAnswers given := by
  rw [afterAnswers, afterAnswers, List.getLast?_cons]
  cases given.getLast? <;> rfl

end Session

section

variable (read : TextReader)

/-- A step is answered from the session behind the earlier ones. -/
theorem steps_concat (session : Session) (earlier : List SessionStep) (step : SessionStep) :
    session.steps read (earlier ++ [step])
      = session.steps read earlier
        ++ [(session.afterAnswers (session.steps read earlier)).step read step] := by
  induction earlier generalizing session with
  | nil => rfl
  | cons first earlier ih =>
    rw [List.cons_append, Session.steps, ih, Session.steps, Session.afterAnswers_cons,
      List.cons_append]

theorem afterSteps_concat (earlier : List SessionStep) (step : SessionStep) :
    Session.afterSteps read (earlier ++ [step])
      = ((Session.afterSteps read earlier).step read step).1.session := by
  rw [Session.afterSteps, steps_concat, Session.afterAnswers, List.getLast?_concat]
  rfl

/-- The diagnostics are those of the latest source. -/
theorem diagnostics_afterSteps (earlier : List SessionStep) :
    (Session.afterSteps read earlier).diagnostics
      = (earlier.filterMap (SessionStep.source? read)).getLast?.elim [] fun source =>
          (scan source).diagnostics := by
  induction earlier using List.reverseRecOn with
  | nil => rfl
  | append_singleton earlier step ih =>
    rw [afterSteps_concat, session_step, Session.behind, List.filterMap_append]
    cases scans : step.source? read with
    | none =>
      rw [List.filterMap_cons_none scans, List.filterMap_nil, List.append_nil]
      exact ih
    | some source =>
      rw [List.filterMap_cons_some scans, List.filterMap_nil, List.getLast?_concat]
      rfl

/-- Tokens are listed if the listing was turned an even number of times. -/
theorem showTokens_afterSteps (earlier : List SessionStep) :
    (Session.afterSteps read earlier).showTokens = true
      ↔ Even (earlier.countP SessionStep.togglesTokens) := by
  induction earlier using List.reverseRecOn with
  | nil => exact iff_of_true rfl Even.zero
  | append_singleton earlier step ih =>
    rw [afterSteps_concat, session_step, Session.behind, List.countP_append, List.countP_singleton]
    cases step.togglesTokens with
    | false => exact ih
    | true =>
      rw [if_pos rfl, if_pos rfl, Nat.even_add_one, ← ih, Bool.not_eq_true', Bool.not_eq_true]

/-- What a step gives a session: nothing is forgotten but by a scan, nothing is turned but by the command for
it, and a source makes it print the same wherever it comes from and whatever came before. -/
structure IsAnswered (session : Session) (step : SessionStep) (done : Answer × StepResult) : Prop where
  diagnostics : step.source? read = none → done.1.session.diagnostics = session.diagnostics
  showTokens : step.togglesTokens = false → done.1.session.showTokens = session.showTokens
  printed : ∀ source, step.source? read = some source →
    done.1.printed = if step.isSilent then {} else (scan source).printed session.showTokens

theorem isAnswered_step (session : Session) (step : SessionStep) :
    IsAnswered read session step (session.step read step) where
  diagnostics unscanned := by
    rw [session_step, unscanned]
    rfl
  showTokens unturned := by
    rw [session_step, unturned]
    rfl
  printed _ scans := printed_step scans

/-- **What a session holds behind any steps** is decided by the latest source and by how often the listing of
tokens was turned. The next step is answered from these two alone, and a file is answered as its text. -/
theorem state_of_steps (earlier : List SessionStep) :
    (Session.afterSteps read earlier).diagnostics
        = ((earlier.filterMap (SessionStep.source? read)).getLast?.elim [] fun source =>
            (scan source).diagnostics) ∧
      ((Session.afterSteps read earlier).showTokens = true
        ↔ Even (earlier.countP SessionStep.togglesTokens)) ∧
      (∀ step, ∃ done,
        Session.steps read {} (earlier ++ [step]) = Session.steps read {} earlier ++ [done] ∧
          IsAnswered read (Session.afterSteps read earlier) step done) ∧
      ∀ path source, read path = .ok source →
        Session.steps read {} (earlier ++ [.load path])
          = Session.steps read {} (earlier ++ [.report source]) := by
  refine ⟨diagnostics_afterSteps read earlier, showTokens_afterSteps read earlier, ?_, ?_⟩
  · intro step
    exact ⟨_, steps_concat read {} earlier step, isAnswered_step read _ step⟩
  · intro path source given
    have opened : (read path).toOption = some source := by rw [given]; rfl
    rw [steps_concat, steps_concat, Session.step, Session.step, load_of_toOption opened]

end

end LoxLexing
