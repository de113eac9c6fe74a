import Mathlib.Data.List.DropRight
import LoxLexing.Collector

/-!
# Receivers of diagnostics

A scan hands every diagnostic to a receiver, and the receiver may be anything. It is told what is wrong, and has no
say in what is read.

**The law** (`receiver_of_scan`): whatever the receiver and the state that it is in, a scan into it gives the tokens
of a scan by itself, and takes the receiver through the diagnostics of that scan, one after the other. So a collector
that is used over several scans holds, after any steps, what was added to it since it was last emptied
(`Collector.remaining`), and what a scan gives does not depend on what was there before.

For the collector, one equation says what a step leaves (`Collector.entries_apply`); the rest is an induction along
the steps, from the last one.
-/

namespace LoxLexing

/-- A receiver is taken through the diagnostics of a source, and the tokens are what they are without it. -/
theorem scanInto_eq {σ : Type} (report : σ → Diagnostic → σ) (receiver : σ) (source : String) :
    scanInto report receiver source = ((scan source).tokens, (scan source).diagnostics.foldl report receiver) := by
  rw [scan_tokens, scan_diagnostics, ← scanInto_fst report receiver, ← scanInto_snd report receiver]

namespace Collector

/-! ## One step -/

namespace Step

/-- The diagnostics that a step adds to a collector. -/
def added : Step → List Diagnostic
  | report diagnostic => [diagnostic]
  | scan source => (LoxLexing.scan source).diagnostics
  | clear | scanAside _ | takeAll => []

/-- Whether a step empties a collector. -/
def empties : Step → Bool
  | clear | takeAll => true
  | report _ | scan _ | scanAside _ => false

theorem added_of_empties {step : Step} (emptied : step.empties = true) : step.added = [] := by
  cases step with
  | clear => rfl
  | takeAll => rfl
  | _ => cases emptied

/-- What a step gives beside the collector, if that held some diagnostics. Only taking them out depends on them. -/
def gives (held : List Diagnostic) : Step → Yield
  | scan source => { tokens := some (LoxLexing.scan source).tokens }
  | scanAside source =>
    { tokens := some (LoxLexing.scan source).tokens, aside := some (LoxLexing.scan source).diagnostics }
  | takeAll => { taken := some held }
  | report _ | clear => {}

end Step

theorem entries_foldl_report (collector : Collector) (diagnostics : List Diagnostic) :
    (diagnostics.foldl report collector).entries.toList = collector.entries.toList ++ diagnostics := by
  induction diagnostics generalizing collector with
  | nil => exact (List.append_nil _).symm
  | cons first diagnostics ih => rw [List.foldl_cons, ih, entries_report, List.append_assoc]; rfl

/-- **What a step leaves in a collector.** -/
theorem entries_apply (collector : Collector) (step : Step) :
    (collector.apply step).1.entries.toList
      = (if step.empties then [] else collector.entries.toList) ++ step.added := by
  cases step with
  | report diagnostic => exact entries_report collector diagnostic
  | scan source =>
    show (scanInto report collector source).2.entries.toList = _
    rw [scanInto_eq]
    exact entries_foldl_report collector _
  | scanAside source => exact (List.append_nil _).symm
  | clear => rfl
  | takeAll => rfl

theorem gives_apply (collector : Collector) (step : Step) :
    (collector.apply step).2 = step.gives collector.entries.toList := by
  cases step with
  | scan source =>
    show ({ tokens := some (scanInto report collector source).1 } : Yield) = _
    rw [scanInto_eq]
    rfl
  | scanAside source =>
    show ({ tokens := some (scanInto Array.push #[] source).1,
            aside := some (scanInto Array.push #[] source).2.toList } : Yield) = _
    rw [scanInto_eq, List.foldl_push_eq_append', Array.empty_append]
    rfl
  | _ => rfl

theorem hadError_iff (collector : Collector) : collector.hadError = true ↔ collector.entries.toList ≠ [] := by
  rw [hadError, Bool.not_eq_true', Array.isEmpty_eq_false_iff, ne_eq, ne_eq, Array.toList_eq_nil_iff]

/-! ## Any steps -/

/-- What steps leave in a collector that held some diagnostics: what was added since it was last emptied, behind what
it held if it never was. -/
def remaining (held : List Diagnostic) (steps : List Step) : List Diagnostic :=
  (if steps.any Step.empties then [] else held) ++ (steps.rtakeWhile (!·.empties)).flatMap Step.added

/-- A collector behind some steps. -/
def afterSteps (collector : Collector) (steps : List Step) : Collector :=
  steps.foldl (fun sofar step => (sofar.apply step).1) collector

theorem remaining_concat (held : List Diagnostic) (steps : List Step) (step : Step) :
    remaining held (steps ++ [step]) = (if step.empties then [] else remaining held steps) ++ step.added := by
  rw [remaining, List.any_append, List.any_cons, List.any_nil, Bool.or_false, List.rtakeWhile_concat]
  cases emptied : step.empties with
  | true => rw [Bool.or_true, Step.added_of_empties emptied]; rfl
  | false =>
    rw [Bool.or_false, Bool.not_false, if_pos rfl, List.flatMap_append, List.flatMap_singleton, ← List.append_assoc]
    rfl

theorem entries_afterSteps (collector : Collector) (steps : List Step) :
    (collector.afterSteps steps).entries.toList = remaining collector.entries.toList steps := by
  induction steps using List.reverseRecOn with
  | nil => exact (List.append_nil _).symm
  | append_singleton steps step ih =>
    rw [afterSteps, List.foldl_concat, entries_apply, remaining_concat]
    exact congrArg (fun held => (if step.empties then [] else held) ++ step.added) ih

/-- A step is done with the collector behind the earlier ones. -/
theorem run_concat (collector : Collector) (earlier : List Step) (step : Step) :
    collector.run (earlier ++ [step]) = collector.run earlier ++ [(collector.afterSteps earlier).apply step] := by
  induction earlier generalizing collector with
  | nil => rfl
  | cons first earlier ih => rw [List.cons_append, run, ih, run, List.cons_append]; rfl

/-- What a step gives together with the collector behind it, from what was held before and what is held then. -/
structure IsDone (before behind : List Diagnostic) (step : Step) (done : Collector × Yield) : Prop where
  entries : done.1.entries.toList = behind
  hadError : done.1.hadError = true ↔ behind ≠ []
  gives : done.2 = step.gives before

theorem isDone_apply (collector : Collector) (earlier : List Step) (step : Step) :
    IsDone (remaining collector.entries.toList earlier) (remaining collector.entries.toList (earlier ++ [step])) step
      ((collector.afterSteps earlier).apply step) := by
  have entries := entries_afterSteps collector (earlier ++ [step])
  rw [afterSteps, List.foldl_concat] at entries
  constructor
  case entries => exact entries
  case hadError => rw [hadError_iff, ← entries]; rfl
  case gives => rw [gives_apply, entries_afterSteps]

end Collector

/-! ## The law -/

/-- **A receiver has no say in a scan.** It is handed the diagnostics, each once and in order, and the tokens are what
they are without it. So after any steps a collector holds what was added since it was last emptied, and it had errors
if that is something; and what a scan gives in the midst of them is what it gives by itself. -/
theorem receiver_of_scan :
    (∀ (σ : Type) (report : σ → Diagnostic → σ) (receiver : σ) (source : String),
      scanInto report receiver source
        = ((scan source).tokens, (scan source).diagnostics.foldl report receiver)) ∧
      ∀ (collector : Collector) (earlier : List Collector.Step) (step : Collector.Step), ∃ done,
        collector.run (earlier ++ [step]) = collector.run earlier ++ [done] ∧
          Collector.IsDone (Collector.remaining collector.entries.toList earlier)
            (Collector.remaining collector.entries.toList (earlier ++ [step])) step done := by
  refine ⟨fun _ => scanInto_eq, ?_⟩
  intro collector earlier step
  exact ⟨_, collector.run_concat earlier step, collector.isDone_apply earlier step⟩

end LoxLexing
