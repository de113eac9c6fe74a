import LoxLexing.Scan

/-!
# Collecting diagnostics

A **collector** gathers diagnostics in the order in which they are reported. It may be used over several
scans, and then it accumulates until it is cleared or emptied. The steps that can be taken on one are the
constructors of `Collector.Step`; a scan whose diagnostics go elsewhere is among them, and leaves the
collector as it is.
-/

namespace LoxLexing

/-- Diagnostics in the order in which they were reported. -/
structure Collector where
  /-- What was reported, the oldest first. -/
  entries : Array Diagnostic := #[]
deriving DecidableEq, Repr, Inhabited

namespace Collector

/-- Whether anything was reported. -/
def hadError (collector : Collector) : Bool :=
  !collector.entries.isEmpty

/-- Adds a diagnostic behind the others. -/
def report (collector : Collector) (diagnostic : Diagnostic) : Collector :=
  ⟨collector.entries.push diagnostic⟩

/-- Scans a source, and collects what is wrong with it behind what was collected before. -/
def scan (collector : Collector) (source : String) : List Token × Collector :=
  scanInto report collector source

@[simp] theorem entries_report (collector : Collector) (diagnostic : Diagnostic) :
    (collector.report diagnostic).entries.toList = collector.entries.toList ++ [diagnostic] := by
  simp [report]

/-! ## Steps on a collector -/

/-- Something to be done with a collector. -/
inductive Step where
  | report (diagnostic : Diagnostic)
  | clear
  | scan (source : String)
  /-- Scan a source and hand its diagnostics to another receiver. -/
  | scanAside (source : String)
  | takeAll
deriving DecidableEq, Repr

/-- What a step gives beside the collector it leaves behind. -/
structure Yield where
  tokens : Option (List Token) := none
  /-- The diagnostics that another receiver got. -/
  aside : Option (List Diagnostic) := none
  /-- The diagnostics that were taken out. -/
  taken : Option (List Diagnostic) := none
deriving DecidableEq, Repr

/-- Does one step. -/
def apply (collector : Collector) : Step → Collector × Yield
  | .report diagnostic => (collector.report diagnostic, {})
  | .clear => (⟨#[]⟩, {})
  | .scan source =>
    let scanned := collector.scan source
    (scanned.2, { tokens := some scanned.1 })
  | .scanAside source =>
    let scanned := scanInto Array.push #[] source
    (collector, { tokens := some scanned.1, aside := some scanned.2.toList })
  | .takeAll => (⟨#[]⟩, { taken := some collector.entries.toList })

/-- Does steps one after another, and gives what each gave together with the collector after it. -/
def run (collector : Collector) : List Step → List (Collector × Yield)
  | [] => []
  | step :: steps =>
    let done := collector.apply step
    done :: done.1.run steps

end Collector

end LoxLexing
