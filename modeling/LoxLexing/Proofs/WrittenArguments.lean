import Mathlib.Data.List.Pairwise
import Mathlib.Data.List.Perm.Basic
import LoxLexing.CommandLine.Arguments
import LoxLexing.Proofs.Boundary

/-!
# Arguments written out and understood again

What a command line asks for has parts: to be quiet, code, a script. Each can be written in several ways
(`Part.Spells`), and the parts may come in any order. A value of its own must not look like an option; so code that
does is attached to its option, and a script that does comes last, behind the end of the options.

**The law** (`parse_written`): everything that can be asked for can be written. If it is not both code and a script,
then every way to write it is understood as just this. And nothing is ever understood as both.

The progress along a command line is followed by what it would settle for if the command line ended there
(`Progress.settle`), which includes the value that is still pending. A part of which nothing is there yet adds itself
to it, however it is written (`Progress.exists_takeAll_append`), and the others are added in turn. Parts are added to
fields of their own, so their order is lost.
-/

namespace LoxLexing

namespace Arguments

/-! ## Writing arguments -/

/-- A part of what a command line asks for. -/
inductive Part where
  | quiet
  | code (text : String)
  | script (path : String)
deriving DecidableEq, Repr

/-- The parts of what is asked for. -/
def parts (asked : Arguments) : List Part :=
  (if asked.quiet then [.quiet] else []) ++ (asked.eval.map Part.code).toList ++ (asked.script.map Part.script).toList

/-- Whether an argument can be a value by itself: a lone `-`, or what does not begin with one. -/
def IsValue (argument : String) : Prop :=
  argument = "-" ∨ argument.toList.head? ≠ some '-'

/-- A value does not look like options, nor like the end of them. -/
theorem IsValue.toList_ne {argument : String} (value : IsValue argument) (c : Char) (rest : List Char) :
    argument.toList ≠ '-' :: c :: rest := by
  intro shape
  rcases value with rfl | notMark
  · cases shape
  · rw [shape] at notMark
    exact notMark rfl

theorem IsValue.ne_end {argument : String} (value : IsValue argument) : argument ≠ "--" := by
  rintro rfl
  exact value.toList_ne '-' [] rfl

/-- The ways to write a part in front of the end of the options. -/
inductive Part.Spells : Part → List String → Prop where
  | quietShort : Spells .quiet ["-q"]
  | quietLong : Spells .quiet ["--quiet"]
  | codeAttached (text : String) : Spells (.code text) ["--eval=" ++ text]
  | codeShort {text : String} : IsValue text → Spells (.code text) ["-e", text]
  | codeLong {text : String} : IsValue text → Spells (.code text) ["--eval", text]
  | script {path : String} : path ≠ "" → IsValue path → Spells (.script path) [path]

/-- The ways to write what is asked for. -/
inductive IsWritten (asked : Arguments) : List String → Prop where
  | anyOrder {order : List Part} {spellings : List (List String)} :
    order.Perm asked.parts → List.Forall₂ Part.Spells order spellings → IsWritten asked spellings.flatten
  | scriptLast {path : String} {order : List Part} {spellings : List (List String)} :
    asked.script = some path → path ≠ "" → order.Perm ({ asked with script := none } : Arguments).parts →
      List.Forall₂ Part.Spells order spellings → IsWritten asked (spellings.flatten ++ ["--", path])

/-! ## Adding parts -/

/-- What is asked for with one part more. -/
def add (asked : Arguments) : Part → Arguments
  | .quiet => { asked with quiet := true }
  | .code text => { asked with eval := some text }
  | .script path => { asked with script := some path }

/-- Whether nothing is asked for yet where a part belongs. -/
def Lacks (asked : Arguments) : Part → Prop
  | .quiet => asked.quiet = false
  | .code _ => asked.eval = none
  | .script _ => asked.script = none

/-- Whether two parts belong to different places. -/
def Part.Apart : Part → Part → Prop
  | .quiet, .quiet | .code _, .code _ | .script _, .script _ => False
  | _, _ => True

section

variable {asked : Arguments} {first second : Part}

theorem Part.Apart.symm (apart : first.Apart second) : second.Apart first := by
  cases first <;> cases second <;> exact apart

theorem Lacks.add (lacks : asked.Lacks second) (apart : first.Apart second) : (asked.add first).Lacks second := by
  cases first with
  | quiet =>
    cases second with
    | quiet => exact apart.elim
    | _ => exact lacks
  | code text =>
    cases second with
    | code text' => exact apart.elim
    | _ => exact lacks
  | script path =>
    cases second with
    | script path' => exact apart.elim
    | _ => exact lacks

theorem add_comm (apart : first.Apart second) (asked : Arguments) :
    (asked.add first).add second = (asked.add second).add first := by
  cases first with
  | quiet =>
    cases second with
    | quiet => exact apart.elim
    | _ => rfl
  | code text =>
    cases second with
    | code text' => exact apart.elim
    | _ => rfl
  | script path =>
    cases second with
    | script path' => exact apart.elim
    | _ => rfl

theorem pairwise_apart_parts (asked : Arguments) : asked.parts.Pairwise Part.Apart := by
  obtain ⟨script, eval, quiet⟩ := asked
  cases script <;> cases eval <;> cases quiet <;> simp [parts, Part.Apart]

theorem lacks_nothing (part : Part) : ({} : Arguments).Lacks part := by
  cases part <;> rfl

theorem foldl_add_parts (asked : Arguments) : asked.parts.foldl add {} = asked := by
  obtain ⟨script, eval, quiet⟩ := asked
  cases script <;> cases eval <;> cases quiet <;> rfl

/-- In any order the parts add up to what is asked for. -/
theorem foldl_add_of_perm {order : List Part} (perm : order.Perm asked.parts) : order.foldl add {} = asked := by
  have same : asked.parts.foldl add {} = order.foldl add {} := by
    refine perm.symm.foldl_eq' ?_ ({} : Arguments)
    intro first among second among' asked'
    by_cases equal : first = second
    · rw [equal]
    · have : Std.Symm Part.Apart := ⟨fun _ _ => Part.Apart.symm⟩
      exact (add_comm ((pairwise_apart_parts asked).forall among' among (Ne.symm equal)) asked').symm
  rw [← same, foldl_add_parts]

end

/-! ## What progress settles for -/

namespace Progress

variable {progress next : Progress} {asked : Arguments} {argument path : String}

theorem hasScript_of_settle (settles : progress.settle = .ok asked) : progress.hasScript = asked.script.isSome := by
  obtain ⟨accepted, pending⟩ := progress
  unfold settle at settles
  unfold hasScript
  match pending with
  | none => cases settles; simp
  | some .awaitedCode => cases settles
  | some (.code code) =>
    simp only [acceptCode] at settles
    split at settles
    · cases settles
    · cases settles; simp
  | some (.script path) =>
    simp only at settles
    split at settles
    · cases settles
    · cases settles; simp

theorem pending_ne_of_settle (settles : progress.settle = .ok asked) : progress.pending ≠ some .awaitedCode := by
  intro awaited
  rw [settle, awaited] at settles
  cases settles

theorem takeSwitch_quiet (settles : progress.settle = .ok asked) (lacks : asked.quiet = false) :
    progress.takeSwitch .quiet none = .ok ⟨{ asked with quiet := true }, none⟩ := by
  simp only [takeSwitch, settles, bind, Except.bind, lacks, if_neg Bool.false_ne_true]
  rfl

theorem takeSwitch_eval (settles : progress.settle = .ok asked) :
    progress.takeSwitch .eval none = .ok ⟨asked, some .awaitedCode⟩ := by
  simp only [takeSwitch, settles, bind, Except.bind]
  rfl

theorem acceptCode_of_eq_none (lacks : asked.eval = none) (code : String) :
    acceptCode asked code = .ok { asked with eval := some code } := by
  simp [acceptCode, lacks]

theorem takeSwitch_eval_attached (settles : progress.settle = .ok asked) (lacks : asked.eval = none) (code : String) :
    progress.takeSwitch .eval (some code) = .ok ⟨{ asked with eval := some code }, none⟩ := by
  simp only [takeSwitch, settles, bind, Except.bind, acceptCode_of_eq_none lacks]
  rfl

theorem takeScript_of_settle (settles : progress.settle = .ok asked) (lacks : asked.script = none) (path : String) :
    progress.takeScript path = .ok ⟨asked, some (.script path)⟩ := by
  rw [takeScript, hasScript_of_settle settles, lacks]
  simp only [settles, bind, Except.bind]
  rfl

/-- A pending script is asked for. -/
theorem settle_script (notEmpty : path ≠ "") :
    settle ⟨asked, some (.script path)⟩ = .ok { asked with script := some path } := by
  simp [settle, String.isEmpty_iff, notEmpty]

theorem settle_code (lacks : asked.eval = none) (code : String) :
    settle ⟨asked, some (.code code)⟩ = .ok { asked with eval := some code } :=
  acceptCode_of_eq_none lacks code

/-! ## Taking arguments -/

/-- A value is no option. -/
theorem take_of_isValue (value : IsValue argument) (progress : Progress) :
    progress.take argument
      = if progress.pending = some .awaitedCode then .ok { progress with pending := some (.code argument) }
        else progress.takeScript argument := by
  unfold take
  split
  · rename_i text shape
    exact absurd shape (value.toList_ne '-' text)
  · rename_i letter text _ shape
    exact absurd shape (value.toList_ne letter text)
  · rfl

theorem takeAll_cons (notEnd : argument ≠ "--") (taken : progress.take argument = .ok next) (rest : List String) :
    progress.takeAll (argument :: rest) = next.takeAll rest := by
  rw [takeAll, if_neg notEnd, taken]
  rfl

theorem toList_attached (code : String) :
    ("--eval=" ++ code).toList = '-' :: '-' :: (['e', 'v', 'a', 'l'] ++ '=' :: code.toList) := by
  rw [String.toList_append]
  rfl

theorem take_attached (settles : progress.settle = .ok asked) (lacks : asked.eval = none) (code : String) :
    progress.take ("--eval=" ++ code) = .ok ⟨{ asked with eval := some code }, none⟩ := by
  have name : ∀ c ∈ ['e', 'v', 'a', 'l'], (c != '=') = true := forall_mem_of_all (by decide)
  have stops : Stops (· != '=') ('=' :: code.toList) := stops_cons.mpr (by decide)
  have switch : Switch.ofName? (String.ofList ['e', 'v', 'a', 'l']) = some .eval := by decide
  have attached : ('=' :: code.toList).tail?.map String.ofList = some code := by
    rw [List.tail?_cons, Option.map_some, String.ofList_toList]
  simp only [take, toList_attached, takeLong, takeWhile_append_of_stops name stops,
    dropWhile_append_of_stops name stops, switch, attached]
  exact takeSwitch_eval_attached settles lacks code

/-- However a part is written, it adds itself to what is asked for, if nothing is there yet. -/
theorem exists_takeAll_append {part : Part} {words : List String} (spells : part.Spells words)
    (settles : progress.settle = .ok asked) (lacks : asked.Lacks part) :
    ∃ next : Progress, next.settle = .ok (asked.add part) ∧
      ∀ rest, progress.takeAll (words ++ rest) = next.takeAll rest := by
  cases spells with
  | quietShort =>
    have taken : progress.take "-q" = .ok ⟨{ asked with quiet := true }, none⟩ := by
      show progress.takeSwitch .quiet none >>= Except.ok = _
      rw [takeSwitch_quiet settles lacks]
      rfl
    exact ⟨_, rfl, takeAll_cons (by decide) taken⟩
  | quietLong =>
    have taken : progress.take "--quiet" = .ok ⟨{ asked with quiet := true }, none⟩ :=
      takeSwitch_quiet settles lacks
    exact ⟨_, rfl, takeAll_cons (by decide) taken⟩
  | codeAttached text =>
    have notEnd : "--eval=" ++ text ≠ "--" := by
      intro same
      have characters := congrArg String.toList same
      rw [toList_attached] at characters
      cases characters
    exact ⟨_, rfl, takeAll_cons notEnd (take_attached settles lacks text)⟩
  | @codeShort text value =>
    have opened : progress.take "-e" = .ok ⟨asked, some .awaitedCode⟩ := takeSwitch_eval settles
    have taken := take_of_isValue value ⟨asked, some .awaitedCode⟩
    refine ⟨_, settle_code lacks text, fun rest => ?_⟩
    exact (takeAll_cons (by decide) opened _).trans (takeAll_cons value.ne_end taken rest)
  | @codeLong text value =>
    have opened : progress.take "--eval" = .ok ⟨asked, some .awaitedCode⟩ := takeSwitch_eval settles
    have taken := take_of_isValue value ⟨asked, some .awaitedCode⟩
    refine ⟨_, settle_code lacks text, fun rest => ?_⟩
    exact (takeAll_cons (by decide) opened _).trans (takeAll_cons value.ne_end taken rest)
  | @script path notEmpty value =>
    have taken : progress.take path = .ok ⟨asked, some (.script path)⟩ := by
      rw [take_of_isValue value, if_neg (pending_ne_of_settle settles), takeScript_of_settle settles lacks]
    exact ⟨_, settle_script notEmpty, takeAll_cons value.ne_end taken⟩

/-- Parts that are written one after another are added one after another. -/
theorem exists_takeAll_flatten {order : List Part} {spellings : List (List String)}
    (spells : List.Forall₂ Part.Spells order spellings) (settles : progress.settle = .ok asked)
    (lacks : ∀ part ∈ order, asked.Lacks part) (apart : order.Pairwise Part.Apart) :
    ∃ next : Progress, next.settle = .ok (order.foldl add asked) ∧
      ∀ rest, progress.takeAll (spellings.flatten ++ rest) = next.takeAll rest := by
  induction spells generalizing progress asked with
  | nil => exact ⟨progress, settles, fun _ => rfl⟩
  | @cons part words order spellings first _ ih =>
    obtain ⟨lacksFirst, lacksOthers⟩ := List.forall_mem_cons.mp lacks
    obtain ⟨fromFirst, amongOthers⟩ := List.pairwise_cons.mp apart
    obtain ⟨next, settles', taken⟩ := exists_takeAll_append first settles lacksFirst
    have lacks' : ∀ other ∈ order, (asked.add part).Lacks other :=
      fun other among => (lacksOthers other among).add (fromFirst other among)
    obtain ⟨last, settles'', taken'⟩ := ih settles' lacks' amongOthers
    refine ⟨last, settles'', fun rest => ?_⟩
    rw [List.flatten_cons, List.append_assoc, taken, taken']

/-! ## The end of a command line -/

theorem finish_of_settle (settles : progress.settle = .ok asked) (one : asked.script = none ∨ asked.eval = none) :
    progress.finish = .ok asked := by
  have notBoth : ¬ (asked.script.isSome && asked.eval.isSome) = true := by
    rcases one with none | none
    all_goals simp [none]
  simp only [finish, settles, bind, Except.bind, if_neg notBoth]
  rfl

/-- Nothing is understood as a script and code. -/
theorem one_of_finish (finished : progress.finish = .ok asked) : asked.script = none ∨ asked.eval = none := by
  simp only [finish, bind, Except.bind] at finished
  split at finished
  · cases finished
  · split at finished
    · cases finished
    · rename_i notBoth
      cases finished
      cases script : asked.script with
      | none => exact .inl rfl
      | some path =>
        refine .inr ?_
        cases eval : asked.eval with
        | none => rfl
        | some code => exact absurd (by simp [script, eval]) notBoth

theorem one_of_takeAll {words : List String} (understood : progress.takeAll words = .ok asked) :
    asked.script = none ∨ asked.eval = none := by
  induction words generalizing progress with
  | nil => exact one_of_finish understood
  | cons word words ih =>
    rw [takeAll] at understood
    split at understood
    · cases taken : words.foldlM takeScript progress with
      | error refusal => rw [taken] at understood; cases understood
      | ok next => rw [taken] at understood; exact one_of_finish understood
    · cases taken : progress.take word with
      | error refusal => rw [taken] at understood; cases understood
      | ok next => rw [taken] at understood; exact ih understood

theorem takeAll_script (settles : progress.settle = .ok asked) (lacks : asked.script = none)
    (notEmpty : path ≠ "") (one : asked.eval = none) :
    progress.takeAll ["--", path] = .ok { asked with script := some path } := by
  rw [takeAll, if_pos rfl, List.foldlM_cons, takeScript_of_settle settles lacks]
  exact finish_of_settle (settle_script notEmpty) (.inr one)

end Progress

/-! ## The law -/

/-- Everything that can be asked for can be written. -/
theorem exists_isWritten (asked : Arguments) (notEmpty : asked.script ≠ some "") : ∃ words, IsWritten asked words := by
  have options : ∃ spellings,
      List.Forall₂ Part.Spells ({ asked with script := none } : Arguments).parts spellings := by
    obtain ⟨script, eval, quiet⟩ := asked
    cases eval with
    | none =>
      cases quiet
      · exact ⟨_, .nil⟩
      · exact ⟨_, .cons .quietShort .nil⟩
    | some code =>
      cases quiet
      · exact ⟨_, .cons (.codeAttached code) .nil⟩
      · exact ⟨_, .cons .quietShort (.cons (.codeAttached code) .nil)⟩
  obtain ⟨spellings, spells⟩ := options
  cases script : asked.script with
  | none =>
    have same : ({ asked with script := none } : Arguments) = asked := by
      rw [← script]
    rw [same] at spells
    exact ⟨_, .anyOrder (.refl _) spells⟩
  | some path =>
    have pathNotEmpty : path ≠ "" := by
      rintro rfl
      exact notEmpty script
    exact ⟨_, .scriptLast script pathNotEmpty (.refl _) spells⟩

theorem parse_of_isWritten {asked : Arguments} {words : List String} (written : IsWritten asked words)
    (one : asked.script = none ∨ asked.eval = none) : parse words = .ok asked := by
  have begins : Progress.settle {} = .ok {} := rfl
  cases written with
  | @anyOrder order spellings perm spells =>
    have apart : order.Pairwise Part.Apart :=
      perm.pairwise_iff Part.Apart.symm |>.mpr (pairwise_apart_parts asked)
    obtain ⟨last, settles, taken⟩ :=
      Progress.exists_takeAll_flatten spells begins (fun part _ => lacks_nothing part) apart
    rw [foldl_add_of_perm perm] at settles
    rw [parse, ← List.append_nil spellings.flatten, taken]
    exact Progress.finish_of_settle settles one
  | @scriptLast path order spellings script notEmpty perm spells =>
    have apart : order.Pairwise Part.Apart :=
      perm.pairwise_iff Part.Apart.symm |>.mpr (pairwise_apart_parts _)
    obtain ⟨last, settles, taken⟩ :=
      Progress.exists_takeAll_flatten spells begins (fun part _ => lacks_nothing part) apart
    rw [foldl_add_of_perm perm] at settles
    have noCode : asked.eval = none := by
      rcases one with none | none
      · rw [script] at none
        cases none
      · exact none
    rw [parse, taken, Progress.takeAll_script settles rfl notEmpty noCode, ← script]

/-- **What is asked for survives being written.** It can always be written, unless it is a script without a name; if
it is not both a script and code, then it is understood however it is written; and no command line at all is
understood as both. -/
theorem parse_written (asked : Arguments) :
    (asked.script ≠ some "" → ∃ words, IsWritten asked words) ∧
      (asked.script = none ∨ asked.eval = none → ∀ words, IsWritten asked words → parse words = .ok asked) ∧
      ∀ words, parse words = .ok asked → asked.script = none ∨ asked.eval = none :=
  ⟨exists_isWritten asked, fun one _ written => parse_of_isWritten written one, fun _ => Progress.one_of_takeAll⟩

/-- Code that looks like the end of the options with a value attached, and a script that is named like it. -/
theorem parse_written_dashes :
    let code : Arguments := { eval := some "--=é", quiet := true }
    let script : Arguments := { script := some "--", quiet := true }
    (IsWritten code ["--eval=--=é", "-q"] ∧ parse ["--eval=--=é", "-q"] = .ok code) ∧
      IsWritten script ["--quiet", "--", "--"] ∧ parse ["--quiet", "--", "--"] = .ok script := by
  intro code script
  have codeWritten : IsWritten code ["--eval=--=é", "-q"] :=
    .anyOrder (.swap _ _ _) (.cons (.codeAttached "--=é") (.cons .quietShort .nil))
  have scriptWritten : IsWritten script ([["--quiet"]].flatten ++ ["--", "--"]) :=
    .scriptLast rfl (by decide) (List.Perm.refl [Part.quiet]) (.cons .quietLong .nil)
  obtain ⟨-, understood, -⟩ := parse_written code
  obtain ⟨-, understood', -⟩ := parse_written script
  exact ⟨⟨codeWritten, understood (.inl rfl) _ codeWritten⟩, scriptWritten, understood' (.inr rfl) _ scriptWritten⟩

end Arguments

end LoxLexing
