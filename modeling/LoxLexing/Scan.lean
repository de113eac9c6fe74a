import LoxLexing.Diagnostic
import LoxLexing.Segment
import LoxLexing.Token

/-!
# Scanning

Scanning walks over the segments of a source in order (`walk`), each with the position at which it
begins. A segment gives a token, or a diagnostic, or neither; the tokens are closed by one mark of the
end of the input. A scan always succeeds.

Everything that observes a scan is a step function handed to the same walk, so an observer sees each
segment once and in order, and has no way to influence what comes next. `walk_fst` and `walk_snd` say so:
a walk is a left fold over the list of located segments, and it ends behind the whole source. From this
follow the two descriptions of a scan that the rest of the library uses, `scanInto_fst` and
`scanInto_snd`.
-/

namespace LoxLexing

/-! ## What a segment gives -/

/-- A segment at its place in a source. -/
structure Located where
  position : Position
  segment : Segment
deriving DecidableEq, Repr

namespace Located

/-- The position behind the segment. -/
def finish (found : Located) : Position :=
  found.position.after found.segment.text

/-- The token of the given kind and value that spans the segment. -/
def toToken (found : Located) (kind : Kind) (literal : Option Literal) : Token :=
  ⟨kind, String.ofList found.segment.text, literal, found.position.line,
    ⟨found.position.offset, found.finish.offset⟩⟩

/-- The token that a segment gives. Its line is that of its first character. -/
def token? (found : Located) : Option Token :=
  match found.segment with
  | .operator op => some (found.toToken (.operator op) none)
  | .word text => some (found.toToken (.ofWord (String.ofList text)) none)
  | .number numeral => some (found.toToken .number (some (.number numeral.value)))
  | .quoted body => some (found.toToken .string (some (.text (String.ofList body))))
  | .comment _ | .blank _ | .stray _ | .unclosed _ => none

/-- The diagnostic that a segment gives. A string that is never closed is found to be so at its end. -/
def diagnostic? (found : Located) : Option Diagnostic :=
  match found.segment with
  | .stray c => some ⟨found.position.line, .unexpectedCharacter c⟩
  | .unclosed _ => some ⟨found.finish.line, .unterminatedString⟩
  | _ => none

end Located

/-! ## The walk over a source -/

/-- Hands every segment of `rest`, which begins at `here`, to `step`, and gives the last state and the
position behind the last segment. -/
def walk {σ : Type} (step : σ → Located → σ) (state : σ) (here : Position) (rest : List Char) :
    σ × Position :=
  match _h : Segment.next? rest with
  | none => (state, here)
  | some (segment, tail) =>
    walk step (step state ⟨here, segment⟩) (here.after segment.text) tail
termination_by rest.length
decreasing_by exact Segment.length_lt_of_next? _h

/-- The segments of a text that begins at `here`. -/
def segmentsFrom (here : Position) (rest : List Char) : List Located :=
  (walk Array.push #[] here rest).1.toList

/-- The segments of a source. -/
def segments (source : String) : List Located :=
  segmentsFrom .start source.toList

/-! ## Laws of the walk -/

@[simp] theorem walk_nil {σ : Type} (step : σ → Located → σ) (state : σ) (here : Position) :
    walk step state here [] = (state, here) := by
  rw [walk]
  rfl

theorem walk_of_next? {σ : Type} {rest tail : List Char} {segment : Segment}
    (found : Segment.next? rest = some (segment, tail)) (step : σ → Located → σ) (state : σ)
    (here : Position) :
    walk step state here rest
      = walk step (step state ⟨here, segment⟩) (here.after segment.text) tail := by
  rw [walk]
  split
  · simp_all
  · rename_i same
    rw [found] at same
    obtain ⟨rfl, rfl⟩ := Prod.mk.inj (Option.some.inj same)
    rfl

/-- A walk ends behind the whole text. -/
theorem walk_snd {σ : Type} (step : σ → Located → σ) (state : σ) (here : Position)
    (rest : List Char) : (walk step state here rest).2 = here.after rest := by
  fun_induction walk step state here rest with
  | case1 state here rest ended => simp [Segment.next?_eq_none_iff.mp ended]
  | case2 state here rest segment tail found ih =>
    rw [ih, ← Position.after_append, Segment.text_append_of_next? found]

private theorem walk_push (seen : Array Located) (here : Position) (rest : List Char) :
    (walk Array.push seen here rest).1 = seen ++ (walk Array.push #[] here rest).1 := by
  match found : Segment.next? rest with
  | none =>
    obtain rfl := Segment.next?_eq_none_iff.mp found
    simp
  | some (segment, tail) =>
    have := Segment.length_lt_of_next? found
    rw [walk_of_next? found, walk_of_next? found, walk_push (seen.push _),
      walk_push (Array.push #[] _)]
    simp
termination_by rest.length

@[simp] theorem segmentsFrom_nil (here : Position) : segmentsFrom here [] = [] := by
  simp [segmentsFrom]

theorem segmentsFrom_of_next? {rest tail : List Char} {segment : Segment}
    (found : Segment.next? rest = some (segment, tail)) (here : Position) :
    segmentsFrom here rest
      = ⟨here, segment⟩ :: segmentsFrom (here.after segment.text) tail := by
  rw [segmentsFrom, walk_of_next? found, walk_push]
  simp [segmentsFrom]

/-- What the segments of a text give is what the first one gives, and then the others. -/
theorem filterMap_segmentsFrom_of_next? {α : Type} {rest tail : List Char} {segment : Segment}
    (found : Segment.next? rest = some (segment, tail)) (give : Located → Option α)
    (here : Position) :
    (segmentsFrom here rest).filterMap give
      = (give ⟨here, segment⟩).toList
        ++ (segmentsFrom (here.after segment.text) tail).filterMap give := by
  rw [segmentsFrom_of_next? found]
  cases given : give ⟨here, segment⟩ with
  | none => rw [List.filterMap_cons_none given]; rfl
  | some x => rw [List.filterMap_cons_some given]; rfl

/-- A walk is a left fold over the segments. -/
theorem walk_fst {σ : Type} (step : σ → Located → σ) (state : σ) (here : Position)
    (rest : List Char) :
    (walk step state here rest).1 = (segmentsFrom here rest).foldl step state := by
  fun_induction walk step state here rest with
  | case1 state here rest ended => simp [Segment.next?_eq_none_iff.mp ended]
  | case2 state here rest segment tail found ih =>
    rw [ih, segmentsFrom_of_next? found, List.foldl_cons]

/-! ## Scans -/

/-- What scanning a source gives. -/
structure Scan where
  /-- The tokens, closed by the end of the input. -/
  tokens : List Token
  /-- The diagnostics, in the order in which they were found. -/
  diagnostics : List Diagnostic
deriving BEq, DecidableEq, Repr

/-- Whether a scan found anything wrong. -/
def Scan.hadError (result : Scan) : Bool :=
  !result.diagnostics.isEmpty

/-- Appends what a segment may have given. -/
def pushSome {α : Type} (seen : Array α) : Option α → Array α
  | none => seen
  | some x => seen.push x

/-- Scans a source and hands every diagnostic to `report` as soon as it is found. Gives the tokens and
the last state of the receiver of diagnostics. -/
def scanInto {σ : Type} (report : σ → Diagnostic → σ) (receiver : σ) (source : String) :
    List Token × σ :=
  let step := fun (state : Array Token × σ) found =>
    (pushSome state.1 found.token?, found.diagnostic?.elim state.2 (report state.2))
  let walked := walk step (#[], receiver) .start source.toList
  ((walked.1.1.push (.endOfInput walked.2)).toList, walked.1.2)

/-- Scans a source. -/
def scan (source : String) : Scan :=
  let scanned := scanInto Array.push #[] source
  ⟨scanned.1, scanned.2.toList⟩

/-! ## Laws of scanning -/

/-- The tokens of a source are those of its segments and the end of the input, whatever happens to the
diagnostics. -/
theorem scanInto_fst {σ : Type} (report : σ → Diagnostic → σ) (receiver : σ) (source : String) :
    (scanInto report receiver source).1
      = (segments source).filterMap Located.token? ++ [.endOfInput (Position.start.after source.toList)] := by
  have collected : ∀ (found : List Located) (seen : Array Token) (state : σ),
      (found.foldl (fun (state : Array Token × σ) found =>
        (pushSome state.1 found.token?, found.diagnostic?.elim state.2 (report state.2)))
        (seen, state)).1.toList = seen.toList ++ found.filterMap Located.token? := by
    intro found
    induction found with
    | nil => simp
    | cons first found ih =>
      intro seen state
      rw [List.foldl_cons, ih]
      cases given : first.token? <;> simp [pushSome, given]
  simp [scanInto, walk_fst, walk_snd, collected, segments]

/-- A receiver gets the diagnostics of a source's segments, each once and in order. -/
theorem scanInto_snd {σ : Type} (report : σ → Diagnostic → σ) (receiver : σ) (source : String) :
    (scanInto report receiver source).2
      = ((segments source).filterMap Located.diagnostic?).foldl report receiver := by
  have reported : ∀ (found : List Located) (seen : Array Token) (state : σ),
      (found.foldl (fun (state : Array Token × σ) found =>
        (pushSome state.1 found.token?, found.diagnostic?.elim state.2 (report state.2)))
        (seen, state)).2 = (found.filterMap Located.diagnostic?).foldl report state := by
    intro found
    induction found with
    | nil => simp
    | cons first found ih =>
      intro seen state
      rw [List.foldl_cons, ih]
      cases given : first.diagnostic? <;> simp [given]
  simp [scanInto, walk_fst, reported, segments]

theorem scan_tokens (source : String) :
    (scan source).tokens
      = (segments source).filterMap Located.token? ++ [.endOfInput (Position.start.after source.toList)] := by
  simp [scan, scanInto_fst]

/-- A token of a source is that of a segment, or the end of the input. -/
theorem mem_scan_tokens {source : String} {token : Token} :
    token ∈ (scan source).tokens ↔
      (∃ found ∈ segments source, found.token? = some token) ∨
        token = .endOfInput (Position.start.after source.toList) := by
  rw [scan_tokens, List.mem_append, List.mem_filterMap, List.mem_singleton]

theorem scan_diagnostics (source : String) :
    (scan source).diagnostics = (segments source).filterMap Located.diagnostic? := by
  simp [scan, scanInto_snd, List.foldl_push_eq_append']

end LoxLexing
