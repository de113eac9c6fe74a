import LoxLexing.Prompt.Continuation
import LoxLexing.Proofs.Sequence

/-!
# What a scan says apart from places

A token says what it is and where it stands, and so does a diagnostic. Its **content** is what is left when
the place is taken away. What segments give in this way does not depend on where a text begins
(`filterMap_segmentsFrom_of_isPlaceless`), so a text may be scanned as part of another one and still give
the same contents.

Of the places only one thing is needed elsewhere: a diagnostic of a text is on one of the lines of the text
(`line_of_diagnostic`). Of the wording of diagnostics it is which characters cannot come into it
(`Diagnostic.notMem_lineMark`, `LexicalError.notMem_message`).
-/

namespace LoxLexing

/-! ## Contents -/

/-- A token without its place. -/
structure Content where
  kind : Kind
  lexeme : String
  literal : Option Literal
deriving DecidableEq, Repr

/-- What a token is, wherever it stands. -/
def Token.content (token : Token) : Content :=
  ⟨token.kind, token.lexeme, token.literal⟩

/-- The content of the end of the input. -/
def Content.endOfInput : Content :=
  ⟨.endOfInput, "", none⟩

/-- The character that a diagnostic complains of. -/
def Diagnostic.unexpected? (diagnostic : Diagnostic) : Option Char :=
  match diagnostic.error with
  | .unexpectedCharacter c => some c
  | .unterminatedString => none

namespace Scan

/-- What the tokens of a scan are, but for the end of the input. -/
def contents (result : Scan) : List Content :=
  (result.tokens.filter (·.kind != .endOfInput)).map Token.content

/-- The characters that a scan complains of. -/
def unexpected (result : Scan) : List Char :=
  result.diagnostics.filterMap Diagnostic.unexpected?

end Scan

/-- The content that a segment gives. -/
def Located.content? (found : Located) : Option Content :=
  found.token?.map Token.content

/-- The unexpected character that a segment gives. -/
def Located.unexpected? (found : Located) : Option Char :=
  found.diagnostic?.bind Diagnostic.unexpected?

/-- Whether something that looks at segments does not look at their places. -/
def IsPlaceless {α : Type} (give : Located → Option α) : Prop :=
  ∀ here there segment, give ⟨here, segment⟩ = give ⟨there, segment⟩

theorem isPlaceless_content? : IsPlaceless Located.content? := by
  intro here there segment
  cases segment <;> rfl

theorem isPlaceless_unexpected? : IsPlaceless Located.unexpected? := by
  intro here there segment
  cases segment <;> rfl

theorem isSilent_content? : IsSilent Located.content? := by
  intro here
  obtain ⟨blank, comment⟩ := isSilent_token? here
  exact ⟨fun c => congrArg (Option.map _) (blank c), fun body => congrArg (Option.map _) (comment body)⟩

theorem filterMap_segmentsFrom_of_isPlaceless {α : Type} {give : Located → Option α}
    (placeless : IsPlaceless give) (here there : Position) (text : List Char) :
    (segmentsFrom here text).filterMap give = (segmentsFrom there text).filterMap give := by
  have located (segments : List Segment) (here there : Position) :
      (Segment.locate here segments).filterMap give
        = (Segment.locate there segments).filterMap give := by
    induction segments generalizing here there with
    | nil => rfl
    | cons segment segments ih =>
      rw [Segment.locate, Segment.locate, List.filterMap_cons, List.filterMap_cons,
        placeless here there, ih (here.after _) (there.after _)]
  rw [Segment.segmentsFrom_eq_locate, Segment.segmentsFrom_eq_locate]
  exact located _ here there

/-- But for the end of the input, the tokens of a source are those that its segments give. -/
theorem filter_tokens_scan (source : String) :
    (scan source).tokens.filter (·.kind != .endOfInput)
      = (segments source).filterMap Located.token? := by
  have kept : ((segments source).filterMap Located.token?).filter (·.kind != .endOfInput)
      = (segments source).filterMap Located.token? := by
    rw [List.filter_eq_self]
    intro token mem
    obtain ⟨found, _, given⟩ := List.mem_filterMap.mp mem
    exact bne_iff_ne.mpr (Located.of_token? given).1
  have closed (here : Position) : [Token.endOfInput here].filter (·.kind != .endOfInput) = [] := rfl
  rw [scan_tokens, List.filter_append, kept, closed, List.append_nil]

theorem contents_scan (source : String) :
    (scan source).contents = (segments source).filterMap Located.content? := by
  rw [Scan.contents, filter_tokens_scan, List.map_filterMap]
  rfl

theorem map_content_tokens (source : String) :
    (scan source).tokens.map Token.content
      = (segments source).filterMap Located.content? ++ [.endOfInput] := by
  rw [scan_tokens, List.map_append, List.map_filterMap]
  rfl

theorem unexpected_scan (source : String) :
    (scan source).unexpected = (segments source).filterMap Located.unexpected? := by
  rw [Scan.unexpected, scan_diagnostics, List.filterMap_filterMap]
  rfl

/-- A scan says whether a string is open. -/
theorem isClosed_of_hasOpenString {source : String} (closed : (scan source).hasOpenString = false) :
    Segment.IsClosed source.toList := by
  intro body mem
  obtain ⟨⟨here, segment⟩, mem', rfl⟩ := List.mem_map.mp mem
  have given : ⟨(here.after (Segment.unclosed body).text).line, .unterminatedString⟩
      ∈ (scan source).diagnostics := by
    rw [scan_diagnostics]
    exact List.mem_filterMap.mpr ⟨_, mem', rfl⟩
  have := List.any_eq_false.mp closed _ given
  exact absurd rfl this

theorem hasOpenString_eq_false_iff {source : String} :
    (scan source).hasOpenString = false ↔ Segment.IsClosed source.toList := by
  refine ⟨isClosed_of_hasOpenString, ?_⟩
  intro closed
  rw [Scan.hasOpenString, List.any_eq_false, scan_diagnostics]
  intro diagnostic mem openString
  obtain ⟨⟨here, segment⟩, among, given⟩ := List.mem_filterMap.mp mem
  cases segment with
  | unclosed body => exact closed body (List.mem_map.mpr ⟨_, among, rfl⟩)
  | stray c =>
    cases given
    cases openString
  | _ => cases given

/-! ## Lines -/

theorem line_of_diagnostic {diagnostic : Diagnostic} {here : Position} {text : List Char}
    (mem : diagnostic ∈ (segmentsFrom here text).filterMap Located.diagnostic?) :
    here.line ≤ diagnostic.line ∧ diagnostic.line ≤ here.line + newlines text := by
  obtain ⟨found, mem, given⟩ := List.mem_filterMap.mp mem
  obtain ⟨before, after, rfl, place, _⟩ := next?_of_mem_segmentsFrom mem
  obtain ⟨there, segment⟩ := found
  obtain rfl : there = here.after before := place
  rw [newlines_append, newlines_append]
  cases segment with
  | stray c =>
    cases Option.some.inj given
    exact ⟨Nat.le_add_right _ _, Nat.add_le_add_left (Nat.le_add_right _ _) _⟩
  | unclosed body =>
    cases Option.some.inj given
    simp only [Located.finish, Position.after]
    omega
  | _ => cases given

/-! ## Wording -/

section

variable {c : Char} {source : String}

/-- The line mark of a diagnostic is a fixed wording around digits. -/
theorem Diagnostic.notMem_lineMark (apart : c ∉ "[line ]".toList) (notDigit : c.isDigit = false)
    (diagnostic : Diagnostic) : c ∉ diagnostic.lineMark.toList := by
  have digits : c ∉ (toString diagnostic.line).toList := by
    intro mem
    rw [show toString diagnostic.line = diagnostic.line.repr from rfl, Nat.toList_repr] at mem
    rw [Nat.isDigit_of_mem_toDigits (by decide) (by decide) mem] at notDigit
    cases notDigit
  have wording : "[line ]".toList = "[line ".toList ++ "]".toList := rfl
  rw [wording, List.mem_append, not_or] at apart
  simp only [lineMark, String.toList_append, List.mem_append, not_or]
  exact ⟨⟨apart.1, digits⟩, apart.2⟩

/-- The message of an error is a fixed wording, around the character that it complains of. -/
theorem LexicalError.notMem_message {error : LexicalError}
    (apart : c ∉ "Unexpected character ''.Unterminated string.".toList)
    (other : ∀ d, error = .unexpectedCharacter d → c ≠ d) : c ∉ error.message.toList := by
  have wording : "Unexpected character ''.Unterminated string.".toList
      = "Unexpected character '".toList ++ "'.".toList ++ "Unterminated string.".toList := rfl
  rw [wording, List.mem_append, List.mem_append, not_or, not_or] at apart
  cases error with
  | unexpectedCharacter d =>
    show c ∉ ("Unexpected character '" ++ String.singleton d ++ "'.").toList
    rw [String.toList_append, String.toList_append, String.toList_singleton, List.mem_append, List.mem_append,
      List.mem_singleton, not_or, not_or]
    exact ⟨⟨apart.1.1, other d rfl⟩, apart.1.2⟩
  | unterminatedString => exact apart.2

/-- The characters of a segment are characters of the source. -/
theorem mem_of_mem_segments {found : Located} (among : found ∈ segments source) (mem : c ∈ found.segment.text) :
    c ∈ source.toList := by
  obtain ⟨before, after, split, -⟩ := next?_of_mem_segmentsFrom among
  rw [split]
  exact List.mem_append_right _ (List.mem_append_left _ mem)

/-- What a diagnostic complains of is a stray character of the source. -/
theorem stray_of_unexpected {diagnostic : Diagnostic}
    (mem : diagnostic ∈ (scan source).diagnostics) (unexpected : diagnostic.error = .unexpectedCharacter c) :
    isForeign c = true ∧ c ∈ source.toList := by
  rw [scan_diagnostics] at mem
  obtain ⟨⟨here, segment⟩, among, given⟩ := List.mem_filterMap.mp mem
  have wellFormed : segment.IsWellFormed := isWellFormed_of_mem_segmentsFrom among
  cases segment with
  | stray d =>
    obtain rfl := Option.some.inj given
    obtain rfl := LexicalError.unexpectedCharacter.inj unexpected
    exact ⟨wellFormed, mem_of_mem_segments among List.mem_cons_self⟩
  | unclosed body =>
    obtain rfl := Option.some.inj given
    cases unexpected
  | _ => cases given

end

end LoxLexing
