import LoxLexing.Proofs.ControlSequences
import LoxLexing.Proofs.Modes
import LoxLexing.Proofs.ShortestDigits
import LoxLexing.Report

/-!
# A coloured listing says the plain one

Tokens can be listed plainly or in colours, and the two are written apart: the plain line of a token is a text, and the
coloured one is put together from pieces. Diagnostics are always shown in colours, and have a plain line all the same.

**The law** (`coloured_saysPlain`): if a source holds no escape, then a coloured listing of its tokens without its
control sequences is their plain listing, and what is printed of its diagnostics is their plain lines, one for each and
in order.

Lines one after another are one styled text (`StyledText.lines`), and what this says is the plain lines, for any tokens
and diagnostics. So all that is left of the law is that no escape comes into a line which the source has not
(`escape_notMem_display`): the names of kinds, the digits of numbers and the words of an error hold none.

**What it does not establish.** A source that holds an escape may bring control sequences of its own into a string, and
these are taken out of a coloured listing as well.
-/

namespace LoxLexing

/-! ## Lines of styled text -/

namespace StyledText

/-- Styled texts one after another, each with a line end. -/
def lines (texts : List StyledText) : StyledText :=
  texts.flatMap (· ++ [.unstyled "\n"])

theorem render_append (front behind : StyledText) : render (front ++ behind) = render front ++ render behind := by
  rw [render, List.map_append, String.join_append]
  rfl

theorem render_lines (texts : List StyledText) : render (lines texts) = String.join (texts.map (·.render ++ "\n")) := by
  induction texts with
  | nil => rfl
  | cons text texts ih =>
    have lineEnd : render [.unstyled "\n"] = "\n" := rfl
    rw [lines, List.flatMap_cons, ← lines, render_append, render_append, lineEnd, ih, List.map_cons, String.join_cons]

theorem plain_lines (texts : List StyledText) : plain (lines texts) = String.join (texts.map (·.plain ++ "\n")) := by
  induction texts with
  | nil => rfl
  | cons text texts ih =>
    rw [lines, List.flatMap_cons, ← lines, plain_append, plain_append, plain_singleton, ih, List.map_cons,
      String.join_cons]
    rfl

/-- Where no line holds an escape, lines without their control sequences are what they say. -/
theorem withoutSequences_lines {texts : List StyledText} (noEscape : ∀ text ∈ texts, '\x1b' ∉ text.plain.toList) :
    withoutSequences (String.join (texts.map (·.render ++ "\n"))).toList
      = (String.join (texts.map (·.plain ++ "\n"))).toList := by
  rw [← render_lines, ← plain_lines]
  apply withoutSequences_render
  rw [plain_lines, String.toList_join, List.mem_flatMap]
  rintro ⟨line, among, mem⟩
  obtain ⟨text, mem', rfl⟩ := List.mem_map.mp among
  rw [String.toList_append, List.mem_append] at mem
  rcases mem with mem | mem
  · exact noEscape text mem' mem
  · exact absurd mem (by decide)

end StyledText

/-! ## What coloured lines say -/

/-- The coloured line of a token says its plain one. -/
theorem Token.plain_styled (token : Token) : token.styled.plain = token.display := by
  have name : token.kind.styled.text = token.kind.name := by
    cases token.kind <;> rfl
  rw [styled, StyledText.plain_cons, StyledText.plain_cons, StyledText.plain_singleton, name, display]
  simp only [Piece.unstyled, Piece.coloured, String.append_assoc]

/-- The coloured line of a diagnostic says its plain one. -/
theorem Diagnostic.plain_styled (diagnostic : Diagnostic) : diagnostic.styled.plain = diagnostic.display := by
  rw [styled, StyledText.plain_cons, StyledText.plain_cons, StyledText.plain_cons, StyledText.plain_singleton, display]
  simp only [Piece.unstyled, Piece.dimmed, errorWord, Piece.bold, String.append_assoc]
  rfl

/-! ## No escape comes into a line -/

/-- A number is written without escapes, whatever its value. -/
theorem Binary64.escape_notMem_text (x : Binary64) : '\x1b' ∉ x.text.toList := by
  have digits : '\x1b' ∉ x.shortest.text := by
    rw [← x.shortest.text_numeral]
    intro mem
    rcases Numeral.isDigit_or_eq_point x.shortest.isWellFormed_numeral _ mem with digit | point
    · cases digit
    · cases point
  have magnitude : '\x1b' ∉ x.magnitudeText := by
    unfold magnitudeText
    split
    · decide
    split
    · decide
    · exact digits
  unfold text
  split
  · decide
  rw [String.toList_ofList, List.mem_append, not_or]
  refine ⟨?_, magnitude⟩
  split
  all_goals decide

theorem Kind.escape_notMem_name (kind : Kind) : '\x1b' ∉ kind.name.toList := by
  have apart : ∀ kind ∈ all, '\x1b' ∉ kind.name.toList := by decide
  exact apart kind kind.mem_all

section

variable {source : String} {c : Char}

theorem mem_of_mem_lexeme {token : Token} (among : token ∈ (scan source).tokens) (mem : c ∈ token.lexeme.toList) :
    c ∈ source.toList := by
  rcases mem_scan_tokens.mp among with ⟨found, among, given⟩ | rfl
  · rw [(found.of_token? given).2.1, String.toList_ofList] at mem
    exact mem_of_mem_segments among mem
  · cases mem

/-- What a string stands for is a part of how it is written. -/
theorem mem_lexeme_of_literal {found : Located} {token : Token} {body : String} (given : found.token? = some token)
    (literal : token.literal = some (.text body)) (mem : c ∈ body.toList) : c ∈ token.lexeme.toList := by
  obtain ⟨here, segment⟩ := found
  rw [(Located.of_token? given).2.1, String.toList_ofList]
  cases segment with
  | number numeral =>
    have number : some (Literal.number numeral.value) = token.literal := congrArg Token.literal (Option.some.inj given)
    rw [literal] at number
    cases Option.some.inj number
  | quoted body' =>
    have text : some (Literal.text (String.ofList body')) = token.literal :=
      congrArg Token.literal (Option.some.inj given)
    rw [literal] at text
    rw [← Literal.text.inj (Option.some.inj text), String.toList_ofList] at mem
    exact List.mem_cons_of_mem _ (List.mem_append_left _ mem)
  | operator op => obtain rfl := Option.some.inj given; cases literal
  | word text => obtain rfl := Option.some.inj given; cases literal
  | _ => cases given

/-- The text of a value is that of a number, or a part of the lexeme. -/
theorem escape_notMem_literalText {token : Token} (among : token ∈ (scan source).tokens)
    (lexeme : '\x1b' ∉ token.lexeme.toList) : '\x1b' ∉ token.literalText.toList := by
  rw [Token.literalText]
  cases literal : token.literal with
  | none => exact nofun
  | some value =>
    cases value with
    | number x => exact x.escape_notMem_text
    | text body =>
      intro mem
      rcases mem_scan_tokens.mp among with ⟨found, -, given⟩ | rfl
      · exact lexeme (mem_lexeme_of_literal given literal mem)
      · cases literal

/-- A plain line of a token holds no escape that the source has not. -/
theorem Token.escape_notMem_display (noEscape : '\x1b' ∉ source.toList) {token : Token}
    (among : token ∈ (scan source).tokens) : '\x1b' ∉ token.display.toList := by
  have space : '\x1b' ∉ " ".toList := by decide
  have lexeme : '\x1b' ∉ token.lexeme.toList := fun mem => noEscape (mem_of_mem_lexeme among mem)
  simp only [display, String.toList_append, List.mem_append, not_or]
  exact ⟨⟨⟨⟨token.kind.escape_notMem_name, space⟩, lexeme⟩, space⟩, escape_notMem_literalText among lexeme⟩

/-- A plain line of a diagnostic holds no escape that the source has not. -/
theorem Diagnostic.escape_notMem_display (noEscape : '\x1b' ∉ source.toList) {diagnostic : Diagnostic}
    (among : diagnostic ∈ (scan source).diagnostics) : '\x1b' ∉ diagnostic.display.toList := by
  have message : '\x1b' ∉ diagnostic.message.toList := by
    refine LexicalError.notMem_message (by decide) ?_
    rintro _ unexpected rfl
    exact noEscape (stray_of_unexpected among unexpected).2
  simp only [display, String.toList_append, List.mem_append, not_or]
  exact ⟨⟨diagnostic.notMem_lineMark (by decide) (by decide), by decide⟩, message⟩

end

/-! ## The law -/

/-- **Colours change nothing of what is said.** If a source holds no escape, a coloured listing of its tokens without
its control sequences is their plain listing, and what is printed of its diagnostics is their plain lines. -/
theorem coloured_saysPlain {source : String} (noEscape : '\x1b' ∉ source.toList) :
    withoutSequences (listing .coloured (scan source).tokens).toList
        = (listing .plain (scan source).tokens).toList ∧
      withoutSequences (complaints (scan source).diagnostics).toList
        = (String.join ((scan source).diagnostics.map (·.display ++ "\n"))).toList := by
  constructor
  · have quiet : ∀ text ∈ (scan source).tokens.map Token.styled, '\x1b' ∉ text.plain.toList := by
      rw [List.forall_mem_map]
      intro token among
      rw [token.plain_styled]
      exact Token.escape_notMem_display noEscape among
    have shown := StyledText.withoutSequences_lines quiet
    simp only [List.map_map, Function.comp_def, Token.plain_styled] at shown
    exact shown
  · have quiet : ∀ text ∈ (scan source).diagnostics.map Diagnostic.styled, '\x1b' ∉ text.plain.toList := by
      rw [List.forall_mem_map]
      intro diagnostic among
      rw [diagnostic.plain_styled]
      exact Diagnostic.escape_notMem_display noEscape among
    have shown := StyledText.withoutSequences_lines quiet
    simp only [List.map_map, Function.comp_def, Diagnostic.plain_styled] at shown
    exact shown

/-- A string with what looks like a control sequence and a line end in it, a number, and a string that is open. -/
theorem coloured_saysPlain_brackets :
    let source := "\"[31m\n\" 007 é\""
    '\x1b' ∉ source.toList ∧
      withoutSequences (listing .coloured (scan source).tokens).toList
        = "STRING \"[31m\n\" [31m\n\nNUMBER 007 7\nEOF  \n".toList ∧
      withoutSequences (complaints (scan source).diagnostics).toList
        = "[line 2] Error: Unexpected character 'é'.\n[line 2] Error: Unterminated string.\n".toList := by
  intro source
  have noEscape : '\x1b' ∉ source.toList := by decide
  obtain ⟨tokens, diagnostics⟩ := coloured_saysPlain noEscape
  refine ⟨noEscape, ?_, ?_⟩
  · rw [tokens]
    decide +kernel
  · rw [diagnostics]
    decide +kernel

end LoxLexing
