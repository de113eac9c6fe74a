import LoxLexing.Proofs.ControlSequences
import LoxLexing.Proofs.Layout

/-!
# A highlighted line says the line

Colours are put into a line while it is typed.

**The law** (`plain_highlight`, `highlight_saysLine`): the pieces of a highlighted line, one after the other, say
the line, each between what switches its styles on and what switches them off. So what a terminal shows is the
line, character for character, and the cursor stands where it belongs.

The pieces of a token and its gap say the gap and the lexeme, however the gap is divided
(`Spaced.plain_highlight`), and gaps and lexemes are the line (`LaidOut.join`).

**What it does not establish.** A line that holds an escape of its own may show anything.
-/

namespace LoxLexing

/-! ## Gaps -/

theorem append_of_splitAtQuote? {gap front string : List Char}
    (found : splitAtQuote? gap = some (front, string)) : front ++ string = gap := by
  obtain ⟨count, _, same⟩ := Option.map_eq_some_iff.mp found
  obtain ⟨rfl, rfl⟩ := Prod.mk.inj same
  exact List.take_append_drop count gap

theorem plain_highlightGap (gap : List Char) (unterminated : Bool) :
    (highlightGap gap unterminated).plain = String.ofList gap := by
  unfold highlightGap
  split
  · rename_i front string found
    rw [StyledText.plain_cons, StyledText.plain_singleton, ← append_of_splitAtQuote? found, String.ofList_append]
    rfl
  · exact StyledText.plain_singleton _

/-! ## Tokens -/

namespace Spaced

/-- A token behind its gap says the gap and the lexeme. -/
theorem plain_highlight (hasOpenString : Bool) (spaced : Spaced) :
    (spaced.highlight hasOpenString).plain = String.ofList spaced.gap ++ spaced.token.lexeme := by
  unfold highlight
  rw [StyledText.plain_append, StyledText.plain_singleton]
  congr 1
  split
  · rename_i none
    rw [List.isEmpty_iff.mp none]
    rfl
  · exact plain_highlightGap _ _

end Spaced

/-! ## Lines -/

theorem plain_highlight (line : String) : (highlight line).plain = line := by
  unfold highlight
  split
  · exact StyledText.plain_singleton _
  · have laid : LaidOut 0 (spacedTokens line) line.toList := laidOut_spacedFrom .start line.toList
    have joined (spaceds : List Spaced) :
        StyledText.plain (spaceds.flatMap (Spaced.highlight (scan line).hasOpenString))
          = String.join (spaceds.map fun spaced => String.ofList spaced.gap ++ spaced.token.lexeme) := by
      induction spaceds with
      | nil => rfl
      | cons spaced spaceds ih =>
        rw [List.flatMap_cons, StyledText.plain_append, spaced.plain_highlight, ih, List.map_cons,
          String.join_cons]
    rw [joined, laid.join, String.ofList_toList]

/-- **A highlighted line says the line.** It is made of pieces between what switches their styles on and off; what
these say is the line; and if the line has no escape, this is all that is left of it without control
sequences. -/
theorem highlight_saysLine (line : String) :
    (highlight line).render = String.join ((highlight line).map fun piece =>
        Style.switchOn piece.styles ++ piece.text ++ Style.switchOff piece.styles) ∧
      (∀ piece ∈ highlight line, withoutSequences (Style.switchOn piece.styles).toList = [] ∧
        withoutSequences (Style.switchOff piece.styles).toList = [] ∧
        (piece.styles = [] → piece.render = piece.text)) ∧
      String.join ((highlight line).map Piece.text) = line ∧
      ('\x1b' ∉ line.toList → withoutSequences (highlight line).render.toList = line.toList) := by
  refine ⟨?_, ?_, plain_highlight line, ?_⟩
  · simp only [StyledText.render, ← Piece.render_eq]
  · intro piece _
    refine ⟨?_, ?_, ?_⟩
    · rw [← List.append_nil (Style.switchOn piece.styles).toList, Style.withoutSequences_switchOn,
        withoutSequences]
    · rw [← List.append_nil (Style.switchOff piece.styles).toList, Style.withoutSequences_switchOff,
        withoutSequences]
    · intro plain
      rw [Piece.render, plain]
      rfl
  · intro noEscape
    rw [← plain_highlight line] at noEscape
    rw [StyledText.withoutSequences_render noEscape, plain_highlight]

/-- A comment with quotes in it, a character that has no place in Lox, and a string that is open. -/
theorem highlight_saysLine_open :
    let line := "x / // \"é\"\n@ \"// open"
    let string : Piece := .coloured .green "\"// open"
    string ∈ highlight line ∧ withoutSequences (Style.switchOn string.styles).toList = [] ∧
      '\x1b' ∉ line.toList ∧ withoutSequences (highlight line).render.toList = line.toList ∧
      String.join ((highlight line).map Piece.text) = line := by
  intro line string
  obtain ⟨_, sequences, pieces, shows⟩ := highlight_saysLine line
  have mem : string ∈ highlight line := by decide +kernel
  have noEscape : '\x1b' ∉ line.toList := by decide
  exact ⟨mem, (sequences string mem).1, noEscape, shows noEscape, pieces⟩

end LoxLexing
