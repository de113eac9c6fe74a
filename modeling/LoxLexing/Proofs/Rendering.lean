import LoxLexing.Proofs.Content
import LoxLexing.Proofs.Layout

/-!
# Writing tokens out

Tokens can be written out again: their lexemes one after the other, with a **separator** between each two,
which is a blank and then any white space and comments, each comment ended by a line feed (`Rendering`).

**The law** (`scan_of_rendering`): what was scanned, written out with any separators and scanned again, is
the same, and nothing is wrong with it. The tokens need not come from one source; whatever stands next to
each other there, the blank of a separator keeps it apart.

The proof goes along the rendering. A lexeme in front of a blank is read as the segment that it was
(`endsBefore_blank_of_token?`), and a separator is passed over (`filterMap_segmentsFrom_separator`).
-/

namespace LoxLexing

/-! ## Renderings -/

/-- What may stand between two lexemes: a blank, then white space and comments, none of which runs up to
the next lexeme. -/
def IsSeparator (text : List Char) : Prop :=
  ∃ c trivia, text = c :: trivia ∧ c ∈ [' ', '\t', '\r', '\n'] ∧ IsTrivia false trivia

/-- Whether a text is made of the lexemes of some tokens, with separators between them. -/
inductive Rendering : List Token → String → Prop where
  | nothing : Rendering [] ""
  | last (token : Token) : Rendering [token] token.lexeme
  | separated {token next : Token} {others : List Token} {separator text : String} :
    IsSeparator separator.toList → Rendering (next :: others) text →
      Rendering (token :: next :: others) (token.lexeme ++ separator ++ text)

/-- Whether a token, not the end of the input, is among those that some source is scanned into. -/
def Token.IsScanned (token : Token) : Prop :=
  token.kind ≠ .endOfInput ∧ ∃ source, token ∈ (scan source).tokens

/-! ## Separators -/

section

variable {α : Type} {give : Located → Option α}

theorem filterMap_segmentsFrom_blank (silent : IsSilent give) {c : Char} (blank : isBlank c = true)
    (here : Position) (behind : List Char) :
    (segmentsFrom here (c :: behind)).filterMap give
      = (segmentsFrom (here.after [c]) behind).filterMap give := by
  have wellFormed : (Segment.blank c).IsWellFormed := blank
  have reads : Segment.next? (c :: behind) = some (.blank c, behind) :=
    Segment.next?_of_endsBefore wellFormed trivial
  rw [filterMap_segmentsFrom_of_next? reads, (silent here).1]
  rfl

/-- White space and comments are passed over. -/
theorem filterMap_segmentsFrom_trivia (silent : IsSilent give) {trivia : List Char}
    (isTrivia : IsTrivia false trivia) (here : Position) (behind : List Char) :
    (segmentsFrom here (trivia ++ behind)).filterMap give
      = (segmentsFrom (here.after trivia) behind).filterMap give := by
  induction isTrivia generalizing here with
  | ended => rfl
  | @blank c rest blank _ ih =>
    rw [List.cons_append, filterMap_segmentsFrom_blank silent (isBlank_iff.mpr blank), ih,
      ← Position.after_append]
    rfl
  | @comment body rest oneLine _ ih =>
    have wellFormed : (Segment.comment body).IsWellFormed := oneLine
    have ends : (Segment.comment body).EndsBefore ('\n' :: rest ++ behind) :=
      stops_newline_cons.mpr rfl
    have text : '/' :: '/' :: (body ++ '\n' :: rest) ++ behind
        = (Segment.comment body).text ++ ('\n' :: rest ++ behind) := by
      simp [Segment.text]
    have reads := Segment.next?_of_endsBefore wellFormed ends
    rw [text, filterMap_segmentsFrom_of_next? reads, (silent here).2, Option.toList_none,
      List.nil_append, ih, ← Position.after_append]
    rfl
  | lastComment last => cases last

theorem filterMap_segmentsFrom_separator (silent : IsSilent give) {separator : List Char}
    (isSeparator : IsSeparator separator) (here : Position) (behind : List Char) :
    (segmentsFrom here (separator ++ behind)).filterMap give
      = (segmentsFrom (here.after separator) behind).filterMap give := by
  obtain ⟨c, trivia, rfl, blank, isTrivia⟩ := isSeparator
  exact filterMap_segmentsFrom_trivia silent (.blank blank isTrivia) here behind

/-- What a lexeme gives is not touched by the separator behind it, nor is what stands behind that. -/
theorem filterMap_segmentsFrom_separated (silent : IsSilent give) {found : Located} {token : Token}
    (wellFormed : found.segment.IsWellFormed) (given : found.token? = some token)
    {separator : List Char} (isSeparator : IsSeparator separator) (here : Position)
    (behind : List Char) :
    (segmentsFrom here (found.segment.text ++ (separator ++ behind))).filterMap give
      = (give ⟨here, found.segment⟩).toList
        ++ (segmentsFrom (here.after (found.segment.text ++ separator)) behind).filterMap give := by
  have ends : found.segment.EndsBefore (separator ++ behind) := by
    obtain ⟨c, trivia, rfl, blank, _⟩ := isSeparator
    exact Segment.endsBefore_blank_of_token? given (isBlank_iff.mpr blank) _
  have reads := Segment.next?_of_endsBefore wellFormed ends
  rw [filterMap_segmentsFrom_of_next? reads, filterMap_segmentsFrom_separator silent isSeparator,
    Position.after_append]

end

/-! ## Scanning a rendering -/

/-- A scanned token is that of a well-formed segment. -/
theorem Token.IsScanned.exists_located {token : Token} (scanned : token.IsScanned) :
    ∃ found : Located, found.segment.IsWellFormed ∧ found.token? = some token := by
  obtain ⟨notEnd, source, mem⟩ := scanned
  rcases mem_scan_tokens.mp mem with ⟨found, among, given⟩ | rfl
  · exact ⟨found, isWellFormed_of_mem_segmentsFrom among, given⟩
  · exact absurd rfl notEnd

theorem Located.content?_of_token? {found : Located} {token : Token}
    (given : found.token? = some token) (here : Position) :
    Located.content? ⟨here, found.segment⟩ = some token.content := by
  rw [isPlaceless_content? here found.position, Located.content?, given, Option.map_some]

theorem Located.diagnostic?_of_token? {found : Located} {token : Token}
    (given : found.token? = some token) (here : Position) :
    Located.diagnostic? ⟨here, found.segment⟩ = none := by
  obtain ⟨there, segment⟩ := found
  cases segment with
  | stray c => cases given
  | unclosed body => cases given
  | _ => rfl

/-- The segments of a rendering give what its tokens are, and nothing else. -/
theorem segmentsFrom_rendering {tokens : List Token} {text : String}
    (rendering : Rendering tokens text) (scanned : ∀ token ∈ tokens, token.IsScanned)
    (here : Position) :
    (segmentsFrom here text.toList).filterMap Located.content? = tokens.map Token.content ∧
      (segmentsFrom here text.toList).filterMap Located.diagnostic? = [] := by
  induction rendering generalizing here with
  | nothing =>
    rw [String.toList_empty, segmentsFrom_nil]
    exact ⟨rfl, rfl⟩
  | last token =>
    obtain ⟨found, wellFormed, given⟩ := (scanned token List.mem_cons_self).exists_located
    have reads := Segment.next?_of_endsBefore wellFormed (Segment.endsBefore_nil found.segment)
    rw [(found.of_token? given).2.1, String.toList_ofList, ← List.append_nil found.segment.text]
    refine ⟨?_, ?_⟩
    · rw [filterMap_segmentsFrom_of_next? reads, found.content?_of_token? given, segmentsFrom_nil]
      rfl
    · rw [filterMap_segmentsFrom_of_next? reads, found.diagnostic?_of_token? given, segmentsFrom_nil]
      rfl
  | @separated token next others separator text isSeparator _ ih =>
    obtain ⟨first, scanned'⟩ := List.forall_mem_cons.mp scanned
    obtain ⟨found, wellFormed, given⟩ := first.exists_located
    have behind := ih scanned' (here.after (found.segment.text ++ separator.toList))
    rw [String.toList_append, String.toList_append, List.append_assoc, (found.of_token? given).2.1,
      String.toList_ofList]
    refine ⟨?_, ?_⟩
    · rw [filterMap_segmentsFrom_separated isSilent_content? wellFormed given isSeparator,
        found.content?_of_token? given, behind.1]
      rfl
    · rw [filterMap_segmentsFrom_separated isSilent_diagnostic? wellFormed given isSeparator,
        found.diagnostic?_of_token? given, behind.2]
      rfl

/-- **Tokens that are written out scan back.** -/
theorem scan_of_rendering {tokens : List Token} {text : String}
    (scanned : ∀ token ∈ tokens, token.IsScanned) (rendering : Rendering tokens text) :
    (scan text).tokens.map Token.content = tokens.map Token.content ++ [.endOfInput] ∧
      (scan text).diagnostics = [] := by
  obtain ⟨contents, diagnostics⟩ := segmentsFrom_rendering rendering scanned .start
  rw [map_content_tokens, scan_diagnostics, segments, contents, diagnostics]
  exact ⟨rfl, rfl⟩

/-- A point between digits and two slashes stay apart, a comment with a quote in it is no string, and a string
with slashes and a line end in it is no comment. -/
theorem scan_of_rendering_slashes :
    let one : Token := ⟨.number, "1", some (.number ⟨0x3FF0000000000000⟩), 1, ⟨0, 1⟩⟩
    let dot : Token := ⟨.operator .dot, ".", none, 1, ⟨0, 1⟩⟩
    let slash : Token := ⟨.operator .slash, "/", none, 1, ⟨0, 1⟩⟩
    let string : Token := ⟨.string, "\"//\n\"", some (.text "//\n"), 1, ⟨0, 5⟩⟩
    let tokens := [one, dot, one, slash, slash, string]
    let text := "1" ++ " " ++ ("." ++ "\r" ++ ("1" ++ "\n" ++ ("/" ++ "\t" ++
      ("/" ++ " // \"/\n" ++ "\"//\n\""))))
    (∀ token ∈ tokens, token.IsScanned) ∧ Rendering tokens text ∧
      (scan text).tokens.map Token.content = tokens.map Token.content ++ [.endOfInput] ∧
      (scan text).diagnostics = [] := by
  intro one dot slash string tokens text
  have alone {token : Token} (notEnd : token.kind ≠ .endOfInput)
      (first : (scan token.lexeme).tokens.head? = some token) : token.IsScanned :=
    ⟨notEnd, token.lexeme, List.mem_of_head? first⟩
  have scanned : ∀ token ∈ tokens, token.IsScanned := by
    have isOne : one.IsScanned := alone (by decide) (by decide +kernel)
    have isDot : dot.IsScanned := alone (by decide) (by decide +kernel)
    have isSlash : slash.IsScanned := alone (by decide) (by decide +kernel)
    have isString : string.IsScanned := alone (by decide) (by decide +kernel)
    simp only [tokens, List.forall_mem_cons]
    exact ⟨isOne, isDot, isOne, isSlash, isSlash, isString, nofun⟩
  have blank (c : Char) (isBlank : c ∈ [' ', '\t', '\r', '\n']) : IsSeparator [c] :=
    ⟨c, [], rfl, isBlank, .ended⟩
  have comment : IsSeparator (' ' :: '/' :: '/' :: ([' ', '"', '/'] ++ ['\n'])) :=
    ⟨' ', _, rfl, by decide, .comment (by decide) (.blank (by decide) .ended)⟩
  have rendering : Rendering tokens text :=
    .separated (blank ' ' (by decide)) (.separated (blank '\r' (by decide))
      (.separated (blank '\n' (by decide)) (.separated (blank '\t' (by decide))
        (.separated comment (.last string)))))
  exact ⟨scanned, rendering, scan_of_rendering scanned rendering⟩

end LoxLexing
