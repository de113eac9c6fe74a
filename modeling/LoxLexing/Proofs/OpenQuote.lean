import LoxLexing.Proofs.Highlighting
import LoxLexing.Proofs.Modes
import LoxLexing.Proofs.OpenInput

/-!
# Where an open string begins in a highlighted line

A string that is not closed yet gives no token, so it lies in the gap before the end of the input. Highlighting
looks for it there again: it takes the first quote of the gap that is not in a comment.

**The law** (`openQuote_of_scan`): what is found is the quote at which the open string of the scan begins. From
there to the end the line is shown as a string, and what stands in front of it in the gap is dimmed. No other gap
has a quote outside its comments, and each is dimmed as a whole.

That a quote is outside a comment is said by reading the gap character by character, as a text by itself
(`countToQuote?_eq`). No slash is misread at the start of a gap, for the gap is made of whole segments: looking for
the quote passes over each of them in one go (`countToQuote?_append`), up to the open string. `HoldsOpenString`
says so of all gaps, and it holds of every rest of a source (`holdsOpenString_spacedFrom`).
-/

namespace LoxLexing

/-! ## Quotes outside comments -/

/-- Whether a character is a quote, and is read in code. -/
def CharacterRead.isCodeQuote (read : CharacterRead) : Bool :=
  read.mode == .code && read.character == '"'

/-- Whether all quotes of a text stand in comments. -/
def IsQuoteFree (text : List Char) : Prop :=
  ∀ read ∈ Mode.code.reads [] text, read.mode = .code → read.character ≠ '"'

namespace Mode

variable {mode : Mode} {body rest : List Char} {c : Char}

/-- Counts the characters up to the first quote that is read in code, from `count` on. -/
def countToCodeQuote? (mode : Mode) (count : Nat) (before text : List Char) : Option Nat :=
  ((mode.reads before text).findIdx? CharacterRead.isCodeQuote).map (count + ·)

/-- Any other character is counted. -/
theorem countToCodeQuote?_cons (before rest : List Char) (other : mode = .code → c ≠ '"') (count : Nat) :
    mode.countToCodeQuote? count before (c :: rest)
      = (mode.next c rest.head?).countToCodeQuote? (count + 1) (before ++ [c]) rest := by
  have unquoted : CharacterRead.isCodeQuote ⟨mode, before, c⟩ = false := by
    rw [CharacterRead.isCodeQuote, Bool.and_eq_false_imp]
    intro inCode
    exact beq_false_of_ne (other (eq_of_beq inCode))
  unfold countToCodeQuote?
  rw [reads, List.findIdx?_cons, unquoted, if_neg Bool.false_ne_true, Option.map_map]
  congr 1
  funext n
  simp only [Function.comp_apply]
  omega

/-- A comment is counted as a whole, and behind it the text is read as code. -/
theorem countToCodeQuote?_comment (before : List Char) (oneLine : '\n' ∉ body)
    (ends : Stops (· != '\n') rest) (count : Nat) :
    comment.countToCodeQuote? count before (body ++ rest)
      = code.countToCodeQuote? (count + body.length) (before ++ body) rest := by
  induction body generalizing before count with
  | nil =>
    rw [List.nil_append, List.append_nil]
    -- The line end leaves the comment, and is no quote in either mode.
    cases rest with
    | nil => rfl
    | cons c rest =>
      obtain rfl := stops_newline_cons.mp ends
      rfl
  | cons c body ih =>
    have notEnd : c ≠ '\n' := by
      rintro rfl
      exact oneLine List.mem_cons_self
    have oneLine' : '\n' ∉ body := fun mem => oneLine (List.mem_cons_of_mem c mem)
    have stays : comment.next c (body ++ rest).head? = comment := if_neg notEnd
    have notCode : comment = code → c ≠ '"' := nofun
    rw [List.cons_append, countToCodeQuote?_cons before _ notCode, stays, ih _ oneLine', List.append_assoc,
      List.singleton_append, List.length_cons, Nat.add_assoc, Nat.add_comm 1]

end Mode

section

variable {body rest gap : List Char} {c : Char}

theorem countToQuote?_quote (count : Nat) (rest : List Char) :
    countToQuote? count ('"' :: rest) = some count := by
  rw [countToQuote?, if_pos rfl]

theorem countToQuote?_cons (notQuote : c ≠ '"') (notComment : c = '/' → rest.head? ≠ some '/')
    (count : Nat) : countToQuote? count (c :: rest) = countToQuote? (count + 1) rest := by
  rw [countToQuote?, if_neg notQuote, if_neg fun slashes => notComment slashes.1 slashes.2]

/-- Looking for a quote passes over a comment. -/
theorem countToQuote?_comment (oneLine : '\n' ∉ body) (ends : Stops (· != '\n') rest) (count : Nat) :
    countToQuote? count ('/' :: '/' :: (body ++ rest)) = countToQuote? (count + (body.length + 2)) rest := by
  have run : ∀ c ∈ '/' :: body, (c != '\n') = true :=
    List.forall_mem_cons.mpr ⟨by decide, forall_mem_bne_iff.mpr oneLine⟩
  have slashes : '/' = '/' ∧ ('/' :: (body ++ rest)).head? = some '/' := ⟨rfl, rfl⟩
  rw [countToQuote?, if_neg (by decide), if_pos slashes, ← List.cons_append,
    takeWhile_append_of_stops run ends, dropWhile_append_of_stops run ends]
  have length : count + 1 + ('/' :: body).length = count + (body.length + 2) := by
    rw [List.length_cons]
    omega
  exact congrArg (countToQuote? · rest) length

/-- **The quote that is looked for** is the first one that is read in code. -/
theorem countToQuote?_eq (count : Nat) (before text : List Char) :
    countToQuote? count text = Mode.code.countToCodeQuote? count before text := by
  fun_induction countToQuote? count text generalizing before with
  | case1 count => rfl
  | case2 count rest => rfl
  | case3 count c rest notQuote slashes comment ih =>
    obtain ⟨rfl, second⟩ := slashes
    have oneLine : '\n' ∉ comment := forall_mem_bne_iff.mp (forall_mem_takeWhile _ rest)
    have ends := stops_dropWhile (· != '\n') rest
    have enters : Mode.code.next '/' rest.head? = .comment := by
      rw [Mode.next, if_neg notQuote, if_pos ⟨rfl, second⟩]
    have split : comment ++ rest.dropWhile (· != '\n') = rest := List.takeWhile_append_dropWhile
    rw [Mode.countToCodeQuote?_cons before rest (fun _ => notQuote), enters]
    conv_rhs => rw [← split]
    rw [Mode.countToCodeQuote?_comment _ oneLine ends]
    exact ih _
  | case4 count c rest notQuote noComment ih =>
    have stays : Mode.code.next c rest.head? = .code := by
      rw [Mode.next, if_neg notQuote, if_neg noComment]
    rw [Mode.countToCodeQuote?_cons before rest (fun _ => notQuote), stays]
    exact ih _

/-- Nothing is found just if there is no quote outside comments. -/
theorem countToQuote?_eq_none_iff (count : Nat) : countToQuote? count gap = none ↔ IsQuoteFree gap := by
  rw [countToQuote?_eq count [], Mode.countToCodeQuote?, Option.map_eq_none_iff, List.findIdx?_eq_none_iff]
  simp only [CharacterRead.isCodeQuote, Bool.and_eq_false_imp, beq_iff_eq, beq_eq_false_iff_ne]
  rfl

/-! ## Gaps are made of segments -/

/-- Looking for a quote passes over a segment that gives no token, but for an open string. A comment has to end
before the gap goes on. -/
theorem countToQuote?_append {here : Position} {segment : Segment} (wellFormed : segment.IsWellFormed)
    (noToken : Located.token? ⟨here, segment⟩ = none) (closed : ∀ body, segment ≠ .unclosed body)
    (ends : ∀ body, segment = .comment body → Stops (· != '\n') gap) (count : Nat) :
    countToQuote? count (segment.text ++ gap) = countToQuote? (count + segment.text.length) gap := by
  cases segment with
  | blank c =>
    have blank : ∀ c ∈ [' ', '\t', '\r', '\n'], c ≠ '"' ∧ c ≠ '/' := forall_mem_of_all (by decide)
    obtain ⟨notQuote, notSlash⟩ := blank c (isBlank_iff.mp wellFormed)
    exact countToQuote?_cons notQuote (fun slash => absurd slash notSlash) count
  | stray c =>
    obtain ⟨_, _, notQuote, _⟩ := isForeign_iff.mp wellFormed
    have notSlash : c ≠ '/' := ne_slash_of_isForeign wellFormed
    exact countToQuote?_cons notQuote (fun slash => absurd slash notSlash) count
  | comment body => exact countToQuote?_comment wellFormed (ends body rfl) count
  | unclosed body => exact absurd rfl (closed body)
  | operator op => cases noToken
  | word text => cases noToken
  | number numeral => cases noToken
  | quoted body => cases noToken

/-- The line end behind a comment, or the end of the source, is in the same gap. -/
theorem stops_gap_spacedFrom (here : Position) (ends : Stops (· != '\n') rest) :
    Stops (· != '\n') (spacedFrom here rest).1.gap := by
  cases rest with
  | nil =>
    rw [spacedFrom_nil]
    exact ends
  | cons c rest =>
    obtain rfl := stops_newline_cons.mp ends
    rw [spacedFrom_blank here rfl]
    exact stops_newline_cons.mpr rfl

end

/-- The open string at the end of a text, from its quote on, or nothing. -/
def openString (input : List Char) : List Char :=
  (Segment.sequence input).flatMap fun
    | .unclosed body => '"' :: body
    | _ => []

/-- Whether an open string lies at the end of the last gap, and all quotes in front of it in this gap, and in the
other gaps, stand in comments. -/
inductive HoldsOpenString (string : List Char) : List Spaced → Prop where
  | last {front : List Char} (token : Token) :
    (∀ count, countToQuote? count (front ++ string) = countToQuote? (count + front.length) string) →
    HoldsOpenString string [⟨front ++ string, token⟩]
  | cons {first : Spaced} {others : List Spaced} :
    IsQuoteFree first.gap → HoldsOpenString string others → HoldsOpenString string (first :: others)

section

variable {rest string body : List Char} {segment : Segment} {here place : Position}

theorem openString_nil : openString [] = [] := by
  rw [openString, Segment.sequence_nil, List.flatMap_nil]

theorem openString_of_next? (found : Segment.next? (segment.text ++ rest) = some (segment, rest))
    (closed : ∀ body, segment ≠ .unclosed body) :
    openString (segment.text ++ rest) = openString rest := by
  unfold openString
  rw [Segment.sequence_of_next? found, List.flatMap_cons]
  cases segment with
  | unclosed body => exact absurd rfl (closed body)
  | _ => rfl

theorem openString_unclosed (found : Segment.next? ('"' :: body) = some (.unclosed body, [])) :
    openString ('"' :: body) = '"' :: body := by
  rw [openString, Segment.sequence_of_next? found, Segment.sequence_nil, List.flatMap_singleton]

theorem isQuoteFree_nil : IsQuoteFree [] := by
  rw [← countToQuote?_eq_none_iff 0, countToQuote?]

theorem HoldsOpenString.whole (string : List Char) (token : Token) :
    HoldsOpenString string [⟨string, token⟩] := by
  have nothing : ∀ count, countToQuote? count ([] ++ string) = countToQuote? (count + 0) string := fun _ => rfl
  exact .last token nothing

/-- What is passed over may be put in front of the first gap. -/
theorem HoldsOpenString.append {front gap : List Char} {token : Token} {others : List Spaced}
    (holds : HoldsOpenString string (⟨gap, token⟩ :: others))
    (passes : ∀ count, countToQuote? count (front ++ gap) = countToQuote? (count + front.length) gap) :
    HoldsOpenString string (⟨front ++ gap, token⟩ :: others) := by
  cases holds with
  | @last front' _ passes' =>
    rw [← List.append_assoc]
    refine .last token ?_
    intro count
    rw [List.append_assoc, passes, passes', List.length_append, Nat.add_assoc]
  | cons free holds =>
    refine .cons ?_ holds
    rw [← countToQuote?_eq_none_iff 0, passes]
    exact (countToQuote?_eq_none_iff _).mpr free

/-- The last gap of a source, and no other, holds its open string. -/
theorem holdsOpenString_spacedFrom (here : Position) (input : List Char) :
    HoldsOpenString (openString input) ((spacedFrom here input).1 :: (spacedFrom here input).2) := by
  induction input using Segment.next?_induction_unclosed generalizing here with
  | ended =>
    rw [spacedFrom_nil, openString_nil]
    exact .whole [] _
  | @unclosed body _ found =>
    rw [openString_unclosed found, spacedFrom, segmentsFrom_of_next? found, segmentsFrom_nil]
    show HoldsOpenString _ [⟨'"' :: body ++ [], _⟩]
    rw [List.append_nil]
    exact .whole _ _
  | @closed segment rest found wellFormed ends closed ih =>
    have behind := ih (here.after segment.text)
    rw [openString_of_next? found closed, spacedFrom_of_next? here found]
    cases given : Located.token? ⟨here, segment⟩ with
    | some token =>
      rw [Spaced.prepend, given]
      exact .cons isQuoteFree_nil behind
    | none =>
      rw [Spaced.prepend, given]
      refine behind.append ?_
      intro count
      refine countToQuote?_append wellFormed given closed ?_ count
      rintro body rfl
      exact stops_gap_spacedFrom _ ends

/-- An open string is what the scan takes for one, and it goes on to the end. -/
theorem exists_unclosed (here : Position) (input : List Char) :
    (openString input = [] ∧ Segment.IsClosed input) ∨
      ∃ before body, openString input = '"' :: body ∧ input = before ++ '"' :: body ∧
        ⟨here.after before, .unclosed body⟩ ∈ segmentsFrom here input := by
  induction input using Segment.next?_induction_unclosed generalizing here with
  | ended =>
    refine .inl ⟨openString_nil, ?_⟩
    intro body mem
    rw [Segment.sequence_nil] at mem
    cases mem
  | @unclosed body _ found =>
    refine .inr ⟨[], body, openString_unclosed found, rfl, ?_⟩
    rw [segmentsFrom_of_next? found]
    exact List.mem_cons_self
  | @closed segment rest found _ _ closed ih =>
    rw [openString_of_next? found closed, Segment.isClosed_cons found, segmentsFrom_of_next? found]
    rcases ih (here.after segment.text) with ⟨nothing, closed'⟩ | ⟨before, body, string, split, mem⟩
    · exact .inl ⟨nothing, closed, closed'⟩
    · refine .inr ⟨segment.text ++ before, body, string, ?_, ?_⟩
      · rw [split, List.append_assoc]
      · rw [Position.after_append]
        exact List.mem_cons_of_mem _ mem

theorem HoldsOpenString.exists_eq_concat {spaceds : List Spaced} (holds : HoldsOpenString string spaceds) :
    ∃ others front token, spaceds = others ++ [⟨front ++ string, token⟩] ∧
      (∀ spaced ∈ others, IsQuoteFree spaced.gap) ∧
      ∀ count, countToQuote? count (front ++ string) = countToQuote? (count + front.length) string := by
  induction holds with
  | @last front token passes => exact ⟨[], front, token, rfl, by simp, passes⟩
  | @cons first _ free _ ih =>
    obtain ⟨others, front, token, rfl, frees, passes⟩ := ih
    exact ⟨first :: others, front, token, rfl, List.forall_mem_cons.mpr ⟨free, frees⟩, passes⟩

end

/-! ## The last gap -/

/-- The last gap ends where the last token begins. -/
theorem LaidOut.getLast?_gapSpans {start : Nat} {others : List Spaced} {last : Spaced} {text : List Char}
    (laid : LaidOut start (others ++ [last]) text) :
    ∃ first, (gapSpans start ((others ++ [last]).map (·.token))).getLast?
        = some ⟨first, last.token.span.start⟩ ∧
      first + utf8Length last.gap = last.token.span.start := by
  induction others generalizing start text with
  | nil =>
    cases laid with
    | spaced lexeme _ placed _ => exact ⟨start, rfl, by rw [placed]⟩
  | cons spaced others ih =>
    cases laid with
    | spaced lexeme _ placed filled =>
      obtain ⟨first, found, ended⟩ := ih filled
      refine ⟨first, ?_, ended⟩
      rw [List.cons_append, List.map_cons, gapSpans, placed, List.getLast?_cons, found]
      rfl

/-! ## Colours -/

namespace Spaced

/-- A lexeme behind its gap, with all of the gap dimmed. -/
def dimmed (spaced : Spaced) : StyledText :=
  (if spaced.gap.isEmpty then [] else [.dimmed (String.ofList spaced.gap)])
    ++ [⟨spaced.token.kind.lexemeStyles, spaced.token.lexeme⟩]

variable {hasOpenString : Bool} {spaced : Spaced}

theorem highlight_eq_dimmed (closed : (hasOpenString && spaced.token.kind == .endOfInput) = false) :
    spaced.highlight hasOpenString = spaced.dimmed := by
  rw [highlight, closed]
  rfl

end Spaced

theorem splitAtQuote?_append {front body : List Char}
    (passes : ∀ count, countToQuote? count (front ++ '"' :: body)
      = countToQuote? (count + front.length) ('"' :: body)) :
    splitAtQuote? (front ++ '"' :: body) = some (front, '"' :: body) := by
  rw [splitAtQuote?, passes, countToQuote?_quote, Nat.zero_add, Option.map_some, List.take_left, List.drop_left]

/-- The open string is shown as a string, and what stands in front of it in the gap is dimmed. -/
theorem Spaced.highlight_open {gap front string : List Char} (place : Position)
    (found : splitAtQuote? gap = some (front, string)) :
    Spaced.highlight true ⟨gap, .endOfInput place⟩
      = [.dimmed (String.ofList front), .coloured .green (String.ofList string), .unstyled ""] := by
  cases gap with
  | nil =>
    rw [splitAtQuote?, countToQuote?] at found
    cases found
  | cons c rest =>
    show highlightGap (c :: rest) true ++ [.unstyled ""] = _
    unfold highlightGap
    rw [found]
    rfl

section

variable {line : String}

/-- The last token, and no other, is the end of the input. -/
theorem spacedTokens_eq_concat {others : List Spaced} {last : Spaced}
    (split : spacedTokens line = others ++ [last]) :
    last.token = .endOfInput (Position.start.after line.toList) ∧
      ∀ spaced ∈ others, spaced.token.kind ≠ .endOfInput := by
  obtain ⟨front, ended, tokens, notEnd, _⟩ := exists_tokens_eq_concat line
  have same := scan_tokens line
  rw [← map_token_spacedTokens, split, List.map_append, List.map_singleton] at tokens same
  refine ⟨(List.append_singleton_inj.mp same).2, ?_⟩
  intro spaced mem
  rw [← (List.append_singleton_inj.mp tokens).1] at notEnd
  exact notEnd spaced.token (List.mem_map_of_mem mem)

theorem flatMap_highlight {spaceds : List Spaced} {hasOpenString : Bool}
    (closed : ∀ spaced ∈ spaceds, (hasOpenString && spaced.token.kind == .endOfInput) = false) :
    spaceds.flatMap (Spaced.highlight hasOpenString) = spaceds.flatMap Spaced.dimmed :=
  List.flatMap_congr fun spaced mem => Spaced.highlight_eq_dimmed (closed spaced mem)

theorem slices_gaps (line : String) :
    (gapSpans 0 (scan line).tokens).map (·.slice? line)
      = (spacedTokens line).map fun spaced => some (String.ofList spaced.gap) := by
  have laid : LaidOut (utf8Length []) (spacedTokens line) line.toList := laidOut_spacedFrom .start line.toList
  rw [← map_token_spacedTokens]
  exact laid.slice?_gaps rfl

/-- Source is shown token by token. -/
theorem highlight_of_parse?_eq_none (noCommand : Command.parse? line = none) :
    highlight line = (spacedTokens line).flatMap (Spaced.highlight (scan line).hasOpenString) := by
  rw [highlight, noCommand]
  rfl

/-- Without an open string all gaps are dimmed, and have quotes in comments only. -/
theorem highlight_of_isClosed (noCommand : Command.parse? line = none)
    (closed : (scan line).hasOpenString = false) :
    highlight line = (spacedTokens line).flatMap Spaced.dimmed ∧
      ∀ spaced ∈ spacedTokens line, IsQuoteFree spaced.gap := by
  refine ⟨?_, ?_⟩
  · rw [highlight_of_parse?_eq_none noCommand, closed]
    exact flatMap_highlight fun _ _ => rfl
  · have holds : HoldsOpenString _ (spacedTokens line) := holdsOpenString_spacedFrom .start line.toList
    obtain ⟨others, front, token, split, free, passes⟩ := holds.exists_eq_concat
    have nothing : openString line.toList = [] := by
      rcases exists_unclosed .start line.toList with ⟨nothing, _⟩ | ⟨_, body, _, _, mem⟩
      · exact nothing
      · exact absurd (List.mem_map_of_mem mem) (hasOpenString_eq_false_iff.mp closed body)
    rw [split, List.forall_mem_append]
    refine ⟨free, ?_⟩
    rw [List.forall_mem_singleton, ← countToQuote?_eq_none_iff 0, passes, nothing, countToQuote?]

/-- An open string is found at its quote, and shown as one; all other gaps, and what stands in front of it in the
last one, are dimmed. -/
theorem highlight_of_isOpen (noCommand : Command.parse? line = none)
    (isOpen : (scan line).hasOpenString = true) :
    ∃ (others : List Spaced) (last : Spaced) (front body : List Char) (start : Nat) (quote : Position),
      spacedTokens line = others ++ [last] ∧ last.token.kind = .endOfInput ∧
      last.gap = front ++ '"' :: body ∧ openQuote? last.gap = some (utf8Length front) ∧
      (gapSpans 0 (scan line).tokens).getLast? = some ⟨start, line.utf8ByteSize⟩ ∧
      ⟨quote, .unclosed body⟩ ∈ segments line ∧ start + utf8Length front = quote.offset ∧
      Span.slice? ⟨quote.offset, line.utf8ByteSize⟩ line = some (String.ofList ('"' :: body)) ∧
      highlight line = others.flatMap Spaced.dimmed
        ++ [.dimmed (String.ofList front), .coloured .green (String.ofList ('"' :: body)), .unstyled ""] ∧
      ∀ spaced ∈ others, IsQuoteFree spaced.gap := by
  have notClosed : ¬ Segment.IsClosed line.toList := by
    rw [← hasOpenString_eq_false_iff, isOpen]
    exact Bool.noConfusion
  have holds : HoldsOpenString _ (spacedTokens line) := holdsOpenString_spacedFrom .start line.toList
  obtain ⟨others, front, token, split, free, passes⟩ := holds.exists_eq_concat
  rcases exists_unclosed .start line.toList with ⟨_, closed⟩ | ⟨before, body, string, whole, mem⟩
  · exact absurd closed notClosed
  rw [string] at split passes
  obtain ⟨ended, notEnd⟩ := spacedTokens_eq_concat split
  obtain rfl : token = _ := ended
  have size : line.utf8ByteSize = utf8Length before + utf8Length ('"' :: body) := by
    rw [size_eq_utf8Length, whole, utf8Length_append]
  have place : (Position.start.after before).offset = utf8Length before := Nat.zero_add _
  have stop : (Position.start.after line.toList).offset = line.utf8ByteSize := by
    rw [size_eq_utf8Length]
    exact Nat.zero_add _
  have laid : LaidOut 0 (spacedTokens line) line.toList := laidOut_spacedFrom .start line.toList
  rw [split] at laid
  obtain ⟨start, span, gapEnd⟩ := laid.getLast?_gapSpans
  have gapEnd : start + utf8Length (front ++ '"' :: body) = line.utf8ByteSize := gapEnd.trans stop
  rw [← split, map_token_spacedTokens] at span
  have found := splitAtQuote?_append passes
  refine ⟨others, _, front, body, start, _, split, rfl, rfl, ?_, ?_, mem, ?_, ?_, ?_, free⟩
  · rw [openQuote?, found, Option.map_some]
  · rw [span, ← stop]
    rfl
  · rw [utf8Length_append] at gapEnd
    omega
  · rw [place, size]
    exact slice?_of_toList (by rw [whole, List.append_nil])
  · have dimmed : others.flatMap (Spaced.highlight true) = others.flatMap Spaced.dimmed :=
      flatMap_highlight fun spaced mem => beq_false_of_ne (notEnd spaced mem)
    rw [highlight_of_parse?_eq_none noCommand, isOpen, split, List.flatMap_append, dimmed,
      List.flatMap_singleton, Spaced.highlight_open _ found]

end

/-- **The open string is found exactly.** The gaps are what the spans between the tokens slice out of the line. If
the scan reports an open string, then `openQuote?` gives in the last gap the offset of the quote that this string
begins with, and the line is shown as a string from there to its end, and dimmed in the gap in front of it. All
other gaps are dimmed as a whole, and have no quotes but in comments. -/
theorem openQuote_of_scan {line : String} (noCommand : Command.parse? line = none) :
    ((gapSpans 0 (scan line).tokens).map (·.slice? line)
        = (spacedTokens line).map fun spaced => some (String.ofList spaced.gap)) ∧
      ((scan line).hasOpenString = true →
        ∃ (others : List Spaced) (last : Spaced) (front body : List Char) (start : Nat) (quote : Position),
          spacedTokens line = others ++ [last] ∧ last.token.kind = .endOfInput ∧
          last.gap = front ++ '"' :: body ∧ openQuote? last.gap = some (utf8Length front) ∧
          (gapSpans 0 (scan line).tokens).getLast? = some ⟨start, line.utf8ByteSize⟩ ∧
          ⟨quote, .unclosed body⟩ ∈ segments line ∧ start + utf8Length front = quote.offset ∧
          Span.slice? ⟨quote.offset, line.utf8ByteSize⟩ line = some (String.ofList ('"' :: body)) ∧
          highlight line = others.flatMap Spaced.dimmed
            ++ [.dimmed (String.ofList front), .coloured .green (String.ofList ('"' :: body)), .unstyled ""] ∧
          ∀ spaced ∈ others, IsQuoteFree spaced.gap) ∧
      ((scan line).hasOpenString = false →
        highlight line = (spacedTokens line).flatMap Spaced.dimmed ∧
          ∀ spaced ∈ spacedTokens line, IsQuoteFree spaced.gap) :=
  ⟨slices_gaps line, highlight_of_isOpen noCommand, highlight_of_isClosed noCommand⟩

/-- Behind a slash come a comment with quotes, a character that has no place in Lox, and an open string with
slashes. And a line that has quotes in a comment only. -/
theorem openQuote_of_scan_slash :
    let line := "x / // \"é\"\n @é \"// open"
    let closed := "x / // \"c"
    (Command.parse? line = none ∧ (scan line).hasOpenString = true ∧
      ∃ (last : Spaced) (front body : List Char) (start : Nat) (quote : Position),
        last ∈ spacedTokens line ∧ last.gap = front ++ '"' :: body ∧
        openQuote? last.gap = some (utf8Length front) ∧
        (gapSpans 0 (scan line).tokens).getLast? = some ⟨start, line.utf8ByteSize⟩ ∧
        ⟨quote, .unclosed body⟩ ∈ segments line ∧ start + utf8Length front = quote.offset) ∧
      (Command.parse? closed = none ∧ (scan closed).hasOpenString = false ∧
        highlight closed = (spacedTokens closed).flatMap Spaced.dimmed ∧
        ∀ spaced ∈ spacedTokens closed, IsQuoteFree spaced.gap) := by
  intro line closed
  have noCommand : Command.parse? line = none := by decide +kernel
  have isOpen : (scan line).hasOpenString = true := by decide +kernel
  have noCommand' : Command.parse? closed = none := by decide +kernel
  have isClosed : (scan closed).hasOpenString = false := by decide +kernel
  obtain ⟨_, found, _⟩ := openQuote_of_scan noCommand
  obtain ⟨_, _, dimmed⟩ := openQuote_of_scan noCommand'
  obtain ⟨others, last, front, body, start, quote, split, _, gap, offset, span, mem, place, _⟩ := found isOpen
  have among : last ∈ spacedTokens line := by
    rw [split]
    exact List.mem_append_right _ List.mem_cons_self
  exact ⟨⟨noCommand, isOpen, last, front, body, start, quote, among, gap, offset, span, mem, place⟩,
    noCommand', isClosed, dimmed isClosed⟩

end LoxLexing
