import LoxLexing.Proofs.Completions
import LoxLexing.Proofs.LongestMatch
import LoxLexing.Proofs.Lookahead
import LoxLexing.Proofs.Restart

/-!
# Lines that end in a completed word

The word that is completed at the end of a line is found from there backwards, and points and digits belong to it. A
scan finds its words from the start of the line forwards. Where a keyword is offered, and the last token ends where
the line does, both find the same word.

**The law** (`scan_completed`): if such a line is completed to a keyword, its scan gives the keyword where it gave the
last token, on the same line and from the same byte on. The tokens in front of it stay, the end of the input moves to
the new end, and the diagnostics are the same.

A keyword has nothing but letters, and no segment ends inside a run of letters: one that ends in a letter and has
another one behind it ends in front of something else (`Segment.EndsBefore.stops_of_getLast?`). So the run is the last
word of the line, whatever stands in front of it (`eq_word_of_letters`). The segments in front see no more of it than
its first letter (`segmentsFrom_append_of_cut`), and this one stays.

**What it does not establish.** Words are completed in comments and in open strings too, where they give no token.
-/

namespace LoxLexing

/-! ## Segments and what stands behind them -/

/-- The first segment of a text ends in front of the text of the others. -/
theorem endsBefore_of_segmentsFrom {here : Position} {input : List Char} {found : Located} {others : List Located}
    (cut : segmentsFrom here input = found :: others) :
    found.segment.IsWellFormed ∧ found.segment.EndsBefore (textOf others) := by
  match reads : Segment.next? input with
  | none =>
    obtain rfl := Segment.next?_eq_none_iff.mp reads
    rw [segmentsFrom_nil] at cut
    cases cut
  | some (segment, rest) =>
    rw [segmentsFrom_of_next? reads] at cut
    obtain ⟨rfl, rfl⟩ := List.cons.inj cut
    obtain ⟨wellFormed, ends, -⟩ := Segment.next?_eq_some_iff.mp reads
    rw [textOf_segmentsFrom]
    exact ⟨wellFormed, ends⟩

/-- Where segments end in front of a character that is no point, they end there whatever stands behind it. -/
theorem segmentsFrom_append_of_cut {here : Position} {first second : List Located} {c : Char} {behind : List Char}
    (cut : segmentsFrom here (textOf first ++ c :: behind) = first ++ second) (notPoint : c ≠ '.')
    (behind' : List Char) :
    segmentsFrom here (textOf first ++ c :: behind')
      = first ++ segmentsFrom (here.after (textOf first)) (c :: behind') := by
  generalize split : textOf first ++ c :: behind = input at cut
  induction input using Segment.next?_induction generalizing here first with
  | ended => exact absurd split (List.append_ne_nil_of_right_ne_nil _ (List.cons_ne_nil c behind))
  | @step segment rest reads wellFormed ends ih =>
    cases first with
    | nil => rfl
    | cons found first =>
      rw [segmentsFrom_of_next? reads, List.cons_append] at cut
      obtain ⟨rfl, others⟩ := List.cons.inj cut
      have text : textOf (⟨here, segment⟩ :: first) = segment.text ++ textOf first := List.flatMap_cons
      rw [text, List.append_assoc] at split
      obtain rfl := List.append_cancel_left split
      have reads' := Segment.next?_of_endsBefore wellFormed (ends.of_behind notPoint behind')
      rw [text, List.append_assoc, segmentsFrom_of_next? reads', ih rfl others, Position.after_append, List.cons_append]

/-! ## Segments that end in a letter -/

namespace Segment

variable {segment : Segment} {c : Char}

/-- Only words, comments and open strings end in a letter. -/
theorem exists_of_getLast? (wellFormed : segment.IsWellFormed) (last : segment.text.getLast? = some c)
    (letter : isWordStart c = true) :
    ∃ text, segment = word text ∨ segment = comment text ∨ segment = unclosed text := by
  have part := isWordPart_of_isWordStart letter
  have mem := List.mem_of_getLast? last
  cases segment with
  | word text => exact ⟨text, .inl rfl⟩
  | comment body => exact ⟨body, .inr (.inl rfl)⟩
  | unclosed body => exact ⟨body, .inr (.inr rfl)⟩
  | operator op =>
    have notPart := (not_isBlank_of_mem_punctuation c (op.mem_punctuation_of_mem_spelling c mem)).2.1
    exact absurd (notPart.symm.trans part) Bool.false_ne_true
  | number numeral =>
    rcases Numeral.isDigit_or_eq_point wellFormed c mem with digit | rfl
    · exact absurd ((isWordStart_eq_false_of_isDigit digit).symm.trans letter) Bool.false_ne_true
    · cases letter
  | quoted body =>
    have quote : (quoted body).text.getLast? = some '"' := List.getLast?_concat (l := '"' :: body)
    obtain rfl := Option.some.inj (quote.symm.trans last)
    cases letter
  | blank d =>
    obtain rfl := List.mem_singleton.mp mem
    exact absurd ((isBlank_eq_false_of_isWordPart part).symm.trans wellFormed) Bool.false_ne_true
  | stray d =>
    obtain rfl := List.mem_singleton.mp mem
    exact absurd ((isForeign_iff.mp wellFormed).2.1.symm.trans part) Bool.false_ne_true

/-- No word goes on behind a segment that ends in a letter. -/
theorem EndsBefore.stops_of_getLast? {rest : List Char} (ends : segment.EndsBefore rest)
    (wellFormed : segment.IsWellFormed) (last : segment.text.getLast? = some c) (letter : isWordStart c = true) :
    Stops isWordPart rest := by
  obtain ⟨text, rfl | rfl | rfl⟩ := exists_of_getLast? wellFormed last letter
  · exact ends
  · cases rest with
    | nil => exact stops_nil isWordPart
    | cons d rest =>
      obtain rfl := stops_newline_cons.mp ends
      exact stops_cons.mpr (by decide)
  · obtain rfl : rest = [] := ends
    exact stops_nil isWordPart

end Segment

section

variable {here : Position} {text front run : List Char} {first : List Located} {prior found : Located}

/-- A segment in front of a word does not end in a letter. -/
theorem isWordStart_eq_false_of_getLast? {others : List Located} {c : Char}
    (cut : segmentsFrom here text = first ++ prior :: found :: others) (isWord : found.segment = .word run)
    (last : (textOf (first ++ [prior])).getLast? = some c) : isWordStart c = false := by
  have behind := (segmentsFrom_cut cut).2
  obtain ⟨wellFormed, ends⟩ := endsBefore_of_segmentsFrom behind
  have notEmpty := Segment.text_ne_nil_of_next? (Segment.next?_of_endsBefore wellFormed ends)
  rw [textOf_append, textOf_singleton, List.getLast?_append_of_ne_nil _ notEmpty] at last
  have cut' : segmentsFrom here text = (first ++ [prior]) ++ found :: others := by
    rw [cut, List.append_assoc]
    rfl
  have formed := (endsBefore_of_segmentsFrom (segmentsFrom_cut cut').2).1
  rw [isWord] at formed
  obtain ⟨d, tail, rfl, start, -⟩ := IsWord.exists_eq_cons formed
  by_contra letter
  have stops := ends.stops_of_getLast? wellFormed last (Bool.not_eq_false _ ▸ letter)
  have text : textOf (found :: others) = d :: (tail ++ textOf others) := by
    rw [textOf, List.flatMap_cons, isWord]
    rfl
  rw [text, stops_cons, isWordPart_of_isWordStart start] at stops
  cases stops

/-- Of all that gives a token only a word ends in a letter. -/
theorem exists_word_of_token? {token : Token} {c : Char} (given : found.token? = some token)
    (wellFormed : found.segment.IsWellFormed) (last : found.segment.text.getLast? = some c)
    (letter : isWordStart c = true) : ∃ word, found.segment = .word word := by
  obtain ⟨here, segment⟩ := found
  obtain ⟨word, isWord | isComment | isOpen⟩ := Segment.exists_of_getLast? wellFormed last letter
  · exact ⟨word, isWord⟩
  · cases isComment
    cases given
  · cases isOpen
    cases given

/-- The letters at the end of a text are the last word of it, if the last segment gives a token and no longer run
could be part of a word. -/
theorem eq_word_of_letters {token : Token} (cut : segmentsFrom here text = first ++ [found])
    (given : found.token? = some token) (split : text = front ++ run) (notEmpty : run ≠ [])
    (letters : ∀ c ∈ run, isWordStart c = true)
    (longest : ∀ word, word <:+ text → (∀ c ∈ word, isWordPart c = true) → word <:+ run) :
    found.segment = .word run ∧ textOf first = front := by
  have whole : textOf first ++ found.segment.text = text := by
    rw [← textOf_singleton, ← textOf_append, ← cut, textOf_segmentsFrom]
  obtain ⟨wellFormed, -⟩ := endsBefore_of_segmentsFrom (segmentsFrom_cut cut).2
  have someText : found.segment.text ≠ [] :=
    Segment.text_ne_nil_of_next? (Segment.next?_of_endsBefore wellFormed (Segment.endsBefore_nil _))
  obtain ⟨c, last⟩ := Option.isSome_iff_exists.mp (List.getLast?_isSome.mpr notEmpty)
  have lastOfText : found.segment.text.getLast? = some c := by
    rw [← List.getLast?_append_of_ne_nil (textOf first) someText, whole, split,
      List.getLast?_append_of_ne_nil front notEmpty, last]
  obtain ⟨word, isWord⟩ := exists_word_of_token? given wellFormed lastOfText (letters c (List.mem_of_getLast? last))
  rw [isWord] at whole wellFormed
  -- The word ends where the run does, and what the run has in front of it would be the end of a segment.
  obtain ⟨before, rfl⟩ := longest word ⟨textOf first, whole⟩ wellFormed.2
  rw [split, ← List.append_assoc] at whole
  have firstText : textOf first = front ++ before := List.append_cancel_right whole
  rcases List.eq_nil_or_concat' before with rfl | ⟨init, d, rfl⟩
  · rw [List.append_nil] at firstText
    exact ⟨isWord, firstText⟩
  · have lastOfFirst : (textOf first).getLast? = some d := by
      rw [firstText, ← List.append_assoc]
      exact List.getLast?_concat
    rcases List.eq_nil_or_concat' first with rfl | ⟨earlier, prior, rfl⟩
    · cases lastOfFirst
    · rw [List.append_assoc] at cut
      have notLetter := isWordStart_eq_false_of_getLast? cut isWord lastOfFirst
      have letter := letters d (List.mem_append_left word (List.mem_append_right init List.mem_cons_self))
      exact absurd (notLetter.symm.trans letter) Bool.false_ne_true

end

/-! ## Lines whose last token ends them -/

/-- What belongs to words of Lox belongs to the words that are completed. -/
theorem isWordCharacter_of_isWordPart {c : Char} (part : isWordPart c = true) : Cursor.isWordCharacter c = true := by
  rw [isWordPart, isWordStart, Bool.or_eq_true, Bool.or_eq_true, beq_iff_eq] at part
  rw [Cursor.isWordCharacter_iff, Char.isAlphanum, Bool.or_eq_true]
  obtain (letter | underscore) | digit := part
  · exact .inl (.inl letter)
  · exact .inr (.inl underscore)
  · exact .inl (.inr digit)

theorem isWordStart_of_mem_spelling (keyword : Keyword) :
    ∀ c ∈ keyword.spelling.toList, isWordStart c = true := by
  apply List.all_eq_true.mp
  cases keyword <;> decide

/-- The token that a keyword gives. -/
theorem token?_keyword (here : Position) (keyword : Keyword) :
    Located.token? ⟨here, .word keyword.spelling.toList⟩
      = some ⟨.keyword keyword, keyword.spelling, none, here.line,
          ⟨here.offset, (here.after keyword.spelling.toList).offset⟩⟩ := by
  simp only [Located.token?, Located.toToken, Located.finish, Segment.text, String.ofList_toList, Kind.ofWord,
    Keyword.ofSpelling?_spelling]

/-- Whether a text behind a line turns its last token into a keyword, and changes nothing else. -/
structure TurnsInto (line addition : String) (last : Token) (keyword : Keyword) : Prop where
  tokens : ∃ earlier mark, (scan line).tokens = earlier ++ [last, mark] ∧ mark.kind = .endOfInput ∧
    (scan (line ++ addition)).tokens = earlier ++
      [{ last with
          kind := .keyword keyword
          lexeme := keyword.spelling
          literal := none
          span := ⟨last.span.start, (line ++ addition).utf8ByteSize⟩ },
        { mark with span := ⟨(line ++ addition).utf8ByteSize, (line ++ addition).utf8ByteSize⟩ }]
  diagnostics : (scan (line ++ addition)).diagnostics = (scan line).diagnostics

section

variable {line : String} {last : Token} {first : List Located} {found : Located}

/-- A last token that ends where the line does is that of the last segment. -/
theorem exists_segments_of_atEnd (isLast : (scan line).lastToken? = some last)
    (atEnd : last.span.stop = line.utf8ByteSize) :
    ∃ first found, segments line = first ++ [found] ∧ found.token? = some last := by
  obtain ⟨first, found, second, cut, given, -⟩ := exists_segments_of_lastToken? isLast
  have cut' : segments line = (first ++ [found]) ++ second := by rw [cut, List.append_assoc]; rfl
  have stop := stop_of_segments cut given
  have nothingBehind : textOf second = [] := by
    have size : line.utf8ByteSize = utf8Length (textOf (first ++ [found])) + utf8Length (textOf second) := by
      rw [size_eq_utf8Length, ← utf8Length_append, ← textOf_append, ← cut', segments, textOf_segmentsFrom]
    by_contra someBehind
    have := utf8Length_pos someBehind
    omega
  have none := (segmentsFrom_cut cut').2
  rw [nothingBehind, segmentsFrom_nil] at none
  rw [← none, List.append_nil] at cut'
  exact ⟨first, found, cut', given⟩

/-- The last word of a line becomes the keyword that it is completed to, where it stands. -/
theorem segments_completed {word : List Char} {addition : String} {keyword : Keyword}
    (cut : segments line = first ++ [found]) (isWord : found.segment = .word word)
    (spelled : keyword.spelling.toList = word ++ addition.toList) :
    segments (line ++ addition) = first ++ [{ found with segment := .word keyword.spelling.toList }] := by
  obtain ⟨wellFormed, -⟩ := endsBefore_of_segmentsFrom (segmentsFrom_cut cut).2
  rw [isWord] at wellFormed
  obtain ⟨c, tail, rfl, start, -⟩ := IsWord.exists_eq_cons wellFormed
  have notPoint : c ≠ '.' := by
    rintro rfl
    cases start
  have split : line.toList = textOf first ++ c :: tail := by
    have word : textOf [found] = c :: tail := by rw [textOf_singleton, isWord]; rfl
    rw [← word, ← textOf_append, ← cut, segments, textOf_segmentsFrom]
  have place := position_of_segmentsFrom (segmentsFrom_cut cut).2
  have isKeyword : (Segment.word keyword.spelling.toList).IsWellFormed := Segment.isWord_spelling keyword
  have reads := Segment.next?_of_endsBefore isKeyword (Segment.endsBefore_nil _)
  rw [Segment.text, List.append_nil] at reads
  rw [segments, split] at cut
  rw [segments, String.toList_append, split, List.append_assoc, List.cons_append,
    segmentsFrom_append_of_cut cut notPoint, ← List.cons_append, ← spelled, segmentsFrom_of_next? reads,
    segmentsFrom_nil, place]

theorem turnsInto_of_segments {word : List Char} {addition : String} {keyword : Keyword}
    (cut : segments line = first ++ [found]) (given : found.token? = some last)
    (isWord : found.segment = .word word) (spelled : keyword.spelling.toList = word ++ addition.toList) :
    TurnsInto line addition last keyword := by
  have completed := segments_completed cut isWord spelled
  have lineText : line.toList = textOf first ++ word := by
    rw [← textOf_segmentsFrom .start line.toList]
    exact (congrArg textOf cut).trans (by rw [textOf_append, textOf_singleton, isWord]; rfl)
  have completedText : (line ++ addition).toList = textOf first ++ keyword.spelling.toList := by
    rw [String.toList_append, lineText, spelled, List.append_assoc]
  have oneLine : newlines addition.toList = 0 := by
    apply List.count_eq_zero.mpr
    intro mem
    have letter := isWordStart_of_mem_spelling keyword '\n' (spelled ▸ List.mem_append_right word mem)
    cases letter
  have place := position_of_segmentsFrom (segmentsFrom_cut cut).2
  obtain ⟨there, segment⟩ := found
  obtain rfl : segment = .word word := isWord
  obtain rfl : there = Position.start.after (textOf first) := place
  constructor
  case tokens =>
    refine ⟨first.filterMap Located.token?, .endOfInput (Position.start.after line.toList), ?_, rfl, ?_⟩
    · rw [scan_tokens, cut, List.filterMap_append, List.filterMap_cons_some given, List.append_assoc]
      rfl
    · have keywordGiven := token?_keyword (Position.start.after (textOf first)) keyword
      rw [← Position.after_append, ← completedText, offset_start_after] at keywordGiven
      have mark : Token.endOfInput (Position.start.after (line ++ addition).toList)
          = { Token.endOfInput (Position.start.after line.toList) with
              span := ⟨(line ++ addition).utf8ByteSize, (line ++ addition).utf8ByteSize⟩ } := by
        have sameLine : (Position.start.after (line ++ addition).toList).line
            = (Position.start.after line.toList).line := by
          rw [String.toList_append, Position.after_append]
          exact congrArg (_ + ·) oneLine
        rw [Token.endOfInput, Token.endOfInput, offset_start_after, sameLine]
      obtain rfl := Option.some.inj given
      rw [scan_tokens, completed, List.filterMap_append, List.filterMap_cons_some keywordGiven, List.append_assoc, mark]
      rfl
  case diagnostics =>
    rw [scan_diagnostics, scan_diagnostics, completed, cut, List.filterMap_append, List.filterMap_append]
    rfl

end

/-! ## The law -/

/-- **A word that is completed to a keyword is that keyword**, if the last token of the line ends where the line does.
All else stays as it was. -/
theorem scan_completed {line : String} {last : Token} (isLast : (scan line).lastToken? = some last)
    (atEnd : last.span.stop = line.utf8ByteSize) :
    ∃ cursor, Cursor.atOffset? line.toList line.utf8ByteSize = some cursor ∧
      ∀ candidate ∈ cursor.completion.2, ∀ keyword : Keyword, candidate.word = keyword.spelling →
        TurnsInto line candidate.addition last keyword := by
  have stands : Cursor.atOffset? line.toList line.utf8ByteSize = some ⟨line.toList, []⟩ := by
    have := Cursor.atOffset?_append line.toList []
    rwa [List.append_nil, ← size_eq_utf8Length] at this
  refine ⟨_, stands, ?_⟩
  intro candidate mem keyword isKeyword
  generalize whole : (⟨line.toList, []⟩ : Cursor) = cursor at mem
  have before : cursor.before = line.toList := whole ▸ rfl
  have spelled : keyword.spelling.toList = cursor.word ++ candidate.addition.toList :=
    isKeyword ▸ Cursor.toList_word_of_mem_candidates mem
  have notEmpty : cursor.word ≠ [] := by
    intro empty
    rw [Cursor.completion, Cursor.candidates, empty] at mem
    exact absurd mem List.not_mem_nil
  have letters : ∀ c ∈ cursor.word, isWordStart c = true := by
    intro c mem
    exact isWordStart_of_mem_spelling keyword c (spelled ▸ List.mem_append_left _ mem)
  have longest : ∀ word, word <:+ line.toList → (∀ c ∈ word, isWordPart c = true) → word <:+ cursor.word := by
    intro word suffix parts
    refine Cursor.suffix_word (before ▸ suffix) ?_
    intro c mem
    exact isWordCharacter_of_isWordPart (parts c mem)
  obtain ⟨first, found, cut, given⟩ := exists_segments_of_atEnd isLast atEnd
  have split : line.toList = cursor.front ++ cursor.word := by rw [Cursor.front_append_word, before]
  obtain ⟨isWord, -⟩ := eq_word_of_letters cut given split notEmpty letters longest
  exact turnsInto_of_segments cut given isWord spelled

/-- Behind a string that goes over a line end and a stray character. -/
theorem scan_completed_while :
    let line := "§ \"é\n\"@wh"
    let last : Token := ⟨.identifier, "wh", none, 2, ⟨9, 11⟩⟩
    (scan line).lastToken? = some last ∧ last.span.stop = line.utf8ByteSize ∧
      TurnsInto line "ile" last .while := by
  intro line last
  have isLast : (scan line).lastToken? = some last := by decide +kernel
  have atEnd : last.span.stop = line.utf8ByteSize := by decide +kernel
  obtain ⟨cursor, stands, completed⟩ := scan_completed isLast atEnd
  have stands' : Cursor.atOffset? line.toList line.utf8ByteSize = some ⟨line.toList, []⟩ := by decide +kernel
  obtain rfl := Option.some.inj (stands.symm.trans stands')
  have mem : (⟨"while", "ile"⟩ : Candidate) ∈ Cursor.candidates ⟨line.toList, []⟩ := by decide +kernel
  exact ⟨isLast, atEnd, completed _ mem .while rfl⟩

end LoxLexing
