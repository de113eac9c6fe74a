import LoxLexing.Proofs.Modes
import LoxLexing.Proofs.ReadingHead

/-!
# What a head reads

Read with a head, a source gives what a scan gives, and no slice is ever refused.

**The law** (`heads_of_reading`): a reader in front of a source comes to the end of it in no more turns than the source
has characters. Each turn reads a character at least, and every head that is passed on the way is aligned with the
source. The tokens and the diagnostics are those of the scan.

A turn of the reader is one segment of the scan. `IsAt.readSegment?_gives` says so of a segment that is well formed and
ends before the rest, one case for each kind of segment; a run is then followed along the segments of the source
(`Segment.next?_induction`). A string that is never closed is the one segment behind which nothing can be read any more:
its body has taken the head to the end, and this ends the run.
-/

namespace LoxLexing

/-! ## Characters -/

/-- What begins no operator is told from all that does. -/
theorem Operator.alone?_eq_none {c : Char} (absent : c ∉ punctuation) :
    alone? c = none ∧ beforeEqual? c = none ∧ c ≠ '/' := by
  have apart (mark : Char) (mem : mark ∈ punctuation) : c ≠ mark := by
    rintro rfl
    exact absent mem
  refine ⟨?_, ?_, apart '/' (by decide)⟩
  · unfold alone?
    split
    all_goals first | rfl | exact absurd rfl (apart _ (by decide))
  · unfold beforeEqual?
    split
    all_goals first | rfl | exact absurd rfl (apart _ (by decide))

/-- How an operator is told by its first character, and by an equals sign or a slash behind it. -/
inductive Operator.IsTold : Operator → Prop where
  | alone {op : Operator} {c : Char} : op.spelling = [c] → alone? c = some op → op.IsTold
  | short {op long : Operator} {c : Char} : op.spelling = [c] → alone? c = none → beforeEqual? c = some (op, long) →
      op.joins '=' = true → op.IsTold
  | long {op short : Operator} {c : Char} : op.spelling = [c, '='] → alone? c = none →
      beforeEqual? c = some (short, op) → op.IsTold
  | slash : Operator.slash.IsTold

theorem Operator.isTold (op : Operator) : op.IsTold := by
  cases op with
  | slash => exact .slash
  | bang | equal | greater | less => exact .short rfl rfl rfl (by decide)
  | bangEqual | equalEqual | greaterEqual | lessEqual => exact .long rfl rfl rfl
  | _ => exact .alone rfl rfl

/-! ## Stages at which segments begin and end -/

namespace Stage

/-- A segment that begins where a stage does. -/
def located (here : Stage) (segment : Segment) : Located :=
  ⟨⟨utf8Length here.before, here.line⟩, segment⟩

/-- The stage behind a segment that begins where a stage does. -/
def behind (here : Stage) (segment : Segment) (rest : List Char) : Stage :=
  ⟨here.before, segment.text, rest, here.line + newlines segment.text,
    pushSome here.reported (here.located segment).diagnostic?⟩

end Stage

namespace Reader

/-- Whether a reader gives what a scan gives at a segment, and is behind it. -/
def Gives (result : Option (Option Token × Reader)) (since : List Head) (here : Stage) (segment : Segment)
    (rest : List Char) : Prop :=
  ∃ next : Reader, result = some ((here.located segment).token?, next) ∧ next.IsAt since (here.behind segment rest)

section

variable {reader : Reader} {since : List Head} {here : Stage} {segment : Segment} {before rest body : List Char}
  {c : Char} {line : Nat} {reported : Array Diagnostic}

/-- Where a segment was taken, its token is that of the scan. -/
theorem IsAt.token?_eq (isAt : reader.IsAt since ⟨before, segment.text, rest, line, reported⟩) (kind : Kind)
    (literal : Option Literal) (first : Nat) :
    reader.token? kind literal first
      = some (Located.toToken ⟨⟨utf8Length before, first⟩, segment⟩ kind literal) := by
  have stop : utf8Length (before ++ segment.text) = utf8Length before + utf8Length segment.text :=
    utf8Length_append _ _
  rw [token?, isAt.lexeme?_eq, isAt.head]
  simp only [Stage.head, Stage.offset, stop]
  rfl

/-- A reader that took a segment without a line end has only to give its token. -/
theorem IsAt.gives (isAt : reader.IsAt since ⟨here.before, segment.text, rest, here.line, here.reported⟩)
    (oneLine : '\n' ∉ segment.text) (quiet : (here.located segment).diagnostic? = none) :
    Gives (some ((here.located segment).token?, reader)) since here segment rest := by
  have line : newlines segment.text = 0 := List.count_eq_zero.mpr oneLine
  refine ⟨reader, rfl, ?_⟩
  rw [Stage.behind, line, quiet]
  exact isAt

/-- A turn takes a character first. -/
theorem IsAt.exists_readSegment?_eq (isAt : reader.IsAt since ⟨before, [], c :: rest, line, reported⟩) :
    ∃ moved : Reader, reader.readSegment? = moved.readBehind? c line ∧
      moved.IsAt since ⟨before, [c], rest, line, reported⟩ := by
  obtain ⟨first, behind⟩ := isAt.advance_cons
  refine ⟨reader.advance.2, ?_, behind⟩
  have split : reader.advance = (some c, reader.advance.2) := Prod.ext first rfl
  have line : reader.head.line = line := by rw [isAt.head]; rfl
  rw [Reader.readSegment?, split, line]

/-! ## Operators -/

theorem IsAt.give?_eq (isAt : reader.IsAt since ⟨before, segment.text, rest, line, reported⟩) (kind : Kind)
    (first : Nat) :
    reader.give? kind first
      = some (some (Located.toToken ⟨⟨utf8Length before, first⟩, segment⟩ kind none), reader) := by
  rw [give?, isAt.token?_eq]
  rfl

theorem IsAt.give?_operator {op : Operator}
    (isAt : reader.IsAt since ⟨here.before, (Segment.operator op).text, rest, here.line, here.reported⟩) :
    Gives (reader.give? (.operator op) here.line) since here (.operator op) rest := by
  have oneLine : '\n' ∉ op.spelling := fun mem => absurd (op.mem_punctuation_of_mem_spelling _ mem) (by decide)
  rw [isAt.give?_eq]
  exact isAt.gives oneLine rfl

theorem IsAt.readSegment?_operator {op : Operator} (ends : (Segment.operator op).EndsBefore rest)
    (isAt : reader.IsAt since ⟨here.before, [], op.spelling ++ rest, here.line, here.reported⟩) :
    Gives reader.readSegment? since here (.operator op) rest := by
  cases op.isTold with
  | @alone _ c spelled told =>
    rw [spelled] at isAt
    obtain ⟨moved, turn, taken⟩ := isAt.exists_readSegment?_eq
    have behind : moved.readBehind? c here.line = moved.give? (.operator op) here.line := by
      simp only [readBehind?, told]
    rw [← spelled] at taken
    rw [turn, behind]
    exact taken.give?_operator
  | @short _ long c spelled notAlone told joins =>
    rw [spelled] at isAt
    obtain ⟨moved, turn, taken⟩ := isAt.exists_readSegment?_eq
    -- An equals sign here would have been joined.
    have noEqual : moved.peek? ≠ some '=' := by
      intro next
      rw [taken.peek?_eq] at next
      rw [ends '=' next] at joins
      cases joins
    have behind : moved.readBehind? c here.line = moved.give? (.operator op) here.line := by
      simp only [readBehind?, notAlone, told, readEqual, matchChar, if_neg noEqual, Bool.false_eq_true, if_false]
    rw [← spelled] at taken
    rw [turn, behind]
    exact taken.give?_operator
  | @long _ short c spelled notAlone told =>
    rw [spelled] at isAt
    obtain ⟨moved, turn, taken⟩ := isAt.exists_readSegment?_eq
    have next : moved.peek? = some '=' := taken.peek?_eq
    have behind : moved.readBehind? c here.line = moved.advance.2.give? (.operator op) here.line := by
      simp only [readBehind?, notAlone, told, readEqual, matchChar, if_pos next, if_true]
    have all := taken.advance_cons.2
    have joined : [c] ++ ['='] = (Segment.operator op).text := spelled.symm
    rw [joined] at all
    rw [turn, behind]
    exact all.give?_operator
  | slash =>
    obtain ⟨moved, turn, taken⟩ := isAt.exists_readSegment?_eq
    -- A second slash would have begun a comment.
    have noSlash : moved.peek? ≠ some '/' := by
      intro next
      rw [taken.peek?_eq] at next
      cases ends '/' next
    have behind : moved.readBehind? '/' here.line = moved.give? (.operator .slash) here.line := if_neg noSlash
    rw [turn, behind]
    exact taken.give?_operator

/-! ## Blanks and comments -/

theorem IsAt.readSegment?_blank (blank : isBlank c = true)
    (isAt : reader.IsAt since ⟨here.before, [], c :: rest, here.line, here.reported⟩) :
    Gives reader.readSegment? since here (.blank c) rest := by
  obtain ⟨moved, turn, taken⟩ := isAt.exists_readSegment?_eq
  rw [turn]
  by_cases lineEnd : c = '\n'
  · subst lineEnd
    exact ⟨moved.countLine, rfl, taken.countLine⟩
  · have passed : moved.readBehind? c here.line = some (none, moved) := by
      have among := isBlank_iff.mp blank
      simp only [List.mem_cons, List.not_mem_nil, or_false, lineEnd] at among
      rcases among with rfl | rfl | rfl <;> rfl
    have oneLine : '\n' ∉ (Segment.blank c).text := fun mem => lineEnd (List.mem_singleton.mp mem).symm
    have isAt' : moved.IsAt since ⟨here.before, (Segment.blank c).text, rest, here.line, here.reported⟩ := taken
    rw [passed]
    exact isAt'.gives oneLine rfl

theorem IsAt.readSegment?_comment (oneLine : '\n' ∉ body) (ends : Stops (· != '\n') rest)
    (isAt : reader.IsAt since ⟨here.before, [], '/' :: '/' :: body ++ rest, here.line, here.reported⟩) :
    Gives reader.readSegment? since here (.comment body) rest := by
  obtain ⟨moved, turn, taken⟩ := isAt.exists_readSegment?_eq
  have next : moved.peek? = some '/' := taken.peek?_eq
  have behind : moved.readBehind? '/' here.line = some (none, moved.readWhile (· != '\n')) := if_pos next
  have oneLine' : '\n' ∉ '/' :: body := List.not_mem_cons_of_ne_of_not_mem (by decide) oneLine
  have isAt' : (moved.readWhile (· != '\n')).IsAt since
      ⟨here.before, (Segment.comment body).text, rest, here.line, here.reported⟩ :=
    taken.readWhile (forall_mem_bne_iff.mpr oneLine') ends
  rw [turn, behind]
  exact isAt'.gives (List.not_mem_cons_of_ne_of_not_mem (by decide) oneLine') rfl

/-! ## Strings -/

/-- The quotes of a string end no line. -/
theorem newlines_quote (body : List Char) : newlines ('"' :: body) = newlines body :=
  List.count_cons_of_ne (by decide)

/-- The value of a string is what the slice one byte inside its lexeme gives. -/
theorem IsAt.slice?_inside (isAt : reader.IsAt since ⟨before, (Segment.quoted body).text, rest, line, reported⟩) :
    0 < reader.head.current ∧
      reader.slice? (reader.head.start + 1) (reader.head.current - 1) = some (String.ofList body) := by
  have split : reader.source.toList = (before ++ ['"']) ++ (body ++ '"' :: rest) := by
    rw [isAt.split]
    simp [Stage.text, Segment.text]
  have size : utf8Length ['"'] = 1 := by decide
  have start : reader.head.start + 1 = utf8Length (before ++ ['"']) := by
    rw [isAt.head, utf8Length_append, size]
    rfl
  have current : reader.head.current = utf8Length (before ++ ['"']) + utf8Length body + 1 := by
    rw [isAt.head]
    show utf8Length (before ++ (['"'] ++ (body ++ ['"']))) = _
    rw [utf8Length_append, utf8Length_append, utf8Length_append, utf8Length_append, size]
    omega
  refine ⟨current ▸ Nat.succ_pos _, ?_⟩
  rw [start, current, Nat.add_sub_cancel]
  exact slice?_of_toList split

theorem IsAt.readSegment?_quoted (closed : '"' ∉ body)
    (isAt : reader.IsAt since ⟨here.before, [], '"' :: (body ++ '"' :: rest), here.line, here.reported⟩) :
    Gives reader.readSegment? since here (.quoted body) rest := by
  obtain ⟨moved, turn, taken⟩ := isAt.exists_readSegment?_eq
  have inside := taken.readBody closed (stops_cons.mpr (by decide))
  obtain ⟨quote, outside⟩ := inside.advance_cons
  have lineEnds : newlines (Segment.quoted body).text = newlines body := by
    rw [Segment.text, newlines_quote, newlines_append]
    rfl
  have outside' : moved.readBody.advance.2.IsAt since (here.behind (.quoted body) rest) := by
    rw [Stage.behind, lineEnds]
    exact outside
  have split : moved.readBody.advance = (some '"', moved.readBody.advance.2) := Prod.ext quote rfl
  obtain ⟨positive, value⟩ := outside'.slice?_inside
  have behind : moved.readBehind? '"' here.line
      = some ((here.located (.quoted body)).token?, moved.readBody.advance.2) := by
    show moved.readString? here.line = _
    rw [readString?, split]
    simp only [guard, if_pos positive, value, outside'.token?_eq]
    rfl
  rw [turn, behind]
  exact ⟨_, rfl, outside'⟩

theorem IsAt.readSegment?_unclosed (closed : '"' ∉ body)
    (isAt : reader.IsAt since ⟨here.before, [], '"' :: body, here.line, here.reported⟩) :
    Gives reader.readSegment? since here (.unclosed body) [] := by
  obtain ⟨moved, turn, taken⟩ := isAt.exists_readSegment?_eq
  rw [← List.append_nil body] at taken
  have inside := taken.readBody closed (stops_nil _)
  have behind : moved.readBehind? '"' here.line = some (none, moved.readBody.report .unterminatedString) := by
    show moved.readString? here.line = _
    rw [readString?, inside.advance_nil]
  have line : newlines (Segment.unclosed body).text = newlines body := newlines_quote body
  rw [turn, behind]
  refine ⟨_, rfl, ?_⟩
  rw [Stage.behind, Stage.located, Located.diagnostic?, Located.finish, Position.after, line]
  exact inside.report .unterminatedString

/-! ## Numerals, words and strays -/

/-- A character that is no blank, no quote and no punctuation is left to the numerals and words. -/
theorem readBehind?_of_unmarked (notBlank : isBlank c = false) (notQuote : c ≠ '"') (notMark : c ∉ punctuation) :
    reader.readBehind? c line = reader.readUnmarked? c line := by
  obtain ⟨notAlone, notEqual, notSlash⟩ := Operator.alone?_eq_none notMark
  have apart (d : Char) (blank : isBlank d = true) : c ≠ d := by
    rintro rfl
    rw [blank] at notBlank
    cases notBlank
  have notSpace : ¬ (c = ' ' ∨ c = '\t' ∨ c = '\r') := by
    rintro (space | tab | return')
    · exact apart ' ' rfl space
    · exact apart '\t' rfl tab
    · exact apart '\r' rfl return'
  simp only [readBehind?, notAlone, notEqual, if_neg notSlash, if_neg notSpace, if_neg (apart '\n' rfl),
    if_neg notQuote]

theorem readBehind?_of_isWordPart (part : isWordPart c = true) :
    reader.readBehind? c line = reader.readUnmarked? c line := by
  have notMark : c ∉ punctuation := by
    intro mark
    rw [(not_isBlank_of_mem_punctuation c mark).2.1] at part
    cases part
  have notQuote : c ≠ '"' := by
    rintro rfl
    exact absurd part (by decide)
  exact readBehind?_of_unmarked (isBlank_eq_false_of_isWordPart part) notQuote notMark

theorem newline_notMem_of_isWordPart {text : List Char} (parts : ∀ c ∈ text, isWordPart c = true) : '\n' ∉ text := by
  intro mem
  exact absurd (parts _ mem) (by decide)

theorem IsAt.readSegment?_word {text : List Char} (word : IsWord text) (ends : Stops isWordPart rest)
    (isAt : reader.IsAt since ⟨here.before, [], text ++ rest, here.line, here.reported⟩) :
    Gives reader.readSegment? since here (.word text) rest := by
  obtain ⟨c, tail, rfl, start, parts⟩ := word.exists_eq_cons
  obtain ⟨moved, turn, taken⟩ := isAt.exists_readSegment?_eq
  have notDigit : ¬ c.isDigit = true := by
    intro digit
    rw [isWordStart_eq_false_of_isDigit digit] at start
    cases start
  have whole : (moved.readWhile isWordPart).IsAt since
      ⟨here.before, (Segment.word (c :: tail)).text, rest, here.line, here.reported⟩ :=
    taken.readWhile parts ends
  have behind : moved.readBehind? c here.line
      = some ((here.located (.word (c :: tail))).token?, moved.readWhile isWordPart) := by
    rw [readBehind?_of_isWordPart (isWordPart_of_isWordStart start), readUnmarked?, if_neg notDigit, if_pos start,
      readWord?, whole.lexeme?_eq]
    exact whole.give?_eq _ _
  rw [turn, behind]
  exact whole.gives (newline_notMem_of_isWordPart word.2) rfl

/-- A numeral is read as far as its digits go, on both sides of the point. -/
theorem IsAt.readFigures {numeral : Numeral} {digits : List Char} (wellFormed : numeral.IsWellFormed)
    (ends : (Segment.number numeral).EndsBefore rest) (begins : numeral.text = c :: digits)
    (isAt : reader.IsAt since ⟨before, [c], digits ++ rest, line, reported⟩) :
    reader.readFigures.IsAt since ⟨before, numeral.text, rest, line, reported⟩ := by
  obtain ⟨whole, fraction⟩ := numeral
  obtain ⟨⟨notEmpty, wholeDigits⟩, behind⟩ := wellFormed
  obtain ⟨first, tail, rfl⟩ := List.exists_cons_of_ne_nil notEmpty
  have tailDigits : ∀ d ∈ tail, d.isDigit = true := fun d mem => wholeDigits d (List.mem_cons_of_mem _ mem)
  cases fraction with
  | none =>
    obtain ⟨rfl, rfl⟩ := List.cons.inj begins
    obtain ⟨stops, noDigit⟩ := ends
    have all := isAt.readWhile tailDigits stops
    have noFraction : ¬ ((reader.readWhile Char.isDigit).peek? = some '.' ∧
        (reader.readWhile Char.isDigit).peekNext?.any Char.isDigit = true) := by
      rintro ⟨point, follows⟩
      rw [all.peek?_eq] at point
      rw [all.peekNext?_eq] at follows
      obtain ⟨digit, next, isDigit⟩ := (Option.any_eq_true _ _).mp follows
      obtain ⟨others, rfl⟩ := List.head?_eq_some_iff.mp point
      obtain ⟨others', rfl⟩ := List.head?_eq_some_iff.mp next
      rw [noDigit digit others' rfl] at isDigit
      cases isDigit
    rw [Reader.readFigures, if_neg noFraction]
    exact all
  | some fraction =>
    have same : first = c := (List.cons.inj begins).1
    have joined : digits = tail ++ '.' :: fraction := (List.cons.inj begins).2.symm
    subst same joined
    obtain ⟨notEmpty', fractionDigits⟩ := behind fraction rfl
    obtain ⟨digit, others, rfl⟩ := List.exists_cons_of_ne_nil notEmpty'
    rw [List.append_assoc] at isAt
    have whole := isAt.readWhile tailDigits (stops_cons.mpr (by decide))
    have point : (reader.readWhile Char.isDigit).peek? = some '.' := whole.peek?_eq
    have next : (reader.readWhile Char.isDigit).peekNext? = some digit := whole.peekNext?_eq
    have follows : (reader.readWhile Char.isDigit).peekNext?.any Char.isDigit = true := by
      rw [next]
      exact fractionDigits digit List.mem_cons_self
    have all := whole.advance_cons.2.readWhile fractionDigits ends
    rw [List.append_assoc, List.append_assoc] at all
    rw [Reader.readFigures, if_pos ⟨point, follows⟩]
    exact all

theorem IsAt.readSegment?_number {numeral : Numeral} (wellFormed : numeral.IsWellFormed)
    (ends : (Segment.number numeral).EndsBefore rest)
    (isAt : reader.IsAt since ⟨here.before, [], numeral.text ++ rest, here.line, here.reported⟩) :
    Gives reader.readSegment? since here (.number numeral) rest := by
  obtain ⟨c, digits, begins, digit⟩ := numeral.exists_text_eq_cons wellFormed
  rw [begins] at isAt
  obtain ⟨moved, turn, taken⟩ := isAt.exists_readSegment?_eq
  have whole : moved.readFigures.IsAt since
      ⟨here.before, (Segment.number numeral).text, rest, here.line, here.reported⟩ :=
    taken.readFigures wellFormed ends begins
  have value : (Binary64.ofText? (String.ofList numeral.text).toList).getD .infinity = numeral.value := by
    rw [String.toList_ofList, Binary64.ofText?_text wellFormed, Option.getD_some]
  have behind : moved.readBehind? c here.line
      = some ((here.located (.number numeral)).token?, moved.readFigures) := by
    rw [readBehind?_of_isWordPart (isWordPart_of_isDigit digit), readUnmarked?, if_pos digit, readNumeral?]
    simp only [whole.lexeme?_eq, Segment.text, whole.token?_eq, Option.bind_eq_bind, Option.bind_some, value]
    rfl
  have oneLine : '\n' ∉ numeral.text := by
    intro mem
    rcases Numeral.isDigit_or_eq_point wellFormed _ mem with digit | point
    · exact absurd digit (by decide)
    · exact absurd point (by decide)
  rw [turn, behind]
  exact whole.gives oneLine rfl

theorem IsAt.readSegment?_stray (foreign : isForeign c = true)
    (isAt : reader.IsAt since ⟨here.before, [], c :: rest, here.line, here.reported⟩) :
    Gives reader.readSegment? since here (.stray c) rest := by
  obtain ⟨notBlank, notPart, notQuote, notMark⟩ := isForeign_iff.mp foreign
  obtain ⟨notStart, notDigit⟩ := Bool.or_eq_false_iff.mp notPart
  obtain ⟨moved, turn, taken⟩ := isAt.exists_readSegment?_eq
  have behind : moved.readBehind? c here.line = some (none, moved.report (.unexpectedCharacter c)) := by
    rw [readBehind?_of_unmarked notBlank notQuote notMark, readUnmarked?, notDigit, notStart]
    rfl
  have oneLine : newlines [c] = 0 := by
    refine List.count_eq_zero.mpr fun mem => ?_
    rw [← List.mem_singleton.mp mem] at notBlank
    cases notBlank
  have after : here.behind (.stray c) rest
      = ⟨here.before, [c], rest, here.line, here.reported.push ⟨here.line, .unexpectedCharacter c⟩⟩ := by
    rw [Stage.behind, Segment.text, oneLine]
    rfl
  rw [turn, behind]
  exact ⟨_, rfl, after ▸ taken.report (.unexpectedCharacter c)⟩

/-! ## Turns -/

/-- Every segment is read as the scan reads it. -/
theorem IsAt.readSegment?_gives (wellFormed : segment.IsWellFormed) (ends : segment.EndsBefore rest)
    (isAt : reader.IsAt since ⟨here.before, [], segment.text ++ rest, here.line, here.reported⟩) :
    Gives reader.readSegment? since here segment rest := by
  cases segment with
  | operator op => exact isAt.readSegment?_operator ends
  | word text => exact isAt.readSegment?_word wellFormed ends
  | number numeral => exact isAt.readSegment?_number wellFormed ends
  | quoted body =>
    have split : (Segment.quoted body).text ++ rest = '"' :: (body ++ '"' :: rest) :=
      congrArg (List.cons '"') (List.append_assoc _ _ _)
    rw [split] at isAt
    exact isAt.readSegment?_quoted wellFormed
  | comment body => exact isAt.readSegment?_comment wellFormed ends
  | blank c => exact isAt.readSegment?_blank wellFormed
  | stray c => exact isAt.readSegment?_stray wellFormed
  | unclosed body =>
    obtain rfl : rest = [] := ends
    rw [List.append_nil] at isAt
    exact isAt.readSegment?_unclosed wellFormed

end

end Reader

/-! ## Runs -/

/-- What is left when a reader reads on to the end from a stage. -/
structure HeadRun.Completes (run : HeadRun) (reader : Reader) (here : Stage) : Prop where
  tokens_eq : run.tokens = (segmentsFrom here.position here.ahead).filterMap Located.token?
    ++ [.endOfInput (here.position.after here.ahead)]
  reported_eq : run.reader.reported.toList
    = here.reported.toList ++ (segmentsFrom here.position here.ahead).filterMap Located.diagnostic?
  /-- The reader is at the end, behind all of the text. -/
  isAt_last : ∃ last : Stage, last.text = here.text ∧ last.ahead = [] ∧ run.reader.IsAt reader.passed last
  turns_mem : ∀ head ∈ run.turns, head ∈ run.reader.passed
  /-- Nothing that a turn has read is ahead in a later one, or at the end. -/
  getsAhead : (run.turns ++ [run.reader.head]).Pairwise fun earlier later => later.ahead.length < earlier.ahead.length
  length_ahead_le : ∀ head ∈ run.turns ++ [run.reader.head], head.ahead.length ≤ here.ahead.length
  length_turns_le : run.turns.length ≤ here.ahead.length

section

variable {reader next : Reader} {since : List Head} {here : Stage} {segment : Segment} {rest : List Char}
  {run : HeadRun} {limit : Nat}

theorem Stage.position_behind_begun (here : Stage) (segment : Segment) (rest : List Char) :
    (here.begun.behind segment rest).position = here.position.after segment.text := by
  have offset : utf8Length (here.begun.before ++ segment.text) = here.offset + utf8Length segment.text :=
    utf8Length_append _ _
  rw [position, Stage.offset, behind, offset]
  rfl

theorem toList_pushSome {α : Type} (seen : Array α) (given : Option α) :
    (pushSome seen given).toList = seen.toList ++ given.toList := by
  cases given with
  | none => exact (List.append_nil _).symm
  | some x => exact Array.toList_push

/-- Where nothing is ahead, a run is over. -/
theorem HeadRun.completes_nil (isAt : reader.IsAt since here) (ended : here.ahead = []) :
    HeadRun.Completes ⟨[.endOfInput ⟨reader.head.current, reader.head.line⟩], [], reader⟩ reader here := by
  constructor
  case tokens_eq =>
    rw [ended, segmentsFrom_nil, Position.after_nil, isAt.head]
    rfl
  case reported_eq =>
    rw [ended, segmentsFrom_nil, isAt.reported]
    exact (List.append_nil _).symm
  case isAt_last => exact ⟨here, rfl, ended, isAt.anew⟩
  case turns_mem => exact fun _ mem => nomatch mem
  case getsAhead => exact List.pairwise_singleton _ _
  case length_ahead_le =>
    intro head mem
    rw [List.mem_singleton.mp mem]
    exact isAt.length_ahead.le
  case length_turns_le => exact Nat.zero_le _

/-- A turn and the run behind it are a run. -/
theorem HeadRun.Completes.turn (reads : Segment.next? here.ahead = some (segment, rest)) (isAt : reader.IsAt since here)
    (behind : next.IsAt reader.passed (here.begun.behind segment rest))
    (completes : run.Completes next (here.begun.behind segment rest)) :
    HeadRun.Completes
      { run with
        tokens := (Located.token? ⟨here.position, segment⟩).toList ++ run.tokens, turns := reader.head :: run.turns }
      reader here := by
  have split := Segment.text_append_of_next? reads
  have shorter : rest.length < reader.head.ahead.length := isAt.length_ahead ▸ Segment.length_lt_of_next? reads
  constructor
  case tokens_eq =>
    rw [completes.tokens_eq, here.position_behind_begun, filterMap_segmentsFrom_of_next? reads, List.append_assoc,
      ← split, Position.after_append]
    rfl
  case reported_eq =>
    rw [completes.reported_eq, here.position_behind_begun, filterMap_segmentsFrom_of_next? reads, ← List.append_assoc]
    exact congrArg (· ++ _) (toList_pushSome _ _)
  case isAt_last =>
    obtain ⟨last, same, ended, isAtLast⟩ := completes.isAt_last
    refine ⟨last, same.trans ?_, ended, isAtLast.of_suffix behind.since⟩
    rw [Stage.text, Stage.text, ← split]
    exact List.append_assoc _ _ _
  case turns_mem =>
    -- What was passed before a turn is still among what was passed at the end.
    obtain ⟨last, _, _, isAtLast⟩ := completes.isAt_last
    intro head mem
    rcases List.mem_cons.mp mem with rfl | mem
    · exact (behind.since.trans isAtLast.since).subset isAt.head_mem
    · exact completes.turns_mem head mem
  case getsAhead =>
    refine List.pairwise_cons.mpr ⟨?_, completes.getsAhead⟩
    intro later mem
    exact (completes.length_ahead_le later mem).trans_lt shorter
  case length_ahead_le =>
    intro head mem
    rcases List.mem_cons.mp mem with rfl | mem
    · exact isAt.length_ahead.le
    · exact (completes.length_ahead_le head mem).trans (Segment.length_lt_of_next? reads).le
  case length_turns_le => exact completes.length_turns_le.trans_lt (Segment.length_lt_of_next? reads)

/-- A reader comes to the end if it may have as many turns as there are characters ahead. -/
theorem Reader.IsAt.readAll? (isAt : reader.IsAt since here) (enough : here.ahead.length ≤ limit) :
    ∃ run, reader.readAll? limit = some run ∧ run.Completes reader here := by
  generalize more : here.ahead = input at enough
  induction input using Segment.next?_induction generalizing reader since here limit with
  | ended =>
    refine ⟨_, ?_, HeadRun.completes_nil isAt more⟩
    rw [Reader.readAll?.eq_def, if_pos (isAt.isAtEnd_iff.mpr more)]
  | @step segment rest reads wellFormed ends ih =>
    have notEnded : ¬ reader.isAtEnd = true := by
      rw [isAt.isAtEnd_iff, more]
      exact List.append_ne_nil_of_left_ne_nil (Segment.text_ne_nil_of_next? reads) _
    -- A turn reads a character at least, so one turn less is enough behind it.
    have shorter := Segment.length_lt_of_next? reads
    obtain ⟨limit, rfl⟩ : ∃ fewer, limit = fewer + 1 := Nat.exists_eq_succ_of_ne_zero (by omega)
    have place : here.begun = ⟨here.begun.before, [], segment.text ++ rest, here.begun.line, here.begun.reported⟩ := by
      rw [Stage.begun, more]
    have begun := isAt.anew.begin
    rw [place] at begun
    obtain ⟨next, given, behind⟩ := begun.readSegment?_gives wellFormed ends
    have fewer : rest.length ≤ limit := by omega
    obtain ⟨run, reads', completes⟩ := ih behind rfl fewer
    refine ⟨_, ?_, HeadRun.Completes.turn (more ▸ reads) isAt behind completes⟩
    rw [Reader.readAll?.eq_def, if_neg notEnded]
    simp only [given, reads', Option.bind_eq_bind, Option.bind_some]
    rfl

end

/-! ## The law -/

/-- **The reading head.** A reader comes to the end of a source in no more turns than the source has characters, and
every slice that it takes on the way can be taken. Its tokens and its reports are those of the scan. Every head that it
passes is aligned with the source; the heads in front of its turns are among them, something is ahead of each, and a
turn leaves less of it. -/
theorem heads_of_reading (source : String) :
    ∃ run, (Reader.ofSource source).readAll? source.length = some run ∧
      run.tokens = (scan source).tokens ∧ run.reader.reported.toList = (scan source).diagnostics ∧
      (∀ head ∈ run.reader.passed, head.IsAligned source) ∧
      (∀ head ∈ run.turns, head ∈ run.reader.passed ∧ head.ahead ≠ []) ∧
      (run.turns ++ [run.reader.head]).Pairwise (fun earlier later => later.ahead.length < earlier.ahead.length) ∧
      run.turns.length ≤ source.length ∧ run.reader.head ∈ run.reader.passed ∧ run.reader.head.ahead = [] := by
  have isAt := Reader.isAt_ofSource source
  have enough : source.toList.length ≤ source.length := String.length_toList.le
  obtain ⟨run, reads, completes⟩ := isAt.readAll? enough
  obtain ⟨last, same, ended, isAtLast⟩ := completes.isAt_last
  have sameSource : run.reader.source = source := String.toList_inj.mp (isAtLast.split.trans same)
  have noneAhead : run.reader.head.ahead = [] := by
    rw [isAtLast.head, Stage.head, ended]
    rfl
  refine ⟨run, reads, ?_, ?_, ?_, ?_, completes.getsAhead, completes.length_turns_le.trans enough, isAtLast.head_mem,
    noneAhead⟩
  · rw [completes.tokens_eq, scan_tokens]
    rfl
  · rw [completes.reported_eq, scan_diagnostics]
    rfl
  · exact sameSource ▸ isAtLast.aligned
  · intro head mem
    have less : run.reader.head.ahead.length < head.ahead.length :=
      (List.pairwise_append.mp completes.getsAhead).2.2 head mem _ List.mem_cons_self
    exact ⟨completes.turns_mem head mem, List.length_pos_iff.mp (Nat.zero_lt_of_lt less)⟩

/-- A string that is never closed takes the head to the end. -/
example : ((Reader.ofSource "é\"a\n").readAll? 4).map (·.reader.head) = some ⟨[], 2, 5, 2, ['"', 'a', '\n']⟩ := by
  decide +kernel

end LoxLexing
