import LoxLexing.Proofs.Boundary

/-!
# Reading character by character

Diagnostics can be told without knowing what a token is. Read a source one character after another in
one of three **modes**: in code, in a string, in a comment. A quote enters and leaves a string, two
slashes in code enter a comment, a line end leaves it, and nothing else changes the mode.

**The law** (`diagnostics_of_modes`): the diagnostics of a source are one for each foreign character that
is read in code, in order and with its line, and then one on the last line if the reading ends in a
string.

A scan reads a segment in one step where this reader takes one step for each character, so the proof goes
along the segments (`report_segment`): what a segment reports is what the reader reports over its
characters, and the reader is in code again behind it. Only a comment leaves the reader in another mode,
and there the line end that must follow, or the end of the source, makes no difference
(`report_comment`).
-/

namespace LoxLexing

/-! ## The reader -/

/-- What surrounds the character that is read next. -/
inductive Mode where
  | code | string | comment
deriving DecidableEq, Repr

namespace Mode

/-- The mode behind a character, in view of the character that follows it. -/
def next (mode : Mode) (c : Char) (ahead : Option Char) : Mode :=
  match mode with
  | code => if c = '"' then string else if c = '/' ∧ ahead = some '/' then comment else code
  | string => if c = '"' then code else string
  | comment => if c = '\n' then code else comment

end Mode

/-- A character as it is read: the mode, and all that was read before it. -/
structure CharacterRead where
  mode : Mode
  before : List Char
  character : Char
deriving DecidableEq, Repr

/-- The diagnostic that a character calls for. -/
def CharacterRead.diagnostic? (read : CharacterRead) : Option Diagnostic :=
  if read.mode = .code ∧ isForeign read.character = true then
    some ⟨1 + newlines read.before, .unexpectedCharacter read.character⟩
  else none

namespace Mode

/-- The characters of a text as they are read one after another. -/
def reads (mode : Mode) (before : List Char) : List Char → List CharacterRead
  | [] => []
  | c :: rest => ⟨mode, before, c⟩ :: (mode.next c rest.head?).reads (before ++ [c]) rest

/-- The mode behind a text. -/
def final (mode : Mode) : List Char → Mode
  | [] => mode
  | c :: rest => (mode.next c rest.head?).final rest

/-- The diagnostics of a text that is read behind `before`. -/
def report (mode : Mode) (before text : List Char) : List Diagnostic :=
  (mode.reads before text).filterMap CharacterRead.diagnostic?
    ++ if mode.final text = .string then [⟨1 + newlines (before ++ text), .unterminatedString⟩] else []

/-! ## Single steps and runs -/

theorem next_code {c : Char} (notQuote : c ≠ '"') (notSlash : c ≠ '/') (ahead : Option Char) :
    code.next c ahead = code := by
  simp [next, notQuote, notSlash]

theorem report_nil (mode : Mode) (before : List Char) :
    mode.report before []
      = if mode = .string then [⟨1 + newlines before, .unterminatedString⟩] else [] := by
  simp [report, reads, final]

theorem report_cons (mode : Mode) (before rest : List Char) (c : Char) :
    mode.report before (c :: rest)
      = (CharacterRead.diagnostic? ⟨mode, before, c⟩).toList
        ++ (mode.next c rest.head?).report (before ++ [c]) rest := by
  cases found : CharacterRead.diagnostic? ⟨mode, before, c⟩ <;>
    simp [report, reads, final, found]

/-- A character that calls for nothing is passed over. -/
theorem report_cons_of_quiet {mode : Mode} {c : Char} (before rest : List Char)
    (quiet : mode = .code → isForeign c = false) :
    mode.report before (c :: rest) = (mode.next c rest.head?).report (before ++ [c]) rest := by
  have none' : CharacterRead.diagnostic? ⟨mode, before, c⟩ = none := by
    rw [CharacterRead.diagnostic?, if_neg]
    rintro ⟨inCode, foreign⟩
    rw [quiet inCode] at foreign
    cases foreign
  rw [report_cons, none']
  rfl

/-- So is a run of such characters that leaves the mode alone. -/
theorem report_run {mode : Mode} {run : List Char} (before rest : List Char)
    (quiet : ∀ c ∈ run, mode = .code → isForeign c = false)
    (stays : ∀ c ∈ run, ∀ ahead, mode.next c ahead = mode) :
    mode.report before (run ++ rest) = mode.report (before ++ run) rest := by
  induction run generalizing before with
  | nil => simp
  | cons c run ih =>
    obtain ⟨quiet, quiet'⟩ := List.forall_mem_cons.mp quiet
    obtain ⟨stays, stays'⟩ := List.forall_mem_cons.mp stays
    rw [List.cons_append, report_cons_of_quiet before _ quiet, stays, ih _ quiet' stays',
      List.append_assoc, List.singleton_append]

/-- Code without quotes, slashes and foreign characters. -/
theorem report_code_run {run : List Char} (before rest : List Char)
    (plain : ∀ c ∈ run, isForeign c = false ∧ c ≠ '"' ∧ c ≠ '/') :
    code.report before (run ++ rest) = code.report (before ++ run) rest := by
  apply report_run
  · intro c mem _
    exact (plain c mem).1
  · intro c mem ahead
    obtain ⟨_, notQuote, notSlash⟩ := plain c mem
    exact next_code notQuote notSlash ahead

theorem report_string_run {run : List Char} (before rest : List Char) (closed : '"' ∉ run) :
    string.report before (run ++ rest) = string.report (before ++ run) rest := by
  apply report_run
  · intro c _ inCode
    cases inCode
  · intro c mem ahead
    have notQuote : c ≠ '"' := by
      rintro rfl
      exact closed mem
    rw [next, if_neg notQuote]

theorem report_comment_run {run : List Char} (before rest : List Char) (oneLine : '\n' ∉ run) :
    comment.report before (run ++ rest) = comment.report (before ++ run) rest := by
  apply report_run
  · intro c _ inCode
    cases inCode
  · intro c mem ahead
    have notEnd : c ≠ '\n' := by
      rintro rfl
      exact oneLine mem
    rw [next, if_neg notEnd]

/-- A comment that is over makes no difference to what follows. -/
theorem report_comment {rest : List Char} (before : List Char) (ended : Stops (· != '\n') rest) :
    comment.report before rest = code.report before rest := by
  cases rest with
  | nil => rw [report_nil, report_nil, if_neg (by decide), if_neg (by decide)]
  | cons c rest =>
    obtain rfl := stops_newline_cons.mp ended
    rw [report_cons_of_quiet before rest (fun inCode => by cases inCode),
      report_cons_of_quiet before rest (fun _ => by decide)]
    rfl

end Mode

/-! ## Segments -/

/-- The characters of a word are plain code. -/
theorem plain_of_isWordPart {c : Char} (part : isWordPart c = true) :
    isForeign c = false ∧ c ≠ '"' ∧ c ≠ '/' := by
  refine ⟨by simp [isForeign, part], ?_, ?_⟩
  · rintro rfl
    cases part
  · rintro rfl
    cases part

theorem plain_of_mem_punctuation :
    ∀ c ∈ punctuation, c ≠ '/' → isForeign c = false ∧ c ≠ '"' ∧ c ≠ '/' :=
  forall_mem_of_all (by decide)

theorem plain_of_isBlank {c : Char} (blank : isBlank c = true) :
    isForeign c = false ∧ c ≠ '"' ∧ c ≠ '/' := by
  have : ∀ d ∈ [' ', '\t', '\r', '\n'], isForeign d = false ∧ d ≠ '"' ∧ d ≠ '/' :=
    forall_mem_of_all (by decide)
  exact this c (isBlank_iff.mp blank)

theorem Numeral.isDigit_or_eq_point {numeral : Numeral} (wellFormed : numeral.IsWellFormed) :
    ∀ c ∈ numeral.text, c.isDigit = true ∨ c = '.' := by
  obtain ⟨whole, fraction⟩ := numeral
  obtain ⟨⟨_, digits⟩, behind⟩ := wellFormed
  intro c mem
  cases fraction with
  | none => exact .inl (digits c mem)
  | some fraction =>
    rcases List.mem_append.mp mem with mem | mem
    · exact .inl (digits c mem)
    rcases List.mem_cons.mp mem with rfl | mem
    · exact .inr rfl
    · exact .inl ((behind fraction rfl).2 c mem)

theorem plain_numeral {numeral : Numeral} (wellFormed : numeral.IsWellFormed) :
    ∀ c ∈ numeral.text, isForeign c = false ∧ c ≠ '"' ∧ c ≠ '/' := by
  intro c mem
  rcases Numeral.isDigit_or_eq_point wellFormed c mem with digit | rfl
  · exact plain_of_isWordPart (isWordPart_of_isDigit digit)
  · decide

namespace Mode

theorem report_operator {op : Operator} {rest : List Char} (before : List Char)
    (ends : (Segment.operator op).EndsBefore rest) :
    code.report before (op.spelling ++ rest) = code.report (before ++ op.spelling) rest := by
  by_cases slash : op = .slash
  · subst slash
    have noComment : rest.head? ≠ some '/' := by
      intro second
      have := ends '/' second
      simp [Operator.joins] at this
    show code.report before ('/' :: rest) = _
    rw [report_cons_of_quiet before rest (fun _ => by decide)]
    simp [next, noComment, Operator.spelling]
  · apply report_code_run
    intro c mem
    have notSlash : c ≠ '/' := by
      rintro rfl
      exact slash (Operator.eq_slash_of_mem_spelling mem)
    exact plain_of_mem_punctuation c (op.mem_punctuation_of_mem_spelling c mem) notSlash

/-- **Over the characters of a segment** the reader reports what the segment gives, and is then in code
again, or might as well be. -/
theorem report_segment {segment : Segment} {rest : List Char} (before : List Char)
    (wellFormed : segment.IsWellFormed) (ends : segment.EndsBefore rest) :
    code.report before (segment.text ++ rest)
      = (Located.diagnostic? ⟨Position.start.after before, segment⟩).toList
        ++ code.report (before ++ segment.text) rest := by
  cases segment with
  | operator op => exact report_operator before ends
  | word text =>
    apply report_code_run
    intro c mem
    exact plain_of_isWordPart (wellFormed.2 c mem)
  | number numeral => exact report_code_run before rest (plain_numeral wellFormed)
  | blank c =>
    apply report_code_run
    intro d mem
    obtain rfl := List.mem_singleton.mp mem
    exact plain_of_isBlank wellFormed
  | quoted body =>
    simp only [Segment.text, List.cons_append, List.append_assoc, List.nil_append]
    rw [report_cons_of_quiet before _ (fun _ => by decide)]
    show string.report _ (body ++ '"' :: rest) = code.report _ rest
    rw [report_string_run _ _ wellFormed, report_cons_of_quiet _ rest (fun inCode => by cases inCode)]
    show code.report _ rest = _
    simp
  | comment body =>
    simp only [Segment.text, List.cons_append]
    rw [report_cons_of_quiet before _ (fun _ => by decide)]
    show comment.report _ (('/' :: body) ++ rest) = code.report _ rest
    have oneLine : '\n' ∉ '/' :: body := by
      rintro (_ | ⟨_, mem⟩)
      exact wellFormed mem
    rw [report_comment_run _ _ oneLine, report_comment _ ends]
    simp
  | stray c =>
    obtain ⟨_, _, notQuote, _⟩ := isForeign_iff.mp wellFormed
    have line : (Position.start.after before).line = 1 + newlines before := rfl
    simp only [Segment.text, List.cons_append, List.nil_append]
    rw [report_cons, next_code notQuote (ne_slash_of_isForeign wellFormed), CharacterRead.diagnostic?,
      if_pos ⟨rfl, wellFormed⟩, Located.diagnostic?, line]
  | unclosed body =>
    obtain rfl : rest = [] := ends
    have line : (Located.finish ⟨Position.start.after before, .unclosed body⟩).line
        = 1 + newlines (before ++ '"' :: body) := by
      simp [Located.finish, Position.after, Position.start, Segment.text, Nat.add_assoc]
    simp only [Segment.text, List.cons_append]
    rw [report_cons_of_quiet before _ (fun _ => by decide)]
    show string.report _ (body ++ []) = _
    rw [report_string_run _ _ wellFormed, report_nil, if_pos rfl, Located.diagnostic?, line,
      report_nil, if_neg (by decide)]
    simp

/-- The reader reports what the segments of a text give. -/
theorem report_code (before input : List Char) :
    code.report before input
      = (segmentsFrom (Position.start.after before) input).filterMap Located.diagnostic? := by
  induction input using Segment.next?_induction generalizing before with
  | ended => rw [report_nil, if_neg (by decide)]; simp
  | @step segment rest found wellFormed ends ih =>
    rw [report_segment before wellFormed ends, filterMap_segmentsFrom_of_next? found, ih,
      Position.after_append]

end Mode

/-! ## The diagnostics of a source -/

theorem CharacterRead.error_of_diagnostic? {read : CharacterRead} {diagnostic : Diagnostic}
    (found : read.diagnostic? = some diagnostic) :
    diagnostic.error = .unexpectedCharacter read.character := by
  rw [CharacterRead.diagnostic?] at found
  split at found
  · cases found; rfl
  · cases found

theorem CharacterRead.diagnostic?_eq_none_iff {read : CharacterRead} :
    read.diagnostic? = none ↔ (read.mode = .code → isForeign read.character = false) := by
  simp [CharacterRead.diagnostic?]

/-- **Diagnostics are exact.** They are one for each foreign character that is read in code, and one more
if the reading ends in a string; so a source is without error if and only if neither happens, and only the
last diagnostic can be that of an open string. -/
theorem diagnostics_of_modes (source : String) :
    (scan source).diagnostics
        = (Mode.code.reads [] source.toList).filterMap CharacterRead.diagnostic?
          ++ (if Mode.code.final source.toList = .string then
              [⟨1 + newlines source.toList, .unterminatedString⟩] else []) ∧
      ((scan source).hadError = false ↔
        (∀ read ∈ Mode.code.reads [] source.toList, read.mode = .code → isForeign read.character = false)
          ∧ Mode.code.final source.toList ≠ .string) ∧
      ∀ (i : Nat) (diagnostic : Diagnostic), (scan source).diagnostics[i]? = some diagnostic →
        diagnostic.error = .unterminatedString → i + 1 = (scan source).diagnostics.length := by
  have exact : (scan source).diagnostics = Mode.code.report [] source.toList := by
    rw [scan_diagnostics, Mode.report_code]
    rfl
  rw [Mode.report, List.nil_append] at exact
  refine ⟨exact, ?_, ?_⟩
  · rw [Scan.hadError, exact]
    simp only [Bool.not_eq_false', List.isEmpty_iff, List.append_eq_nil_iff,
      List.filterMap_eq_nil_iff, CharacterRead.diagnostic?_eq_none_iff, ite_eq_right_iff,
      List.cons_ne_nil, imp_false, ne_eq]
  · intro i diagnostic found unterminated
    rw [exact, List.getElem?_append] at found
    split at found
    · obtain ⟨read, _, given⟩ := List.mem_filterMap.mp (List.mem_of_getElem? found)
      rw [CharacterRead.error_of_diagnostic? given] at unterminated
      cases unterminated
    · split at found
      · rename_i behind openString
        obtain ⟨last, _⟩ := List.getElem?_eq_some_iff.mp found
        rw [exact, if_pos openString, List.length_append]
        simp only [List.length_singleton] at last ⊢
        omega
      · cases found

end LoxLexing
