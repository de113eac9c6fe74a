import LoxLexing.Proofs.Boundary

/-!
# The segments of a text

Which segments a text falls into does not depend on where the text begins. `Segment.sequence` is the list
of them alone, and `locate` puts a list of segments at their places again; together they are what a scan
walks over (`segmentsFrom_eq_locate`).

**The law** (`filterMap_segmentsFrom_append`): a line end cuts a text in two. If no string is open in front of
it, then the text falls into the segments of both parts, apart from blanks and comments at the seam.
Nothing that looks at neither can see the seam; tokens and diagnostics do not.

A line end may be a line feed alone, or a carriage return and a line feed. In the second case a comment in
front takes the carriage return in (`sequence_append_return`), so its text changes but not its being a
comment.
-/

namespace LoxLexing

/-- A segment stands where the text in front of it ends, and it is what the text is read as from there. -/
theorem next?_of_mem_segmentsFrom {here : Position} {input : List Char} {found : Located}
    (mem : found ∈ segmentsFrom here input) :
    ∃ before after, input = before ++ (found.segment.text ++ after) ∧
      found.position = here.after before ∧
      Segment.next? (found.segment.text ++ after) = some (found.segment, after) := by
  induction input using Segment.next?_induction generalizing here with
  | ended => simp at mem
  | @step segment rest reads _ _ ih =>
    rw [segmentsFrom_of_next? reads] at mem
    rcases List.mem_cons.mp mem with rfl | mem
    · exact ⟨[], rest, rfl, rfl, reads⟩
    · obtain ⟨before, after, split, place, reads⟩ := ih mem
      refine ⟨segment.text ++ before, after, ?_, ?_, reads⟩
      · rw [split, List.append_assoc]
      · rw [place, Position.after_append]

theorem isWellFormed_of_mem_segmentsFrom {here : Position} {input : List Char} {found : Located}
    (mem : found ∈ segmentsFrom here input) : found.segment.IsWellFormed := by
  obtain ⟨_, _, _, _, reads⟩ := next?_of_mem_segmentsFrom mem
  exact (Segment.next?_eq_some_iff.mp reads).1

/-- What a segment gives spans the segment. -/
theorem Located.of_token? {found : Located} {token : Token} (given : found.token? = some token) :
    token.kind ≠ .endOfInput ∧ token.lexeme = String.ofList found.segment.text ∧
      token.span
        = ⟨found.position.offset, found.position.offset + utf8Length found.segment.text⟩ := by
  obtain ⟨here, segment⟩ := found
  cases segment with
  | word text =>
    cases given
    refine ⟨?_, rfl, rfl⟩
    simp only [Located.toToken, Kind.ofWord]
    cases Keyword.ofSpelling? (String.ofList text) <;> exact nofun
  | operator op => cases given; exact ⟨nofun, rfl, rfl⟩
  | number numeral => cases given; exact ⟨nofun, rfl, rfl⟩
  | quoted body => cases given; exact ⟨nofun, rfl, rfl⟩
  | _ => cases given

namespace Segment

/-- The segments of a text, wherever it begins. -/
def sequence (input : List Char) : List Segment :=
  (segmentsFrom .start input).map (·.segment)

/-- Segments one after another, the first of which begins at `here`. -/
def locate (here : Position) : List Segment → List Located
  | [] => []
  | segment :: segments => ⟨here, segment⟩ :: locate (here.after segment.text) segments

theorem segmentsFrom_eq_locate_map (here there : Position) (input : List Char) :
    segmentsFrom here input = locate here ((segmentsFrom there input).map (·.segment)) := by
  induction input using next?_induction generalizing here there with
  | ended => simp [locate]
  | step found _ _ ih =>
    rw [segmentsFrom_of_next? found, segmentsFrom_of_next? found, List.map_cons, locate,
      ih (here.after _) (there.after _)]

theorem segmentsFrom_eq_locate (here : Position) (input : List Char) :
    segmentsFrom here input = locate here (sequence input) :=
  segmentsFrom_eq_locate_map here .start input

theorem map_segment_locate (here : Position) (segments : List Segment) :
    (locate here segments).map (·.segment) = segments := by
  induction segments generalizing here with
  | nil => rfl
  | cons segment segments ih => rw [locate, List.map_cons, ih]

@[simp] theorem sequence_nil : sequence [] = [] := by
  simp [sequence]

theorem sequence_of_next? {input rest : List Char} {segment : Segment}
    (found : next? input = some (segment, rest)) : sequence input = segment :: sequence rest := by
  rw [sequence, segmentsFrom_of_next? found, List.map_cons, segmentsFrom_eq_locate,
    map_segment_locate]

theorem sequence_of_endsBefore {segment : Segment} {rest : List Char}
    (wellFormed : segment.IsWellFormed) (ends : segment.EndsBefore rest) :
    sequence (segment.text ++ rest) = segment :: sequence rest :=
  sequence_of_next? (next?_of_endsBefore wellFormed ends)

theorem sequence_cons_of_isBlank {c : Char} (blank' : isBlank c = true) (rest : List Char) :
    sequence (c :: rest) = blank c :: sequence rest := by
  have wellFormed : (blank c).IsWellFormed := blank'
  exact sequence_of_endsBefore wellFormed trivial

/-- Nothing is lost. -/
theorem flatMap_text_sequence (input : List Char) : (sequence input).flatMap text = input := by
  induction input using next?_induction with
  | ended => simp
  | step found _ _ ih => rw [sequence_of_next? found, List.flatMap_cons, ih]

theorem locate_append (here : Position) (front behind : List Segment) :
    locate here (front ++ behind)
      = locate here front ++ locate (here.after (front.flatMap text)) behind := by
  induction front generalizing here with
  | nil => rfl
  | cons segment front ih =>
    rw [List.cons_append, locate, locate, ih, List.flatMap_cons, Position.after_append]
    rfl

/-! ## A blank behind a text -/

/-- Whether no string is left open in a text. -/
def IsClosed (input : List Char) : Prop :=
  ∀ body, unclosed body ∉ sequence input

theorem isClosed_cons {segment : Segment} {rest : List Char}
    (found : next? (segment.text ++ rest) = some (segment, rest)) :
    IsClosed (segment.text ++ rest) ↔ (∀ body, segment ≠ unclosed body) ∧ IsClosed rest := by
  simp only [IsClosed, sequence_of_next? found, List.mem_cons, not_or, forall_and]
  constructor
  · rintro ⟨first, others⟩
    exact ⟨fun body same => first body same.symm, others⟩
  · rintro ⟨first, others⟩
    exact ⟨fun body same => first body same.symm, others⟩

theorem joins_eq_false_of_isBlank (op : Operator) {c : Char} (blank : isBlank c = true) :
    op.joins c = false := by
  have notMark : c ∉ punctuation := by
    intro mark
    rw [(not_isBlank_of_mem_punctuation c mark).1] at blank
    cases blank
  have notSlash : c ≠ '/' := by
    rintro rfl
    exact notMark (by decide)
  cases found : Operator.ofSpelling? (op.spelling ++ [c]) with
  | none => simp [Operator.joins, found, notSlash]
  | some longer =>
    have mem : c ∈ longer.spelling := by
      rw [Operator.spelling_of_ofSpelling? found]
      simp
    exact absurd (longer.mem_punctuation_of_mem_spelling c mem) notMark

theorem isWordPart_eq_false_of_isBlank {c : Char} (blank : isBlank c = true) :
    isWordPart c = false := by
  cases part : isWordPart c with
  | false => rfl
  | true =>
    rw [isBlank_eq_false_of_isWordPart part] at blank
    cases blank

theorem isDigit_eq_false_of_isBlank {c : Char} (blank : isBlank c = true) : c.isDigit = false := by
  have := isWordPart_eq_false_of_isBlank blank
  simp only [isWordPart, Bool.or_eq_false_iff] at this
  exact this.2

theorem stops_append {p : Char → Bool} {c : Char} {rest : List Char} (stops : Stops p rest)
    (notRun : p c = false) (behind : List Char) : Stops p (rest ++ c :: behind) := by
  cases rest with
  | nil => exact stops_cons.mpr notRun
  | cons d rest => exact stops_cons.mpr (stops_cons.mp stops)

/-- A blank ends whatever stands in front of it, but for a string, and a comment if it is no line feed. -/
theorem endsBefore_append_blank {segment : Segment} {rest : List Char} {c : Char}
    (ends : segment.EndsBefore rest) (blank : isBlank c = true)
    (closed : ∀ body, segment ≠ unclosed body)
    (lineFeed : ∀ body, segment = comment body → rest = [] → c = '\n') (behind : List Char) :
    segment.EndsBefore (rest ++ c :: behind) := by
  cases segment with
  | operator op => exact stops_append ends (joins_eq_false_of_isBlank op blank) behind
  | word text => exact stops_append ends (isWordPart_eq_false_of_isBlank blank) behind
  | number numeral =>
    have notDigit := isDigit_eq_false_of_isBlank blank
    obtain ⟨whole, fraction⟩ := numeral
    cases fraction with
    | some fraction => exact stops_append ends notDigit behind
    | none =>
      refine ⟨stops_append ends.1 notDigit behind, ?_⟩
      intro digit tail point
      -- The point may be the last character of the rest, and then the blank stands behind it.
      match rest, ends with
      | [], _ =>
        obtain ⟨rfl, _⟩ := List.cons.inj point
        cases blank
      | [d], _ =>
        obtain ⟨_, same⟩ := List.cons.inj point
        obtain ⟨rfl, _⟩ := List.cons.inj same
        exact notDigit
      | d :: e :: rest, ⟨_, noDigit⟩ =>
        obtain ⟨rfl, same⟩ := List.cons.inj point
        obtain ⟨rfl, _⟩ := List.cons.inj same
        exact noDigit e rest rfl
  | comment body =>
    cases rest with
    | nil =>
      obtain rfl := lineFeed body rfl rfl
      exact stops_newline_cons.mpr rfl
    | cons d rest => exact stops_newline_cons.mpr (stops_newline_cons.mp ends)
  | unclosed body => exact absurd rfl (closed body)
  | _ => trivial

/-- What gives a token ends before a blank. -/
theorem endsBefore_blank_of_token? {found : Located} {token : Token}
    (given : found.token? = some token) {c : Char} (blank : isBlank c = true)
    (behind : List Char) : found.segment.EndsBefore (c :: behind) := by
  obtain ⟨here, segment⟩ := found
  refine endsBefore_append_blank (endsBefore_nil segment) blank ?_ ?_ behind
  · rintro body rfl
    cases given
  · rintro body rfl
    cases given

/-- A line feed is a blank of its own, and both sides of it are read as if they stood alone. -/
theorem sequence_append_newline {front : List Char} (closed : IsClosed front) (behind : List Char) :
    sequence (front ++ '\n' :: behind) = sequence front ++ blank '\n' :: sequence behind := by
  induction front using next?_induction with
  | ended => rw [List.nil_append, sequence_cons_of_isBlank rfl, sequence_nil, List.nil_append]
  | @step segment rest found wellFormed ends ih =>
    obtain ⟨notUnclosed, closed⟩ := (isClosed_cons found).mp closed
    have ends' := endsBefore_append_blank (c := '\n') ends rfl notUnclosed (fun _ _ _ => rfl) behind
    rw [List.append_assoc, sequence_of_endsBefore wellFormed ends', sequence_of_next? found, ih closed,
      List.cons_append]

/-- A carriage return at the end is a blank of its own, unless a comment takes it in. -/
theorem sequence_append_return {front : List Char} (closed : IsClosed front) :
    sequence (front ++ ['\r']) = sequence front ++ [blank '\r'] ∨
      ∃ init body, sequence front = init ++ [comment body] ∧
        sequence (front ++ ['\r']) = init ++ [comment (body ++ ['\r'])] := by
  induction front using next?_induction with
  | ended => exact .inl (by rw [List.nil_append, sequence_cons_of_isBlank rfl, sequence_nil]; rfl)
  | @step segment rest found wellFormed ends ih =>
    obtain ⟨notUnclosed, closed⟩ := (isClosed_cons found).mp closed
    by_cases last : (∃ body, segment = comment body) ∧ rest = []
    · obtain ⟨⟨body, rfl⟩, rfl⟩ := last
      have wellFormed' : (comment (body ++ ['\r'])).IsWellFormed := by
        intro mem
        rcases List.mem_append.mp mem with mem | mem
        · exact wellFormed mem
        · cases List.mem_singleton.mp mem
      refine .inr ⟨[], body, ?_, ?_⟩
      · rw [sequence_of_next? found, sequence_nil, List.nil_append]
      · have := sequence_of_endsBefore wellFormed' (endsBefore_nil _)
        simpa [text] using this
    · have ends' := endsBefore_append_blank (c := '\r') ends rfl notUnclosed
        (fun body same ended => absurd ⟨⟨body, same⟩, ended⟩ last) []
      rw [List.append_assoc, sequence_of_endsBefore wellFormed ends', sequence_of_next? found]
      rcases ih closed with apart | ⟨init, body, front, joined⟩
      · exact .inl (by rw [apart, List.cons_append])
      · exact .inr ⟨segment :: init, body, by rw [front, List.cons_append],
          by rw [joined, List.cons_append]⟩

theorem isClosed_append_return {front : List Char} (closed : IsClosed front) :
    IsClosed (front ++ ['\r']) := by
  intro body mem
  rcases sequence_append_return closed with apart | ⟨init, body', before, joined⟩
  · rw [apart] at mem
    rcases List.mem_append.mp mem with mem | mem
    · exact closed body mem
    · cases List.mem_singleton.mp mem
  · rw [joined] at mem
    rcases List.mem_append.mp mem with mem | mem
    · exact closed body (before ▸ List.mem_append_left _ mem)
    · cases List.mem_singleton.mp mem

end Segment

/-! ## Across a line end -/

theorem toList_append_newline (front behind : String) :
    (front ++ "\n" ++ behind).toList = front.toList ++ '\n' :: behind.toList := by
  rw [String.toList_append, String.toList_append, List.append_assoc]
  rfl

/-- The two ways to end a line. -/
def IsLineEnd (terminator : List Char) : Prop :=
  terminator = ['\n'] ∨ terminator = ['\r', '\n']

theorem newlines_of_isLineEnd {terminator : List Char} (lineEnd : IsLineEnd terminator) :
    newlines terminator = 1 := by
  rcases lineEnd with rfl | rfl
  all_goals rfl

/-- Whether something that looks at segments passes over blanks and comments. -/
def IsSilent {α : Type} (give : Located → Option α) : Prop :=
  ∀ here, (∀ c, give ⟨here, .blank c⟩ = none) ∧ ∀ body, give ⟨here, .comment body⟩ = none

theorem isSilent_token? : IsSilent Located.token? :=
  fun _ => ⟨fun _ => rfl, fun _ => rfl⟩

theorem isSilent_diagnostic? : IsSilent Located.diagnostic? :=
  fun _ => ⟨fun _ => rfl, fun _ => rfl⟩

section

variable {α : Type} {give : Located → Option α} {front : List Char}

theorem filterMap_segmentsFrom_newline (silent : IsSilent give) (closed : Segment.IsClosed front)
    (here : Position) (behind : List Char) :
    (segmentsFrom here (front ++ '\n' :: behind)).filterMap give
      = (segmentsFrom here front).filterMap give
        ++ (segmentsFrom (here.after (front ++ ['\n'])) behind).filterMap give := by
  have blank := (silent (here.after front)).1 '\n'
  rw [Segment.segmentsFrom_eq_locate, Segment.sequence_append_newline closed, Segment.locate_append,
    Segment.flatMap_text_sequence, Segment.locate, List.filterMap_append,
    List.filterMap_cons_none blank, Segment.segmentsFrom_eq_locate, Segment.segmentsFrom_eq_locate,
    Position.after_append]
  rfl

theorem filterMap_segmentsFrom_return (silent : IsSilent give) (closed : Segment.IsClosed front)
    (here : Position) :
    (segmentsFrom here (front ++ ['\r'])).filterMap give
      = (segmentsFrom here front).filterMap give := by
  rw [Segment.segmentsFrom_eq_locate, Segment.segmentsFrom_eq_locate]
  rcases Segment.sequence_append_return closed with apart | ⟨init, body, before, joined⟩
  · rw [apart, Segment.locate_append, List.filterMap_append, Segment.locate,
      List.filterMap_cons_none ((silent _).1 _)]
    exact List.append_nil _
  · have none (there : Position) (body : List Char) :
        (Segment.locate there [.comment body]).filterMap give = [] :=
      List.filterMap_cons_none ((silent there).2 body)
    rw [joined, before, Segment.locate_append, Segment.locate_append, List.filterMap_append,
      List.filterMap_append, none, none]

/-- **A line end cuts a text in two** for everything that passes over blanks and comments. -/
theorem filterMap_segmentsFrom_append (silent : IsSilent give) (closed : Segment.IsClosed front)
    {terminator : List Char} (lineEnd : IsLineEnd terminator) (here : Position)
    (behind : List Char) :
    (segmentsFrom here (front ++ (terminator ++ behind))).filterMap give
      = (segmentsFrom here front).filterMap give
        ++ (segmentsFrom (here.after (front ++ terminator)) behind).filterMap give := by
  rcases lineEnd with rfl | rfl
  · exact filterMap_segmentsFrom_newline silent closed here behind
  · have closed' := Segment.isClosed_append_return closed
    have cut := filterMap_segmentsFrom_newline silent closed' here behind
    rw [filterMap_segmentsFrom_return silent closed, List.append_assoc, List.append_assoc] at cut
    exact cut

end

end LoxLexing
