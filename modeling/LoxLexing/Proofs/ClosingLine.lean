import LoxLexing.Proofs.OpenInput

/-!
# A line that closes an input

However an input was left open, there is one line that ends the waiting: the quote of an open string, then every
awaited closing bracket, the innermost first, and a semicolon (`closingLine`).

**The law** (`needsMore_closingLine`): the input with its closing line is not open, and the closing line is a
single line. It is not longer than it need be in this sense: where it has a quote or a bracket, the input is
open.

Behind its closing quote an input goes on as any text does (`exists_sequence_closingQuote`). So the closing
brackets are read one by one (`Segment.sequence_closers`), and each lets go of the one that is awaited
(`foldl_awaitOperator_self`).
-/

namespace LoxLexing

/-! ## The line -/

/-- The quote that an open string waits for. -/
def closingQuote (input : String) : String :=
  if (scan input).hasOpenString then "\"" else ""

/-- The closing brackets that are awaited when no string is open any more, the innermost first. -/
def closingBrackets (input : String) : List Operator :=
  awaited (scan (input ++ "\n" ++ closingQuote input)).tokens

/-- A line that closes all that an input leaves open. -/
def closingLine (input : String) : String :=
  closingQuote input ++ (String.ofList ((closingBrackets input).flatMap Operator.spelling) ++ ";")

/-! ## Closing brackets -/

namespace Operator

/-- A closing bracket is an operator whatever stands behind it. -/
theorem IsCloser.joins_eq_false {op : Operator} (isCloser : op.IsCloser) (c : Char) : op.joins c = false := by
  have ends : ∀ longer : Operator, longer.spelling ≠ op.spelling ++ [c] := by
    intro longer
    rcases isCloser_iff.mp isCloser with rfl | rfl
    all_goals cases longer <;> simp [spelling]
  have notSlash : op ≠ slash := by
    rintro rfl
    rcases isCloser_iff.mp isCloser with same | same <;> cases same
  cases found : ofSpelling? (op.spelling ++ [c]) with
  | some longer => exact absurd (spelling_of_ofSpelling? found) (ends longer)
  | none => simp [joins, found, notSlash]

end Operator

section

variable {op : Operator} {stack : List Operator}

/-- Only closing brackets are awaited. -/
theorem isCloser_of_mem_foldl {ops : List Operator} (mem : op ∈ ops.foldl awaitOperator stack) :
    op ∈ stack ∨ op.IsCloser := by
  induction ops generalizing stack with
  | nil => exact .inl mem
  | cons first ops ih =>
    refine (ih mem).elim ?_ .inr
    intro mem
    cases opens : first.closer? with
    | some closer =>
      rw [awaitOperator_of_opens opens] at mem
      rcases List.mem_cons.mp mem with rfl | mem
      · exact .inr ⟨first, opens⟩
      · exact .inl mem
    | none => exact .inl ((awaitOperator_sublist opens stack).subset mem)

/-- The awaited brackets, one after the other, leave none awaited. -/
theorem foldl_awaitOperator_self (closers : ∀ op ∈ stack, op.IsCloser) :
    stack.foldl awaitOperator stack = [] := by
  induction stack with
  | nil => rfl
  | cons closer stack ih =>
    obtain ⟨⟨opening, opens⟩, closers⟩ := List.forall_mem_cons.mp closers
    rw [List.foldl_cons, awaitOperator_cons_self opens, ih closers]

namespace Segment

theorem sequence_closers (closers : ∀ op ∈ stack, op.IsCloser) (behind : List Char) :
    sequence (stack.flatMap Operator.spelling ++ behind) = stack.map operator ++ sequence behind := by
  induction stack with
  | nil => rfl
  | cons closer stack ih =>
    obtain ⟨isCloser, closers⟩ := List.forall_mem_cons.mp closers
    have ends (rest : List Char) : (operator closer).EndsBefore rest := fun c _ => isCloser.joins_eq_false c
    have wellFormed : (operator closer).IsWellFormed := trivial
    have reads := sequence_of_endsBefore wellFormed (ends (stack.flatMap Operator.spelling ++ behind))
    rw [text] at reads
    rw [List.flatMap_cons, List.append_assoc, reads, ih closers, List.map_cons, List.cons_append]

theorem kinds_map_operator (ops : List Operator) : kinds (ops.map operator) = ops.map Kind.operator := by
  rw [kinds, List.filterMap_map, ← List.filterMap_eq_map]
  rfl

end Segment

theorem operators_map_operator (ops : List Operator) : operators (ops.map Kind.operator) = ops := by
  rw [operators, List.filterMap_map]
  exact List.filterMap_some

end

/-! ## Behind the quote -/

section

variable {input : String}

theorem closingQuote_of_isClosed (closed : Segment.IsClosed input.toList) : closingQuote input = "" := by
  rw [closingQuote, hasOpenString_eq_false_iff.mpr closed]
  rfl

theorem closingQuote_of_not_isClosed (isOpen : ¬ Segment.IsClosed input.toList) :
    closingQuote input = "\"" := by
  rw [closingQuote, if_pos]
  rwa [← Bool.not_eq_false, hasOpenString_eq_false_iff]

/-- Behind a line feed and its closing quote, an input goes on as any text does. An open string has taken the
line feed in. -/
theorem exists_sequence_closingQuote (input : String) :
    ∃ front, Segment.AllClosed front ∧
      ∀ behind : String, Segment.sequence (input ++ "\n" ++ (closingQuote input ++ behind)).toList
        = front ++ Segment.sequence behind.toList := by
  by_cases closed : Segment.IsClosed input.toList
  · refine ⟨Segment.sequence input.toList ++ [.blank '\n'], ?_, ?_⟩
    · exact Segment.allClosed_append_iff.mpr ⟨closed, Segment.allClosed_singleton nofun⟩
    · intro behind
      rw [closingQuote_of_isClosed closed, String.empty_append, toList_append_newline,
        Segment.sequence_append_newline closed, List.append_assoc]
      rfl
  · obtain ⟨front, body, noQuote, noString, same, cut⟩ := Segment.exists_openQuote closed
    have wellFormed : (Segment.quoted (body ++ ['\n'])).IsWellFormed :=
      List.not_mem_append noQuote (by decide)
    refine ⟨front ++ [.quoted (body ++ ['\n'])], ?_, ?_⟩
    · exact Segment.allClosed_append_iff.mpr ⟨noString, Segment.allClosed_singleton nofun⟩
    · intro behind
      have string : '"' :: (body ++ '\n' :: ("\"" ++ behind).toList)
          = (Segment.quoted (body ++ ['\n'])).text ++ behind.toList := by
        simp [Segment.text]
      have ends : (Segment.quoted (body ++ ['\n'])).EndsBefore behind.toList := trivial
      have reads := Segment.sequence_of_endsBefore wellFormed ends
      rw [closingQuote_of_not_isClosed closed, toList_append_newline, same, List.append_assoc,
        List.cons_append, cut, string, reads, List.append_assoc]
      rfl

/-! ## The law -/

/-- A closing line is one line. -/
theorem newline_notMem_closingLine (input : String) : '\n' ∉ (closingLine input).toList := by
  have quote : '\n' ∉ (closingQuote input).toList := by
    rw [closingQuote]
    split <;> decide
  have brackets : '\n' ∉ (closingBrackets input).flatMap Operator.spelling := by
    intro mem
    obtain ⟨op, _, mem⟩ := List.mem_flatMap.mp mem
    exact absurd (op.mem_punctuation_of_mem_spelling _ mem) (by decide)
  have semicolon : '\n' ∉ ";".toList := by decide
  simp only [closingLine, String.toList_append, String.toList_ofList, List.mem_append, not_or]
  exact ⟨quote, brackets, semicolon⟩

theorem isCloser_of_mem_closingBrackets :
    ∀ op ∈ closingBrackets input, op.IsCloser := by
  intro op mem
  rw [closingBrackets, awaited_scan] at mem
  exact (isCloser_of_mem_foldl mem).resolve_left List.not_mem_nil

/-- An input with its closing line falls into what stands in front of the awaited brackets, these, and the
semicolon. -/
theorem exists_sequence_closingLine (input : String) :
    ∃ front, Segment.AllClosed front ∧
      (operators (Segment.kinds front)).foldl awaitOperator [] = closingBrackets input ∧
      Segment.sequence (input ++ "\n" ++ closingLine input).toList
        = front ++ (closingBrackets input ++ [Operator.semicolon]).map .operator := by
  obtain ⟨front, noString, cut⟩ := exists_sequence_closingQuote input
  refine ⟨front, noString, ?_, ?_⟩
  · have none := cut ""
    rw [String.append_empty, String.toList_empty, Segment.sequence_nil, List.append_nil] at none
    rw [closingBrackets, awaited_scan, none]
  · have semicolon : Segment.sequence ";".toList = [.operator .semicolon] := by decide +kernel
    rw [closingLine, cut, String.toList_append, String.toList_ofList,
      Segment.sequence_closers isCloser_of_mem_closingBrackets, semicolon, List.map_append,
      List.map_singleton]

theorem needsMore_append_closingLine (input : String) :
    needsMore (input ++ "\n" ++ closingLine input) = false := by
  obtain ⟨front, noString, stack, reads⟩ := exists_sequence_closingLine input
  rw [needsMore_eq_false_iff, reads]
  refine ⟨?_, ?_, ?_⟩
  · refine Segment.allClosed_append_iff.mpr ⟨noString, ?_⟩
    intro body mem
    obtain ⟨op, _, same⟩ := List.mem_map.mp mem
    cases same
  · rw [Segment.kinds_append, Segment.kinds_map_operator, operators_append, operators_map_operator,
      List.foldl_append, stack, List.foldl_append,
      foldl_awaitOperator_self isCloser_of_mem_closingBrackets]
    rfl
  · rw [Segment.kinds_append, Segment.kinds_map_operator, List.map_append, ← List.append_assoc,
      List.map_singleton, List.getLast?_concat]
    rintro kind ⟨⟩
    rfl

/-- What the closing line has to close was open. -/
theorem needsMore_of_closing (needed : closingQuote input ≠ "" ∨ closingBrackets input ≠ []) :
    needsMore input = true := by
  rw [← Bool.not_eq_false, needsMore_eq_false_iff]
  rintro ⟨closed, balanced, -⟩
  have noQuote := closingQuote_of_isClosed closed
  rcases needed with quote | brackets
  · exact quote noQuote
  · have spacing : ∀ segment ∈ .blank '\n' :: Segment.sequence "".toList, segment.IsSpacing := by
      rw [String.toList_empty, Segment.sequence_nil]
      exact List.forall_mem_singleton.mpr trivial
    apply brackets
    rw [closingBrackets, noQuote, awaited_scan, toList_append_newline,
      Segment.sequence_append_newline closed, Segment.kinds_append, Segment.kinds_of_isSpacing spacing,
      List.append_nil, balanced]

end

/-- **There is always a line that ends the waiting.** It is a single line, and where it has something to close
the input is open. -/
theorem needsMore_closingLine (input : String) :
    needsMore (input ++ "\n" ++ closingLine input) = false ∧ '\n' ∉ (closingLine input).toList ∧
      (closingQuote input ≠ "" ∨ closingBrackets input ≠ [] → needsMore input = true) :=
  ⟨needsMore_append_closingLine input, newline_notMem_closingLine input, needsMore_of_closing⟩

/-- A string is open in a brace in a parenthesis, behind a closing parenthesis that closes nothing and a
character that begins no token. -/
theorem needsMore_closingLine_string :
    let input := "f(a, \x7b ) ^ \"b // ("
    closingLine input = "\"\x7d);" ∧ closingQuote input ≠ "" ∧ needsMore input = true ∧
      needsMore (input ++ "\n" ++ closingLine input) = false := by
  intro input
  have needed : closingQuote input ≠ "" := by decide +kernel
  obtain ⟨closes, _, waits⟩ := needsMore_closingLine input
  exact ⟨by decide +kernel, needed, waits (.inl needed), closes⟩

end LoxLexing
