import LoxLexing.Proofs.BracketWords
import LoxLexing.Proofs.Content
import LoxLexing.Proofs.Lookahead

/-!
# When an input stays open

Whether an input asks for another line is decided by its segments: no string may be open, no bracket awaited, and
the last token may not ask for an operand (`LeavesNothingOpen`, `needsMore_eq_false_iff`).

**The law** (`needsMore_append_trivia`): lines of white space and comments decide nothing. Whatever the comments
hold, an input with such lines behind it is open just if it was open without them. Behind an open string only
white space does not count, as a comment would be part of the string and may hold the quote that closes it.

In a closed input the line feed cuts the new lines off (`Segment.sequence_append_newline`), and none of their
segments counts (`leavesNothingOpen_append_iff`). An open string takes all of them in; there it is needed that
what is added behind an open quote changes nothing in front of it (`Segment.exists_openQuote`).
-/

namespace LoxLexing

/-! ## Kinds of segments -/

namespace Segment

/-- The kind of the token that a segment gives, if it gives one. -/
def kind? : Segment → Option Kind
  | operator op => some (.operator op)
  | word text => some (.ofWord (String.ofList text))
  | number _ => some .number
  | quoted _ => some .string
  | comment _ | blank _ | stray _ | unclosed _ => none

/-- The kinds of the tokens that some segments give. -/
def kinds (segments : List Segment) : List Kind :=
  segments.filterMap kind?

theorem kinds_append (front behind : List Segment) :
    kinds (front ++ behind) = kinds front ++ kinds behind :=
  List.filterMap_append

/-- Whether no string is open among some segments. -/
def AllClosed (segments : List Segment) : Prop :=
  ∀ body, unclosed body ∉ segments

theorem allClosed_append_iff {front behind : List Segment} :
    AllClosed (front ++ behind) ↔ AllClosed front ∧ AllClosed behind := by
  simp only [AllClosed, List.mem_append, not_or, forall_and]

theorem allClosed_singleton {segment : Segment} (closed : ∀ body, segment ≠ unclosed body) :
    AllClosed [segment] := by
  intro body mem
  exact closed body (List.mem_singleton.mp mem).symm

end Segment

/-- Whether some segments, one after the other, leave no string open, no bracket awaited and no operand asked
for. -/
structure LeavesNothingOpen (segments : List Segment) : Prop where
  closed : Segment.AllClosed segments
  balanced : (operators (Segment.kinds segments)).foldl awaitOperator [] = []
  last : ∀ kind ∈ (Segment.kinds segments).getLast?, kind.asksForMore = false

theorem Located.kind?_segment (found : Located) : found.segment.kind? = found.token?.map Token.kind := by
  obtain ⟨here, segment⟩ := found
  cases segment <;> rfl

theorem kinds_map_segment (found : List Located) :
    Segment.kinds (found.map (·.segment)) = (found.filterMap Located.token?).map Token.kind := by
  rw [Segment.kinds, List.filterMap_map, List.map_filterMap]
  exact List.filterMap_congr fun found _ => found.kind?_segment

theorem kinds_sequence (source : String) :
    Segment.kinds (Segment.sequence source.toList)
      = ((segments source).filterMap Located.token?).map Token.kind :=
  kinds_map_segment (segments source)

section

variable {input : String}

theorem awaited_scan (input : String) :
    awaited (scan input).tokens
      = (operators (Segment.kinds (Segment.sequence input.toList))).foldl awaitOperator [] := by
  have ended (here : Position) : operators [(Token.endOfInput here).kind] = [] := rfl
  rw [awaited, foldl_awaitAfter, scan_tokens, List.map_append, List.map_singleton, operators_append,
    ended, List.append_nil, kinds_sequence]

theorem map_kind_lastToken? (input : String) :
    (scan input).lastToken?.map Token.kind
      = (Segment.kinds (Segment.sequence input.toList)).getLast? := by
  rw [Scan.lastToken?, scan_tokens, List.dropLast_concat, kinds_sequence, List.getLast?_map]

/-- **The segments of an input decide whether it asks for more.** -/
theorem needsMore_eq_false_iff :
    needsMore input = false ↔ LeavesNothingOpen (Segment.sequence input.toList) := by
  have last : (scan input).lastToken?.any (·.kind.asksForMore) = false ↔
      ∀ kind ∈ (Segment.kinds (Segment.sequence input.toList)).getLast?, kind.asksForMore = false := by
    rw [← map_kind_lastToken?, ← Option.any_map (f := Token.kind) (p := Kind.asksForMore)]
    cases (scan input).lastToken?.map Token.kind <;> simp
  rw [needsMore, Scan.isOpen, Bool.or_eq_false_iff, Bool.or_eq_false_iff, hasOpenString_eq_false_iff,
    last, Bool.not_eq_false', isBalanced, List.isEmpty_iff, awaited_scan]
  constructor
  · rintro ⟨⟨closed, balanced⟩, last⟩
    exact ⟨closed, balanced, last⟩
  · rintro ⟨closed, balanced, last⟩
    exact ⟨⟨closed, balanced⟩, last⟩

/-- An open string asks for more. -/
theorem needsMore_of_not_isClosed (isOpen : ¬ Segment.IsClosed input.toList) : needsMore input = true := by
  rw [← Bool.not_eq_false, needsMore_eq_false_iff]
  intro nothing
  exact isOpen nothing.closed

end

/-! ## Behind an open quote -/

namespace Segment

/-- An open string is one from a quote on, and what stands behind that quote is read from there whatever it
is. -/
theorem exists_openQuote {input : List Char} (isOpen : ¬ IsClosed input) :
    ∃ front body, '"' ∉ body ∧ AllClosed front ∧
      input = front.flatMap text ++ '"' :: body ∧
      ∀ behind, sequence (front.flatMap text ++ '"' :: behind) = front ++ sequence ('"' :: behind) := by
  induction input using next?_induction_unclosed with
  | ended => exact absurd (fun body => by simp) isOpen
  | @unclosed body noQuote _ => exact ⟨[], body, noQuote, fun _ => List.not_mem_nil, rfl, fun _ => rfl⟩
  | @closed segment rest reads wellFormed ends notUnclosed ih =>
    have isOpen' : ¬ IsClosed rest := by
      intro closed
      exact isOpen ((isClosed_cons reads).mpr ⟨notUnclosed, closed⟩)
    obtain ⟨front, body, noQuote, closed, rfl, cut⟩ := ih isOpen'
    refine ⟨segment :: front, body, noQuote, ?_, ?_, ?_⟩
    · intro other mem
      rcases List.mem_cons.mp mem with same | mem
      · exact notUnclosed other same.symm
      · exact closed other mem
    · rw [List.flatMap_cons, List.append_assoc]
    · intro behind
      -- The quote is as far as a segment in front of it can see.
      have ends' := ends.of_behind (by decide) behind
      rw [List.flatMap_cons, List.append_assoc, sequence_of_endsBefore wellFormed ends', cut,
        List.cons_append]

/-- An open string stays open while no quote comes. -/
theorem not_isClosed_append {input run : List Char} (isOpen : ¬ IsClosed input) (noQuote : '"' ∉ run) :
    ¬ IsClosed (input ++ run) := by
  obtain ⟨front, body, noQuote', _, rfl, cut⟩ := exists_openQuote isOpen
  have wellFormed : (unclosed (body ++ run)).IsWellFormed :=
    List.not_mem_append noQuote' noQuote
  have reads := sequence_of_endsBefore wellFormed (endsBefore_nil _)
  rw [text, List.append_nil, sequence_nil] at reads
  intro closed
  apply closed (body ++ run)
  rw [List.append_assoc, List.cons_append, cut, reads]
  exact List.mem_append_right _ List.mem_cons_self

/-! ## White space and comments -/

/-- Whether a segment is white space or a comment. -/
def IsSpacing : Segment → Prop
  | blank _ | comment _ => True
  | _ => False

theorem isSpacing_of_mem_sequence {last : Bool} {trivia : List Char} (isTrivia : IsTrivia last trivia) :
    ∀ segment ∈ sequence trivia, segment.IsSpacing := by
  induction isTrivia with
  | ended => simp
  | blank blank _ ih =>
    rw [sequence_cons_of_isBlank (isBlank_iff.mpr blank)]
    exact List.forall_mem_cons.mpr ⟨trivial, ih⟩
  | @comment body rest oneLine _ ih =>
    have wellFormed : (Segment.comment body).IsWellFormed := oneLine
    have ends : (Segment.comment body).EndsBefore ('\n' :: rest) := stops_newline_cons.mpr rfl
    have reads := sequence_of_endsBefore wellFormed ends
    rw [text, List.cons_append, List.cons_append] at reads
    rw [reads]
    exact List.forall_mem_cons.mpr ⟨trivial, ih⟩
  | @lastComment body _ oneLine =>
    have wellFormed : (Segment.comment body).IsWellFormed := oneLine
    have reads := sequence_of_endsBefore wellFormed (endsBefore_nil _)
    rw [text, List.append_nil, sequence_nil] at reads
    rw [reads]
    exact List.forall_mem_singleton.mpr trivial

theorem kinds_of_isSpacing {segments : List Segment} (spacing : ∀ segment ∈ segments, segment.IsSpacing) :
    kinds segments = [] := by
  refine List.filterMap_eq_nil_iff.mpr ?_
  intro segment mem
  have isSpacing := spacing segment mem
  cases segment with
  | blank c => rfl
  | comment body => rfl
  | _ => exact isSpacing.elim

theorem allClosed_of_isSpacing {segments : List Segment} (spacing : ∀ segment ∈ segments, segment.IsSpacing) :
    AllClosed segments :=
  fun body mem => spacing (unclosed body) mem

end Segment

/-- What gives no token leaves nothing open and closes nothing, if it is no open string. -/
theorem leavesNothingOpen_append_iff {front behind : List Segment} (noString : Segment.AllClosed behind)
    (noToken : Segment.kinds behind = []) : LeavesNothingOpen (front ++ behind) ↔ LeavesNothingOpen front := by
  have kinds : Segment.kinds (front ++ behind) = Segment.kinds front := by
    rw [Segment.kinds_append, noToken, List.append_nil]
  constructor
  · rintro ⟨closed, balanced, last⟩
    rw [kinds] at balanced last
    exact ⟨(Segment.allClosed_append_iff.mp closed).1, balanced, last⟩
  · rintro ⟨closed, balanced, last⟩
    rw [← kinds] at balanced last
    exact ⟨Segment.allClosed_append_iff.mpr ⟨closed, noString⟩, balanced, last⟩

/-! ## Lines that decide nothing -/

theorem needsMore_append_of_isClosed {input line : String} (closed : Segment.IsClosed input.toList)
    (isTrivia : IsTrivia true line.toList) : needsMore (input ++ "\n" ++ line) = needsMore input := by
  have spacing : ∀ segment ∈ .blank '\n' :: Segment.sequence line.toList, segment.IsSpacing :=
    List.forall_mem_cons.mpr ⟨trivial, Segment.isSpacing_of_mem_sequence isTrivia⟩
  rw [Bool.eq_iff_iff, ← Bool.not_eq_false, ← Bool.not_eq_false, needsMore_eq_false_iff,
    needsMore_eq_false_iff, toList_append_newline, Segment.sequence_append_newline closed,
    leavesNothingOpen_append_iff (Segment.allClosed_of_isSpacing spacing) (Segment.kinds_of_isSpacing spacing)]

theorem isTrivia_of_isBlank {last : Bool} {text : List Char} (space : ∀ c ∈ text, isBlank c = true) :
    IsTrivia last text := by
  induction text with
  | nil => exact .ended
  | cons c text ih =>
    obtain ⟨blank, space⟩ := List.forall_mem_cons.mp space
    exact .blank (isBlank_iff.mp blank) (ih space)

theorem needsMore_append_of_isBlank {input line : String} (space : ∀ c ∈ line.toList, isBlank c = true) :
    needsMore (input ++ "\n" ++ line) = needsMore input := by
  by_cases closed : Segment.IsClosed input.toList
  · exact needsMore_append_of_isClosed closed (isTrivia_of_isBlank space)
  · have noQuote : '"' ∉ '\n' :: line.toList := by
      rintro (_ | ⟨_, mem⟩)
      cases space _ mem
    have isOpen := Segment.not_isClosed_append closed noQuote
    rw [← toList_append_newline] at isOpen
    rw [needsMore_of_not_isClosed isOpen, needsMore_of_not_isClosed closed]

/-- **White space and comments do not decide whether an input is open.** Comments are comments only where no
string is open. -/
theorem needsMore_append_trivia (input line : String) :
    ((∀ c ∈ line.toList, isBlank c = true) → needsMore (input ++ "\n" ++ line) = needsMore input) ∧
      ((scan input).hasOpenString = false → IsTrivia true line.toList →
        needsMore (input ++ "\n" ++ line) = needsMore input) := by
  refine ⟨needsMore_append_of_isBlank, ?_⟩
  intro closed isTrivia
  exact needsMore_append_of_isClosed (isClosed_of_hasOpenString closed) isTrivia

/-- Blank lines in a string, and comments that hold quotes, brackets and operators behind one that asks for an
operand. -/
theorem needsMore_append_trivia_operand :
    (∀ c ∈ " \r\n\t".toList, isBlank c = true) ∧
      needsMore ("print \"a" ++ "\n" ++ " \r\n\t") = needsMore "print \"a" ∧
      (scan "f(1) // (\n+").hasOpenString = false ∧ IsTrivia true "\t// \")(;\n//1".toList ∧
      needsMore ("f(1) // (\n+" ++ "\n" ++ "\t// \")(;\n//1") = needsMore "f(1) // (\n+" := by
  have space : ∀ c ∈ " \r\n\t".toList, isBlank c = true := forall_mem_of_all (by decide)
  have closed : (scan "f(1) // (\n+").hasOpenString = false := by decide +kernel
  have isTrivia : IsTrivia true ('\t' :: '/' :: '/' :: ([' ', '"', ')', '(', ';'] ++ '\n' :: ['/', '/', '1'])) :=
    .blank (by decide) (.comment (by decide) (.blank (by decide) (.lastComment rfl (by decide))))
  exact ⟨space, (needsMore_append_trivia _ _).1 space, closed, isTrivia,
    (needsMore_append_trivia _ _).2 closed isTrivia⟩

end LoxLexing
