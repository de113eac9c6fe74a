import LoxLexing.Proofs.OpenInput
import LoxLexing.Proofs.Restart

/-!
# Trailing operators

A binary operator at the end of an input has no second operand yet, and an input that ends in one is to be taken as
unfinished. So it is with a comma.

**The law** (`needsMore_trailing`): where no string is open and no bracket awaited, the last token decides whether an
input asks for more, and it does so for commas and for binary operators, comparisons apart. White space and comments
behind the last token, whatever they hold, decide nothing.

Comparisons are binary operators too, and an input that ends in one is taken as finished (`not_needsMore_comparison`).

Text behind the last token is cut off by it. What the segments in front of it see of that text is one character at
most, and only a digit would matter there (`Segment.EndsBefore.append_of_stops`).
-/

namespace LoxLexing

/-! ## Binary operators -/

/-- Whether an operator compares its operands. -/
def Operator.compares : Operator → Bool
  | bangEqual | equalEqual | greater | greaterEqual | less | lessEqual => true
  | _ => false

namespace Kind

/-- Whether tokens of a kind compare their operands. -/
def compares : Kind → Bool
  | operator op => op.compares
  | _ => false

/-- Whether tokens of a kind are binary operators of Lox: those of arithmetic, assignment, logic and comparison. -/
def isBinary : Kind → Bool
  | operator .plus | operator .minus | operator .star | operator .slash => true
  | operator .equal => true
  | keyword .and | keyword .or => true
  | kind => kind.compares

/-- What asks for more is commas and binary operators, comparisons apart. -/
theorem asksForMore_iff (kind : Kind) :
    kind.asksForMore = true ↔ kind = operator .comma ∨ kind.isBinary = true ∧ kind.compares = false := by
  cases kind with
  | operator op => cases op <;> decide
  | keyword word => cases word <;> decide
  | _ => simp [asksForMore, isBinary, compares]

end Kind

/-! ## Behind a token -/

namespace Segment

variable {segment : Segment} {rest behind : List Char}

/-- A segment with something behind it asks nothing more of what comes then, but that it does not begin with a
digit. -/
theorem EndsBefore.append_of_stops (ends : segment.EndsBefore rest) (notEmpty : rest ≠ [])
    (stops : Stops Char.isDigit behind) : segment.EndsBefore (rest ++ behind) := by
  obtain ⟨c, tail, rfl⟩ := List.exists_cons_of_ne_nil notEmpty
  cases tail with
  | cons d tail => exact ends.congr rfl fun _ => rfl
  | nil =>
    cases segment with
    | number numeral =>
      obtain ⟨whole, fraction⟩ := numeral
      cases fraction with
      | some fraction => exact Stops.congr ends rfl
      | none =>
        refine ⟨Stops.congr ends.1 rfl, ?_⟩
        rintro digit others point
        obtain ⟨-, rfl⟩ := List.cons.inj point
        exact stops_cons.mp stops
    | operator op => exact Stops.congr ends rfl
    | word text => exact Stops.congr ends rfl
    | comment body => exact Stops.congr ends rfl
    | unclosed body => exact absurd ends notEmpty
    | _ => trivial

/-- Behind its last segment a text may go on with anything that does not go on with that segment, nor with a
number. -/
theorem sequence_append_of_endsBefore {input : List Char} {front : List Segment}
    (split : sequence input = front ++ [segment]) (ends : segment.EndsBefore behind)
    (stops : Stops Char.isDigit behind) : sequence (input ++ behind) = sequence input ++ sequence behind := by
  induction input using next?_induction generalizing front with
  | ended => rw [sequence_nil, List.nil_append, List.nil_append]
  | @step first rest reads wellFormed ends' ih =>
    rw [sequence_of_next? reads] at split ⊢
    cases front with
    | nil =>
      obtain ⟨rfl, noMore⟩ := List.cons.inj split
      obtain rfl : rest = [] := by rw [← flatMap_text_sequence rest, noMore]; rfl
      rw [List.append_nil, sequence_of_endsBefore wellFormed ends, noMore]
      rfl
    | cons other front =>
      obtain ⟨-, split⟩ := List.cons.inj split
      have notEmpty : rest ≠ [] := by
        rintro rfl
        rw [sequence_nil] at split
        exact List.append_ne_nil_of_right_ne_nil front (List.cons_ne_nil segment []) split.symm
      rw [List.append_assoc, sequence_of_endsBefore wellFormed (ends'.append_of_stops notEmpty stops), ih split,
        List.cons_append]

end Segment

section

variable {found : Located} {token : Token}

/-- Of all that gives a token only a slash goes on with a slash. -/
theorem endsBefore_slash_of_token? (given : found.token? = some token) (notSlash : token.kind ≠ .operator .slash)
    (behind : List Char) : found.segment.EndsBefore ('/' :: behind) := by
  obtain ⟨here, segment⟩ := found
  cases segment with
  | operator op =>
    cases given
    refine stops_cons.mpr ?_
    cases op with
    | slash => exact absurd rfl notSlash
    | _ => decide
  | word text => exact stops_cons.mpr rfl
  | number numeral =>
    obtain ⟨whole, fraction⟩ := numeral
    cases fraction with
    | some fraction => exact stops_cons.mpr rfl
    | none => exact ⟨stops_cons.mpr rfl, fun _ _ point => by cases (List.cons.inj point).1⟩
  | quoted body => trivial
  | _ => cases given

/-- White space and comments end a token, but a slash takes the first one of a comment that stands right behind
it. -/
theorem endsBefore_trivia_of_token? {last : Bool} {trivia : List Char} (given : found.token? = some token)
    (isTrivia : IsTrivia last trivia) (apart : token.kind = .operator .slash → trivia.head? ≠ some '/') :
    found.segment.EndsBefore trivia := by
  cases isTrivia with
  | ended => exact Segment.endsBefore_nil _
  | blank blank _ => exact Segment.endsBefore_blank_of_token? given (isBlank_iff.mpr blank) _
  | comment _ _ => exact endsBefore_slash_of_token? given (fun slash => apart slash rfl) _
  | lastComment _ _ => exact endsBefore_slash_of_token? given (fun slash => apart slash rfl) _

theorem stops_isDigit_of_isTrivia {last : Bool} {trivia : List Char} (isTrivia : IsTrivia last trivia) :
    Stops Char.isDigit trivia := by
  cases isTrivia with
  | ended => exact stops_nil _
  | blank blank _ => exact stops_cons.mpr (Segment.isDigit_eq_false_of_isBlank (isBlank_iff.mpr blank))
  | comment _ _ => exact stops_cons.mpr rfl
  | lastComment _ _ => exact stops_cons.mpr rfl

end

/-! ## The law -/

/-- Whether any white space and comments may stand behind a token of an input instead of what stands there, and the
input asks for more just if it did before. -/
def Token.CutsOff (input : String) (token : Token) : Prop :=
  ∃ front, Span.slice? ⟨0, token.span.stop⟩ input = some front ∧
    ∀ trivia : String, IsTrivia true trivia.toList →
      (token.kind = .operator .slash → trivia.toList.head? ≠ some '/') → needsMore (front ++ trivia) = needsMore input

/-- Whether the last token of an input decides if it asks for more. -/
structure DecidedByLastToken (input : String) : Prop where
  asks : needsMore input = true ↔ ∃ last, (scan input).lastToken? = some last ∧
    (last.kind = .operator .comma ∨ last.kind.isBinary = true ∧ last.kind.compares = false)
  cutsOff : ∀ last, (scan input).lastToken? = some last → last.CutsOff input

theorem cutsOff_of_lastToken? {input : String} {last : Token} (closed : (scan input).hasOpenString = false)
    (isLast : (scan input).lastToken? = some last) : last.CutsOff input := by
  obtain ⟨first, found, second, cut, given, silent⟩ := exists_segments_of_lastToken? isLast
  have stop := stop_of_segments cut given
  have cut' : segments input = (first ++ [found]) ++ second := by rw [cut, List.append_assoc]; rfl
  have split : input.toList = textOf (first ++ [found]) ++ textOf second := by
    rw [← textOf_append, ← cut', segments, textOf_segmentsFrom]
  have frontSequence : Segment.sequence (textOf (first ++ [found])) = first.map (·.segment) ++ [found.segment] := by
    rw [Segment.sequence, (segmentsFrom_cut cut').1, List.map_append]
    rfl
  have inputSequence : Segment.sequence input.toList
      = Segment.sequence (textOf (first ++ [found])) ++ second.map (·.segment) := by
    rw [frontSequence, Segment.sequence, ← segments, cut', List.map_append, List.map_append]
    rfl
  have noToken : Segment.kinds (second.map (·.segment)) = [] := by
    rw [kinds_map_segment, silent, List.map_nil]
  have noString : Segment.AllClosed (second.map (·.segment)) := by
    have allClosed : Segment.AllClosed (Segment.sequence input.toList) := isClosed_of_hasOpenString closed
    rw [inputSequence] at allClosed
    exact (Segment.allClosed_append_iff.mp allClosed).2
  refine ⟨String.ofList (textOf (first ++ [found])), ?_, ?_⟩
  · rw [stop]
    exact slice?_of_prefix split
  · intro trivia isTrivia apart
    have ends := endsBefore_trivia_of_token? given isTrivia apart
    have spacing := Segment.isSpacing_of_mem_sequence isTrivia
    have appended := Segment.sequence_append_of_endsBefore frontSequence ends (stops_isDigit_of_isTrivia isTrivia)
    rw [Bool.eq_iff_iff, ← Bool.not_eq_false, ← Bool.not_eq_false, needsMore_eq_false_iff, needsMore_eq_false_iff,
      String.toList_append, String.toList_ofList, appended, inputSequence,
      leavesNothingOpen_append_iff (Segment.allClosed_of_isSpacing spacing) (Segment.kinds_of_isSpacing spacing),
      leavesNothingOpen_append_iff noString noToken]

/-- **Commas and binary operators at its end keep an input open, comparisons apart**, if no string and no bracket does.
White space and comments behind them decide nothing. -/
theorem needsMore_trailing {input : String} (closed : (scan input).hasOpenString = false)
    (balanced : isBalanced (scan input).tokens = true) : DecidedByLastToken input := by
  constructor
  case asks =>
    rw [needsMore, Scan.isOpen, closed, balanced, Bool.not_true, Bool.or_false, Bool.false_or, Option.any_eq_true]
    exact exists_congr fun last => and_congr_right fun _ => last.kind.asksForMore_iff
  case cutsOff =>
    intro last isLast
    exact cutsOff_of_lastToken? closed isLast

/-- A slash in front of a comment that holds another operator, behind a string and a bracket that closes nothing. -/
theorem needsMore_trailing_slash :
    (scan "(\"a(\") \x7d / // +1\n@").hasOpenString = false ∧
      isBalanced (scan "(\"a(\") \x7d / // +1\n@").tokens = true ∧
      needsMore "(\"a(\") \x7d / // +1\n@" = true ∧ DecidedByLastToken "(\"a(\") \x7d / // +1\n@" := by
  have closed : (scan "(\"a(\") \x7d / // +1\n@").hasOpenString = false := by decide +kernel
  have balanced : isBalanced (scan "(\"a(\") \x7d / // +1\n@").tokens = true := by decide +kernel
  have decided := needsMore_trailing closed balanced
  have isLast : (scan "(\"a(\") \x7d / // +1\n@").lastToken? = some ⟨.operator .slash, "/", none, 1, ⟨9, 10⟩⟩ := by
    decide +kernel
  exact ⟨closed, balanced, decided.asks.mpr ⟨_, isLast, .inr ⟨rfl, rfl⟩⟩, decided⟩

/-- An input that ends in a comparison is taken as finished. -/
theorem not_needsMore_comparison :
    ¬ ∀ input, (scan input).hasOpenString = false → isBalanced (scan input).tokens = true →
      (needsMore input = true ↔ ∃ last, (scan input).lastToken? = some last ∧
        (last.kind = .operator .comma ∨ last.kind.isBinary = true)) := by
  intro promised
  have closed : (scan "a ==").hasOpenString = false := by decide +kernel
  have balanced : isBalanced (scan "a ==").tokens = true := by decide +kernel
  have isLast : (scan "a ==").lastToken? = some ⟨.operator .equalEqual, "==", none, 1, ⟨2, 4⟩⟩ := by decide +kernel
  have finished : needsMore "a ==" = false := by decide +kernel
  have asks := (promised _ closed balanced).mpr ⟨_, isLast, .inr rfl⟩
  exact absurd (finished.symm.trans asks) Bool.false_ne_true

end LoxLexing
