import LoxLexing.Proofs.Layout

/-!
# The lines of tokens

A token carries a line beside its span, and so it says twice where it stands. What the line ought to be can
be read off the source: one more than the number of line ends in front of the token's first byte
(`lineAt?`).

**The law** (`line_of_token`): every token is on the line on which its span begins, the end of the input is
on the last line of the source, and no token is above the line on which an earlier one ends. So a string
that goes over several lines is on the line of its opening quote, and what follows it is on the line of its
closing one or below.

A scan counts line ends while it walks, and comes past some of them inside strings and past the others
between segments. Here these need not be told apart, for a segment stands where the text in front of it
ends, in bytes and in lines alike (`next?_of_mem_segmentsFrom`).
-/

namespace LoxLexing

/-! ## Lines by offsets -/

/-- The line of a source at an offset, if a character begins or the source ends there. -/
def lineAt? (source : String) (offset : Nat) : Option Nat :=
  (Span.slice? ⟨0, offset⟩ source).map fun before => 1 + newlines before.toList

/-- Where reading a part of a source from its start leads, the line is that of the offset. -/
theorem lineAt?_after {source : String} {before after : List Char}
    (split : source.toList = before ++ after) :
    lineAt? source (Position.start.after before).offset
      = some (Position.start.after before).line := by
  have split' : source.toList = [] ++ (before ++ after) := split
  have slice := slice?_of_toList split'
  rw [utf8Length_nil] at slice
  rw [lineAt?, Position.after, Position.start, slice, Option.map_some, String.toList_ofList]

/-! ## Segments at their places -/

theorem Position.line_le_after (here : Position) (text : List Char) :
    here.line ≤ (here.after text).line :=
  Nat.le_add_right _ _

/-- No segment goes below the last line of the text. -/
theorem finish_line_le_of_mem_segmentsFrom {here : Position} {input : List Char} {found : Located}
    (mem : found ∈ segmentsFrom here input) : found.finish.line ≤ (here.after input).line := by
  obtain ⟨before, after, rfl, place, _⟩ := next?_of_mem_segmentsFrom mem
  rw [Position.after_append, Position.after_append, ← place]
  exact found.finish.line_le_after after

/-- A segment begins where an earlier one ends and some more was read. -/
theorem pairwise_segmentsFrom (here : Position) (input : List Char) :
    (segmentsFrom here input).Pairwise fun earlier later =>
      ∃ between, later.position = earlier.finish.after between := by
  induction input using Segment.next?_induction generalizing here with
  | ended =>
    rw [segmentsFrom_nil]
    exact .nil
  | @step segment rest reads _ _ ih =>
    rw [segmentsFrom_of_next? reads]
    refine .cons ?_ (ih _)
    intro later mem
    obtain ⟨before, _, _, place, _⟩ := next?_of_mem_segmentsFrom mem
    exact ⟨before, place⟩

/-- A segment begins on the line on which an earlier one ends, or below. -/
theorem pairwise_line_segmentsFrom (here : Position) (input : List Char) :
    (segmentsFrom here input).Pairwise fun earlier later =>
      earlier.finish.line ≤ later.position.line := by
  refine (pairwise_segmentsFrom here input).imp ?_
  rintro earlier later ⟨between, place⟩
  rw [place]
  exact Position.line_le_after _ between

/-! ## What a token takes from its segment -/

namespace Located

variable {found : Located} {token : Token}

theorem line_of_token? (given : found.token? = some token) : token.line = found.position.line := by
  obtain ⟨here, segment⟩ := found
  cases segment with
  | operator op => cases given; rfl
  | word text => cases given; rfl
  | number numeral => cases given; rfl
  | quoted body => cases given; rfl
  | _ => cases given

/-- The line ends in its lexeme lead a token to the line on which its segment ends. -/
theorem line_add_newlines_of_token? (given : found.token? = some token) :
    token.line + newlines token.lexeme.toList = found.finish.line := by
  rw [line_of_token? given, (of_token? given).2.1, String.toList_ofList]
  rfl

end Located

/-! ## The law -/

theorem lineAt?_of_mem_tokens {source : String} {token : Token}
    (mem : token ∈ (scan source).tokens) :
    lineAt? source token.span.start = some token.line := by
  rcases mem_scan_tokens.mp mem with ⟨found, among, given⟩ | rfl
  · obtain ⟨before, after, split, place, _⟩ := next?_of_mem_segmentsFrom among
    rw [(found.of_token? given).2.2, found.line_of_token? given, place]
    exact lineAt?_after split
  · exact lineAt?_after (List.append_nil _).symm

theorem line_of_endOfInput {source : String} {token : Token} (mem : token ∈ (scan source).tokens)
    (last : token.kind = .endOfInput) : token.line = 1 + newlines source.toList := by
  rcases mem_scan_tokens.mp mem with ⟨found, _, given⟩ | rfl
  · exact absurd last (found.of_token? given).1
  · rfl

theorem pairwise_line_tokens (source : String) :
    (scan source).tokens.Pairwise fun earlier later =>
      earlier.line + newlines earlier.lexeme.toList ≤ later.line := by
  rw [scan_tokens, List.pairwise_append]
  refine ⟨?_, List.pairwise_singleton _ _, ?_⟩
  · rw [List.pairwise_filterMap]
    refine (pairwise_line_segmentsFrom .start source.toList).imp ?_
    intro first second ordered token given token' given'
    rw [first.line_add_newlines_of_token? given, second.line_of_token? given']
    exact ordered
  · intro token mem last isLast
    obtain rfl := List.mem_singleton.mp isLast
    obtain ⟨found, among, given⟩ := List.mem_filterMap.mp mem
    rw [found.line_add_newlines_of_token? given]
    exact finish_line_le_of_mem_segmentsFrom among

/-- **A token is on the line on which its span begins.** The end of the input is on the last line of the
source, and no token is above an earlier one, nor above the line on which an earlier one ends. -/
theorem line_of_token (source : String) :
    (∀ token ∈ (scan source).tokens, lineAt? source token.span.start = some token.line) ∧
      (∀ token ∈ (scan source).tokens, token.kind = .endOfInput →
        token.line = 1 + newlines source.toList) ∧
      ((scan source).tokens.Pairwise fun earlier later => earlier.line ≤ later.line) ∧
      (scan source).tokens.Pairwise fun earlier later =>
        earlier.line + newlines earlier.lexeme.toList ≤ later.line := by
  have ordered := pairwise_line_tokens source
  refine ⟨?_, ?_, ?_, ordered⟩
  · intro token mem
    exact lineAt?_of_mem_tokens mem
  · intro token mem last
    exact line_of_endOfInput mem last
  · refine ordered.imp ?_
    intro earlier later below
    exact Nat.le_trans (Nat.le_add_right _ _) below

end LoxLexing
