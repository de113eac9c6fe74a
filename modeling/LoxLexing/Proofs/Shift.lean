import LoxLexing.Proofs.Content
import LoxLexing.Proofs.Layout

/-!
# A text farther on

A text that stands behind another one is read as if it stood alone, only farther on. A **shift** says how
much farther, in bytes and in lines; it moves positions, and with them all that a scan says of places.

**The law** (`scan_append_newline`): if no string is open in the first of two texts, then what a scan of both
with a line feed between them gives is what it gives of the first, and then what it gives of the second,
shifted behind the line feed. Only the end of the input of the first is missing.

That a line feed cuts a text in two is `filterMap_segmentsFrom_newline`. Here it is added that the segments of
a text that begins farther on are its segments, shifted (`segmentsFrom_shifted`).
-/

namespace LoxLexing

/-! ## Shifts -/

/-- How much farther on something stands. -/
structure Shift where
  bytes : Nat
  lines : Nat
deriving DecidableEq, Repr

/-- The shift of what is put behind a text. -/
def Shift.behind (front : List Char) : Shift :=
  ⟨utf8Length front, newlines front⟩

def Position.shifted (shift : Shift) (here : Position) : Position :=
  ⟨here.offset + shift.bytes, here.line + shift.lines⟩

/-- A token farther on. What it is stays. -/
def Token.shifted (shift : Shift) (token : Token) : Token :=
  { token with
    line := token.line + shift.lines
    span := ⟨token.span.start + shift.bytes, token.span.stop + shift.bytes⟩ }

def Diagnostic.shifted (shift : Shift) (diagnostic : Diagnostic) : Diagnostic :=
  { diagnostic with line := diagnostic.line + shift.lines }

def Located.shifted (shift : Shift) (found : Located) : Located :=
  { found with position := found.position.shifted shift }

namespace Position

theorem after_shifted (shift : Shift) (here : Position) (text : List Char) :
    (here.shifted shift).after text = (here.after text).shifted shift := by
  simp only [after, shifted, Nat.add_right_comm]

theorem start_shifted_behind (front : List Char) :
    start.shifted (.behind front) = start.after front := rfl

theorem start_after_append (front text : List Char) :
    start.after (front ++ text) = (start.after text).shifted (.behind front) := by
  rw [after_append, ← start_shifted_behind, after_shifted]

end Position

theorem Token.endOfInput_shifted (shift : Shift) (here : Position) :
    endOfInput (here.shifted shift) = (endOfInput here).shifted shift := rfl

/-! ## Segments farther on -/

namespace Located

theorem finish_shifted (shift : Shift) (found : Located) :
    (found.shifted shift).finish = found.finish.shifted shift :=
  Position.after_shifted shift found.position found.segment.text

theorem token?_shifted (shift : Shift) (found : Located) :
    (found.shifted shift).token? = found.token?.map (Token.shifted shift) := by
  have toToken (kind : Kind) (literal : Option Literal) :
      (found.shifted shift).toToken kind literal = (found.toToken kind literal).shifted shift := by
    rw [Located.toToken, finish_shifted]
    rfl
  obtain ⟨here, segment⟩ := found
  cases segment with
  | operator op => exact congrArg some (toToken _ _)
  | word text => exact congrArg some (toToken _ _)
  | number numeral => exact congrArg some (toToken _ _)
  | quoted body => exact congrArg some (toToken _ _)
  | _ => rfl

theorem diagnostic?_shifted (shift : Shift) (found : Located) :
    (found.shifted shift).diagnostic? = found.diagnostic?.map (Diagnostic.shifted shift) := by
  have finish := finish_shifted shift found
  obtain ⟨here, segment⟩ := found
  cases segment with
  | unclosed body =>
    exact congrArg (fun there => some (Diagnostic.mk there.line .unterminatedString)) finish
  | _ => rfl

end Located

theorem Segment.locate_shifted (shift : Shift) (here : Position) (segments : List Segment) :
    locate (here.shifted shift) segments = (locate here segments).map (Located.shifted shift) := by
  induction segments generalizing here with
  | nil => rfl
  | cons segment segments ih =>
    rw [locate, locate, List.map_cons, Position.after_shifted, ih]
    rfl

/-- A text that begins farther on falls into the same segments, each farther on. -/
theorem segmentsFrom_shifted (shift : Shift) (here : Position) (text : List Char) :
    segmentsFrom (here.shifted shift) text = (segmentsFrom here text).map (Located.shifted shift) := by
  rw [Segment.segmentsFrom_eq_locate, Segment.segmentsFrom_eq_locate, Segment.locate_shifted]

/-- Whether what segments give goes along when they are shifted. -/
def GoesAlong {α : Type} (shifted : Shift → α → α) (give : Located → Option α) : Prop :=
  ∀ shift found, give (Located.shifted shift found) = (give found).map (shifted shift)

theorem goesAlong_token? : GoesAlong Token.shifted Located.token? :=
  Located.token?_shifted

theorem goesAlong_diagnostic? : GoesAlong Diagnostic.shifted Located.diagnostic? :=
  Located.diagnostic?_shifted

section

variable {α : Type} {give : Located → Option α} {shifted : Shift → α → α}

/-- What the segments of a text give behind another text is what they give alone, shifted. -/
theorem filterMap_segmentsFrom_after (along : GoesAlong shifted give) (front text : List Char) :
    (segmentsFrom (Position.start.after front) text).filterMap give
      = ((segmentsFrom .start text).filterMap give).map (shifted (.behind front)) := by
  rw [← Position.start_shifted_behind, segmentsFrom_shifted, List.filterMap_map, List.map_filterMap]
  congr 1
  funext found
  exact along _ found

theorem filterMap_segments_newline (silent : IsSilent give) (along : GoesAlong shifted give)
    {front : String} (closed : Segment.IsClosed front.toList) (behind : String) :
    (segments (front ++ "\n" ++ behind)).filterMap give
      = (segments front).filterMap give
        ++ ((segments behind).filterMap give).map
          (shifted (.behind (front.toList ++ ['\n']))) := by
  rw [segments, segments, segments, toList_append_newline, filterMap_segmentsFrom_newline silent closed,
    filterMap_segmentsFrom_after along]

end

/-! ## Two texts -/

/-- **A line feed puts two scans one after the other**, if no string is open in front of it. The second is
shifted by the first text and the line feed. -/
theorem scan_append_newline (front behind : String) (closed : (scan front).hasOpenString = false) :
    (scan (front ++ "\n" ++ behind)).tokens
        = (scan front).tokens.filter (·.kind != .endOfInput)
          ++ (scan behind).tokens.map
            (Token.shifted ⟨front.utf8ByteSize + 1, 1 + newlines front.toList⟩) ∧
      (scan (front ++ "\n" ++ behind)).diagnostics
        = (scan front).diagnostics
          ++ (scan behind).diagnostics.map
            (Diagnostic.shifted ⟨front.utf8ByteSize + 1, 1 + newlines front.toList⟩) := by
  have shift : (⟨front.utf8ByteSize + 1, 1 + newlines front.toList⟩ : Shift)
      = .behind (front.toList ++ ['\n']) := by
    rw [Shift.behind, utf8Length_append, newlines_append, size_eq_utf8Length, Nat.add_comm 1]
    rfl
  have noString := isClosed_of_hasOpenString closed
  have last : Position.start.after (front ++ "\n" ++ behind).toList
      = (Position.start.after behind.toList).shifted (.behind (front.toList ++ ['\n'])) := by
    rw [String.toList_append, String.toList_append]
    exact Position.start_after_append _ _
  rw [shift]
  refine ⟨?_, ?_⟩
  · rw [filter_tokens_scan, scan_tokens, scan_tokens,
      filterMap_segments_newline isSilent_token? goesAlong_token? noString, last,
      Token.endOfInput_shifted, List.append_assoc, List.map_append, List.map_singleton]
  · rw [scan_diagnostics, scan_diagnostics, scan_diagnostics,
      filterMap_segments_newline isSilent_diagnostic? goesAlong_diagnostic? noString]

/-- A point at the end of a text does not join a digit at the start of the next one, and a string behind
them goes on over a line end. -/
theorem scan_append_newline_point :
    (scan "€ = 1.").hasOpenString = false ∧
      (scan ("€ = 1." ++ "\n" ++ "5 \"a\nb\" @")).tokens
        = (scan "€ = 1.").tokens.filter (·.kind != .endOfInput)
          ++ (scan "5 \"a\nb\" @").tokens.map (Token.shifted ⟨9, 1⟩) ∧
      (scan ("€ = 1." ++ "\n" ++ "5 \"a\nb\" @")).diagnostics
        = (scan "€ = 1.").diagnostics
          ++ (scan "5 \"a\nb\" @").diagnostics.map (Diagnostic.shifted ⟨9, 1⟩) := by
  have closed : (scan "€ = 1.").hasOpenString = false := by decide +kernel
  exact ⟨closed, scan_append_newline _ _ closed⟩

end LoxLexing
