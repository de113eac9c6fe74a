import LoxLexing.Proofs.Content
import LoxLexing.Report

/-!
# Reading a listing back

A plain listing escapes nothing. A string is shown as it is, twice, with its line ends and with whatever in it
looks like a line of its own; so a line of text need not be the line of a token.

**The law** (`plain_listing_decodes`): a plain listing says all the same what the tokens are. Two sources with
one listing have the same contents, and no listing goes on where another one ends.

A line is read from the left (`Content.eq_of_line_append`). The name of the kind ends at the first space. Then
comes the lexeme in front of a space, and a scan reads it there as the segment that it is, whatever follows;
so two lexemes in front of spaces that begin alike are one. The lexeme decides the value, and with it where the
line ends. The end of the input has a line of its own, and it is the last.
-/

namespace LoxLexing

/-! ## Lines -/

namespace Content

/-- The characters of the line that shows a content, with the line end. -/
def line (content : Content) : List Char :=
  content.kind.name.toList ++ ' ' :: (content.lexeme.toList ++ ' ' ::
    ((content.literal.elim "" Literal.display).toList ++ ['\n']))

/-- Whether a content is that of a segment. -/
def IsGiven (content : Content) : Prop :=
  ∃ found : Located, found.segment.IsWellFormed ∧ found.content? = some content

end Content

theorem Token.toList_listed (token : Token) :
    (token.listed .plain ++ "\n").toList = token.content.line := by
  simp [listed, display, literalText, content, Content.line]

theorem toList_listing (tokens : List Token) :
    (listing .plain tokens).toList = (tokens.map Token.content).flatMap Content.line := by
  induction tokens with
  | nil => rfl
  | cons token tokens ih =>
    have first : listing .plain (token :: tokens)
        = token.listed .plain ++ "\n" ++ listing .plain tokens := by
      simp [listing, String.join_cons]
    rw [first, String.toList_append, token.toList_listed, ih, List.map_cons, List.flatMap_cons]

/-! ## Reading a line -/

theorem Kind.space_notMem_name (kind : Kind) : ' ' ∉ kind.name.toList := by
  have apart : ∀ kind ∈ all, ' ' ∉ kind.name.toList := by decide
  exact apart kind kind.mem_all

/-- What has no space in it ends at the first space. -/
theorem append_space_inj {left right l r : List Char} (leftWord : ' ' ∉ left)
    (rightWord : ' ' ∉ right) (same : left ++ ' ' :: l = right ++ ' ' :: r) :
    left = right ∧ l = r := by
  have stops (rest : List Char) : Stops (· != ' ') (' ' :: rest) := by simp
  have taken := congrArg (List.takeWhile (· != ' ')) same
  rw [takeWhile_append_of_stops (forall_mem_bne_iff.mpr leftWord) (stops l),
    takeWhile_append_of_stops (forall_mem_bne_iff.mpr rightWord) (stops r)] at taken
  subst taken
  exact ⟨rfl, (List.cons.inj (List.append_cancel_left same)).2⟩

namespace Content

variable {left right : Content} {l r : List Char}

theorem line_append (content : Content) (behind : List Char) :
    content.line ++ behind
      = content.kind.name.toList ++ ' ' :: (content.lexeme.toList ++ ' ' ::
        ((content.literal.elim "" Literal.display).toList ++ '\n' :: behind)) := by
  simp [line]

/-- What is given by a segment has a lexeme that is read as this segment in front of a space, and it is not
the end of the input. -/
theorem IsGiven.reads {content : Content} (given : content.IsGiven) :
    content.kind ≠ .endOfInput ∧ ∃ segment : Segment,
      Located.content? ⟨.start, segment⟩ = some content ∧
        ∀ behind, Segment.next? (content.lexeme.toList ++ ' ' :: behind)
          = some (segment, ' ' :: behind) := by
  obtain ⟨found, wellFormed, given⟩ := given
  obtain ⟨token, given', rfl⟩ := Option.map_eq_some_iff.mp given
  obtain ⟨notEnd, lexeme, _⟩ := found.of_token? given'
  refine ⟨notEnd, found.segment, ?_, ?_⟩
  · rw [← given]
    exact isPlaceless_content? _ _ _
  · intro behind
    have ends := Segment.endsBefore_blank_of_token? given' (c := ' ') rfl behind
    show Segment.next? (token.lexeme.toList ++ ' ' :: behind) = _
    rw [lexeme, String.toList_ofList]
    exact Segment.next?_of_endsBefore wellFormed ends

/-- Lines that begin alike are of one kind. -/
theorem kind_eq_of_line_append (same : left.line ++ l = right.line ++ r) :
    left.kind = right.kind ∧
      left.lexeme.toList ++ ' ' :: ((left.literal.elim "" Literal.display).toList ++ '\n' :: l)
        = right.lexeme.toList ++ ' ' ::
          ((right.literal.elim "" Literal.display).toList ++ '\n' :: r) := by
  rw [line_append, line_append] at same
  obtain ⟨name, rest⟩ := append_space_inj left.kind.space_notMem_name right.kind.space_notMem_name same
  exact ⟨Kind.name_injective (String.toList_inj.mp name), rest⟩

/-- **Lines that begin alike are one line**, and the texts behind them are the same too. -/
theorem eq_of_line_append (isLeft : left.IsGiven) (isRight : right.IsGiven)
    (same : left.line ++ l = right.line ++ r) : left = right ∧ l = r := by
  obtain ⟨_, rest⟩ := kind_eq_of_line_append same
  obtain ⟨_, segment, given, reads⟩ := isLeft.reads
  obtain ⟨_, segment', given', reads'⟩ := isRight.reads
  have read := reads ((left.literal.elim "" Literal.display).toList ++ '\n' :: l)
  rw [rest, reads'] at read
  obtain ⟨rfl, _⟩ := Prod.mk.inj (Option.some.inj read)
  obtain rfl : left = right := Option.some.inj (given.symm.trans given')
  exact ⟨rfl, List.append_cancel_left same⟩

end Content

/-! ## Reading a listing -/

namespace Content

/-- The lines of contents, closed by that of the end of the input. -/
def shown (contents : List Content) : List Char :=
  (contents ++ [endOfInput]).flatMap line

theorem shown_nil_append (behind : List Char) : shown [] ++ behind = endOfInput.line ++ behind := by
  simp [shown]

theorem shown_cons_append (content : Content) (contents : List Content) (behind : List Char) :
    shown (content :: contents) ++ behind = content.line ++ (shown contents ++ behind) := by
  simp [shown]

/-- **Contents can be read off their lines**, whatever follows. -/
theorem eq_of_shown_append {left right : List Content} {l r : List Char}
    (isLeft : ∀ content ∈ left, content.IsGiven) (isRight : ∀ content ∈ right, content.IsGiven)
    (same : shown left ++ l = shown right ++ r) : left = right := by
  induction left generalizing right with
  | nil =>
    cases right with
    | nil => rfl
    | cons content right =>
      -- The end of the input stands on the left and something else on the right.
      rw [shown_nil_append, shown_cons_append] at same
      have notEnd := (isRight content List.mem_cons_self).reads.1
      exact absurd (kind_eq_of_line_append same).1.symm notEnd
  | cons content left ih =>
    obtain ⟨isContent, isLeft⟩ := List.forall_mem_cons.mp isLeft
    cases right with
    | nil =>
      rw [shown_nil_append, shown_cons_append] at same
      exact absurd (kind_eq_of_line_append same).1 isContent.reads.1
    | cons content' right =>
      obtain ⟨isContent', others⟩ := List.forall_mem_cons.mp isRight
      rw [shown_cons_append, shown_cons_append] at same
      obtain ⟨rfl, rest⟩ := eq_of_line_append isContent isContent' same
      rw [ih isLeft others rest]

end Content

/-- The contents that a source is scanned into, but for the end of the input, are given by segments. -/
theorem isGiven_of_mem_contents {source : String} {content : Content}
    (mem : content ∈ (segments source).filterMap Located.content?) : content.IsGiven := by
  obtain ⟨found, among, given⟩ := List.mem_filterMap.mp mem
  exact ⟨found, isWellFormed_of_mem_segmentsFrom among, given⟩

theorem toList_listing_scan (source : String) :
    (listing .plain (scan source).tokens).toList
      = Content.shown ((segments source).filterMap Located.content?) := by
  rw [toList_listing, map_content_tokens, Content.shown]

/-- Two listings that can be continued to one text show the same contents. -/
theorem content_eq_of_listing_append {first second : String} {l r : List Char}
    (same : (listing .plain (scan first).tokens).toList ++ l
      = (listing .plain (scan second).tokens).toList ++ r) :
    (scan first).tokens.map Token.content = (scan second).tokens.map Token.content := by
  rw [toList_listing_scan, toList_listing_scan] at same
  have contents := Content.eq_of_shown_append (fun _ => isGiven_of_mem_contents)
    (fun _ => isGiven_of_mem_contents) same
  rw [map_content_tokens, map_content_tokens, contents]

theorem listing_eq_of_content_eq {left right : List Token}
    (same : left.map Token.content = right.map Token.content) :
    listing .plain left = listing .plain right := by
  rw [← String.toList_inj, toList_listing, toList_listing, same]

/-- **A plain listing can be read back.** It says what the tokens are, as much as the tokens themselves say it,
and where it begins another listing it is the whole of it. -/
theorem plain_listing_decodes (first second : String) :
    (listing .plain (scan first).tokens = listing .plain (scan second).tokens ↔
        (scan first).tokens.map Token.content = (scan second).tokens.map Token.content) ∧
      ((listing .plain (scan first).tokens).toList <+: (listing .plain (scan second).tokens).toList ↔
        listing .plain (scan first).tokens = listing .plain (scan second).tokens) := by
  refine ⟨⟨?_, listing_eq_of_content_eq⟩, ⟨?_, ?_⟩⟩
  · intro same
    exact content_eq_of_listing_append (congrArg (·.toList ++ []) same)
  · rintro ⟨behind, goesOn⟩
    rw [← List.append_nil (listing .plain (scan second).tokens).toList] at goesOn
    exact listing_eq_of_content_eq (content_eq_of_listing_append goesOn)
  · intro same
    exact ⟨[], by rw [List.append_nil, same]⟩

/-- A string can show what looks like the lines of tokens. -/
example : listing .plain (scan "\"\nEOF  \n\"").tokens = "STRING \"\nEOF  \n\" \nEOF  \n\nEOF  \n" := by
  decide +kernel

end LoxLexing
