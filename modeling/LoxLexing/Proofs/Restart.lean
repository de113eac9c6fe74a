import LoxLexing.Proofs.Shift

/-!
# Beginning anew inside a source

A scan carries nothing from one segment to the next but the position. So it can be broken off wherever a segment
ends, and begun anew on what is left.

**The law** (`scan_restarts`): at both ends of every token a source can be cut in two. A scan of what stands behind
the cut, shifted by what stands in front of it, gives the tokens that the scan of the whole source gives from there
on, and the diagnostics that it finds from there on. The others are those that a scan of the first part gives.

Segments in front of the cut see less than they did in the whole source. What a segment asks of the rest it asks of
the next characters, and if there are none it asks for nothing (`Segment.EndsBefore.of_append`); hence the segments
of both parts are the segments of the whole (`segmentsFrom_cut`).
-/

namespace LoxLexing

/-! ## Texts that end earlier -/

theorem Stops.of_append {p : Char → Bool} {rest behind : List Char} (stops : Stops p (rest ++ behind)) :
    Stops p rest := by
  cases rest with
  | nil => exact stops_nil p
  | cons c rest => exact stops_cons.mpr (stops_cons.mp stops)

/-- A segment that ends in front of a text ends in front of every beginning of it. -/
theorem Segment.EndsBefore.of_append {segment : Segment} {rest behind : List Char}
    (ends : segment.EndsBefore (rest ++ behind)) : segment.EndsBefore rest := by
  cases segment with
  | operator op => exact Stops.of_append ends
  | word text => exact Stops.of_append ends
  | comment body => exact Stops.of_append ends
  | number numeral =>
    obtain ⟨whole, fraction⟩ := numeral
    cases fraction with
    | some fraction => exact Stops.of_append ends
    | none =>
      obtain ⟨stops, noDigit⟩ := ends
      refine ⟨stops.of_append, ?_⟩
      intro digit tail point
      apply noDigit digit (tail ++ behind)
      rw [point]
      rfl
  | unclosed body => exact (List.append_eq_nil_iff.mp ends).1
  | _ => trivial

/-! ## Cuts -/

/-- The text that segments were read from. -/
def textOf (found : List Located) : List Char :=
  found.flatMap (·.segment.text)

theorem textOf_append (first second : List Located) : textOf (first ++ second) = textOf first ++ textOf second :=
  List.flatMap_append

theorem textOf_singleton (found : Located) : textOf [found] = found.segment.text :=
  List.flatMap_singleton _ _

theorem textOf_segmentsFrom (here : Position) (input : List Char) : textOf (segmentsFrom here input) = input := by
  rw [Segment.segmentsFrom_eq_locate, textOf, ← List.flatMap_map, Segment.map_segment_locate,
    Segment.flatMap_text_sequence]

/-- The first segment stands where the text begins. -/
theorem position_of_segmentsFrom {here : Position} {input : List Char} {found : Located} {others : List Located}
    (cut : segmentsFrom here input = found :: others) : found.position = here := by
  rw [Segment.segmentsFrom_eq_locate] at cut
  cases sequence : Segment.sequence input with
  | nil => rw [sequence] at cut; cases cut
  | cons segment segments => rw [sequence] at cut; cases cut; rfl

/-- Where the segments of a text are cut in two, each part of the text falls into its own segments. -/
theorem segmentsFrom_cut {here : Position} {input : List Char} {first second : List Located}
    (cut : segmentsFrom here input = first ++ second) :
    segmentsFrom here (textOf first) = first ∧
      segmentsFrom (here.after (textOf first)) (textOf second) = second := by
  induction input using Segment.next?_induction generalizing here first with
  | ended =>
    rw [segmentsFrom_nil] at cut
    obtain ⟨rfl, rfl⟩ := List.append_eq_nil_iff.mp cut.symm
    exact ⟨segmentsFrom_nil here, segmentsFrom_nil here⟩
  | @step segment rest reads wellFormed ends ih =>
    cases first with
    | nil =>
      rw [List.nil_append] at cut
      have whole : textOf second = segment.text ++ rest := cut ▸ textOf_segmentsFrom here _
      rw [whole]
      exact ⟨segmentsFrom_nil here, cut⟩
    | cons found first =>
      rw [segmentsFrom_of_next? reads, List.cons_append] at cut
      obtain ⟨rfl, others⟩ := List.cons.inj cut
      have whole : rest = textOf first ++ textOf second := by
        rw [← textOf_append, ← others, textOf_segmentsFrom]
      obtain ⟨before, after⟩ := ih others
      have reads' := Segment.next?_of_endsBefore wellFormed (whole ▸ ends).of_append
      have split : textOf (⟨here, segment⟩ :: first) = segment.text ++ textOf first := List.flatMap_cons
      rw [split, segmentsFrom_of_next? reads', before, Position.after_append]
      exact ⟨rfl, after⟩

/-! ## What a scan gives from an offset on -/

/-- The diagnostics that are found at an offset of a source or behind it. -/
def diagnosticsBehind (source : String) (offset : Nat) : List Diagnostic :=
  ((segments source).filter (offset ≤ ·.position.offset)).filterMap Located.diagnostic?

/-- Whether a scan can begin anew between two parts of a source, where these tokens are still to come. -/
structure RestartsBetween (source front rest : String) (tokens : List Token) : Prop where
  tokens : (scan rest).tokens.map (Token.shifted ⟨front.utf8ByteSize, newlines front.toList⟩) = tokens
  diagnostics : (scan rest).diagnostics.map (Diagnostic.shifted ⟨front.utf8ByteSize, newlines front.toList⟩)
    = diagnosticsBehind source front.utf8ByteSize
  /-- What is found behind the cut is found last. -/
  diagnostics_eq_append : (scan source).diagnostics
    = (scan front).diagnostics ++ diagnosticsBehind source front.utf8ByteSize

/-- Whether a scan can begin anew at an offset of a source. -/
def RestartsAt (source : String) (offset : Nat) (tokens : List Token) : Prop :=
  ∃ front rest, Span.slice? ⟨0, offset⟩ source = some front ∧
    Span.slice? ⟨offset, source.utf8ByteSize⟩ source = some rest ∧ RestartsBetween source front rest tokens

section

variable {source : String} {first second : List Located}

/-- What the second part gives by itself, shifted by the first, is what its segments give. -/
theorem filterMap_cut {α : Type} {give : Located → Option α} {shifted : Shift → α → α}
    (along : GoesAlong shifted give) (cut : segments source = first ++ second) :
    ((segmentsFrom .start (textOf second)).filterMap give).map (shifted (.behind (textOf first)))
      = second.filterMap give := by
  rw [← filterMap_segmentsFrom_after along, (segmentsFrom_cut cut).2]

/-- The segments of the second part are those that begin at the cut or behind it. -/
theorem diagnosticsBehind_cut (cut : segments source = first ++ second) :
    diagnosticsBehind source (utf8Length (textOf first)) = second.filterMap Located.diagnostic? := by
  obtain ⟨isFirst, isSecond⟩ := segmentsFrom_cut cut
  have before : first.filter (utf8Length (textOf first) ≤ ·.position.offset) = [] := by
    rw [List.filter_eq_nil_iff]
    intro found mem
    rw [← isFirst] at mem
    obtain ⟨front, rest, split, place, reads⟩ := next?_of_mem_segmentsFrom mem
    have room := utf8Length_pos (Segment.text_ne_nil_of_next? reads)
    rw [place, split, decide_eq_true_eq, utf8Length_append, utf8Length_append]
    simp only [Position.after, Position.start]
    omega
  have behind : second.filter (utf8Length (textOf first) ≤ ·.position.offset) = second := by
    rw [List.filter_eq_self]
    intro found mem
    rw [← isSecond] at mem
    obtain ⟨front, _, _, place, _⟩ := next?_of_mem_segmentsFrom mem
    rw [place, decide_eq_true_eq]
    simp only [Position.after, Position.start]
    omega
  rw [diagnosticsBehind, cut, List.filter_append, before, behind, List.nil_append]

/-- Where the segments of a source are cut in two, its scan can begin anew. -/
theorem restartsAt_of_cut (cut : segments source = first ++ second) :
    RestartsAt source (utf8Length (textOf first))
      (second.filterMap Located.token? ++ [.endOfInput (Position.start.after source.toList)]) := by
  have split : source.toList = textOf first ++ textOf second := by
    rw [← textOf_append, ← cut, segments, textOf_segmentsFrom]
  have sliceFront : Span.slice? ⟨0, utf8Length (textOf first)⟩ source = some (String.ofList (textOf first)) :=
    slice?_of_prefix split
  have sliceRest : Span.slice? ⟨utf8Length (textOf first), source.utf8ByteSize⟩ source
      = some (String.ofList (textOf second)) := by
    rw [size_eq_utf8Length, split, utf8Length_append]
    exact slice?_of_toList (by rw [List.append_nil, split])
  have size : (String.ofList (textOf first)).utf8ByteSize = utf8Length (textOf first) := utf8ByteSize_ofList _
  have shift : (⟨(String.ofList (textOf first)).utf8ByteSize, newlines (String.ofList (textOf first)).toList⟩ : Shift)
      = .behind (textOf first) := by
    rw [size, String.toList_ofList]
    rfl
  refine ⟨_, _, sliceFront, sliceRest, ?_⟩
  constructor
  case tokens =>
    rw [shift, scan_tokens, segments, String.toList_ofList, List.map_append, List.map_singleton,
      filterMap_cut goesAlong_token? cut, ← Token.endOfInput_shifted, split, Position.start_after_append]
  case diagnostics =>
    rw [shift, scan_diagnostics, segments, String.toList_ofList, filterMap_cut goesAlong_diagnostic? cut, size,
      diagnosticsBehind_cut cut]
  case diagnostics_eq_append =>
    rw [size, diagnosticsBehind_cut cut, scan_diagnostics, scan_diagnostics, cut, segments, String.toList_ofList,
      (segmentsFrom_cut cut).1, List.filterMap_append]

end

/-! ## The law -/

/-- A token that is not the end of the input is that of a segment, and behind it come the tokens of the segments
behind that one. -/
theorem exists_segments_of_tokens {source : String} {earlier later : List Token} {token : Token}
    (tokens : (scan source).tokens = earlier ++ token :: later) (notEnd : token.kind ≠ .endOfInput) :
    ∃ (first : List Located) (found : Located) (second : List Located), segments source = first ++ found :: second ∧
      found.token? = some token ∧
      later = second.filterMap Located.token? ++ [.endOfInput (Position.start.after source.toList)] := by
  rw [scan_tokens] at tokens
  obtain ⟨others, _, last⟩ | ⟨given, before, behind⟩ := List.append_eq_append_iff.mp tokens
  · have mem : token ∈ [Token.endOfInput (Position.start.after source.toList)] := by
      rw [last]
      exact List.mem_append_right _ List.mem_cons_self
    rw [List.mem_singleton.mp mem] at notEnd
    exact absurd rfl notEnd
  · cases given with
    | nil =>
      rw [(List.cons.inj behind).1] at notEnd
      exact absurd rfl notEnd
    | cons next given =>
      obtain ⟨rfl, rfl⟩ := List.cons.inj behind
      obtain ⟨front, rest, cut, _, rest'⟩ := List.filterMap_eq_append_iff.mp before
      obtain ⟨silent, found, second, rfl, _, isToken, rfl⟩ := List.filterMap_eq_cons_iff.mp rest'
      exact ⟨front ++ silent, found, second, by rw [cut, List.append_assoc], isToken, rfl⟩

/-- A token ends where the text of its segment does, that of the segments in front of it included. -/
theorem stop_of_segments {source : String} {first second : List Located} {found : Located} {token : Token}
    (cut : segments source = first ++ found :: second) (given : found.token? = some token) :
    token.span.stop = utf8Length (textOf (first ++ [found])) := by
  rw [(found.of_token? given).2.2, position_of_segmentsFrom (segmentsFrom_cut cut).2, textOf_append, utf8Length_append,
    textOf_singleton]
  exact congrArg (· + _) (Nat.zero_add _)

/-- Behind the segment of the last token no segment gives one. -/
theorem exists_segments_of_lastToken? {source : String} {last : Token} (isLast : (scan source).lastToken? = some last) :
    ∃ (first : List Located) (found : Located) (second : List Located), segments source = first ++ found :: second ∧
      found.token? = some last ∧ second.filterMap Located.token? = [] := by
  rw [Scan.lastToken?, scan_tokens, List.dropLast_concat] at isLast
  obtain ⟨earlier, given⟩ := List.getLast?_eq_some_iff.mp isLast
  obtain ⟨front, rest, cut, -, given⟩ := List.filterMap_eq_append_iff.mp given
  obtain ⟨silent, found, second, rfl, -, isToken, silent'⟩ := List.filterMap_eq_cons_iff.mp given
  exact ⟨front ++ silent, found, second, by rw [cut, List.append_assoc], isToken, silent'⟩

/-- **A scan can begin anew at both ends of every token.** The tokens that are still to come are given by a scan of
the rest, shifted by what stands in front of it, and so are the diagnostics that are found there; the diagnostics in
front of these are those of a scan that ends there. -/
theorem scan_restarts (source : String) {earlier later : List Token} {token : Token}
    (tokens : (scan source).tokens = earlier ++ token :: later) (notEnd : token.kind ≠ .endOfInput) :
    RestartsAt source token.span.start (token :: later) ∧ RestartsAt source token.span.stop later := by
  obtain ⟨first, found, second, cut, given, rfl⟩ := exists_segments_of_tokens tokens notEnd
  have cut' : segments source = (first ++ [found]) ++ second := by rw [cut, List.append_assoc]; rfl
  have place := position_of_segmentsFrom (segmentsFrom_cut cut).2
  have start : token.span.start = utf8Length (textOf first) := by
    rw [(found.of_token? given).2.2, place]
    exact Nat.zero_add _
  have stop : token.span.stop = utf8Length (textOf (first ++ [found])) := by
    rw [(found.of_token? given).2.2, place, textOf_append, utf8Length_append, textOf_singleton]
    exact congrArg (· + _) (Nat.zero_add _)
  rw [start, stop]
  refine ⟨?_, restartsAt_of_cut cut'⟩
  have restarts := restartsAt_of_cut cut
  rwa [List.filterMap_cons_some given] at restarts

/-- A point that is no part of a numeral, behind a string that goes over a line end and in front of one that is not
closed. -/
theorem scan_restarts_point :
    let source := "§ \"é\n\" 1.\n@ \""
    let one : Token := ⟨.number, "1", some (.number ⟨0x3FF0000000000000⟩), 2, ⟨9, 10⟩⟩
    let earlier : List Token := [⟨.string, "\"é\n\"", some (.text "é\n"), 1, ⟨3, 8⟩⟩]
    let later : List Token := [⟨.operator .dot, ".", none, 2, ⟨10, 11⟩⟩, .endOfInput ⟨15, 3⟩]
    (scan source).tokens = earlier ++ one :: later ∧ one.kind ≠ .endOfInput ∧
      RestartsAt source 9 (one :: later) ∧ RestartsAt source 10 later := by
  intro source one earlier later
  have tokens : (scan source).tokens = earlier ++ one :: later := by decide +kernel
  obtain ⟨start, stop⟩ := scan_restarts source tokens nofun
  exact ⟨tokens, nofun, start, stop⟩

end LoxLexing
