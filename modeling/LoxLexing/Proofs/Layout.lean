import LoxLexing.Proofs.Sequence
import LoxLexing.Prompt.Highlight

/-!
# The layout of a source

The tokens of a source lie in it one behind the other, with **gaps** between them. A span says by bytes
where a token lies, and here it is read as what it promises: a slice of the source between two character
boundaries (`Span.slice?`).

**The law** (`layout_of_scan`): every token's span slices its lexeme out of the source, spans are in order
and do not overlap, all but the last token take some room, and the last one is the end of the input, at
the very end. Hence gaps and lexemes, one after the other, are the source; and where nothing is wrong, the
gaps hold white space and comments only (`IsTrivia`).

The proof follows the gaps as `spacedTokens` gathers them. `LaidOut` says of a list of spaced tokens that
it fills a text from a given offset on; it holds of every rest of a source (`laidOut_spacedFrom`), and all
that is said of spans is read off it.
-/

namespace LoxLexing

/-! ## Slices -/

/-- What a span cuts out of a source, if both its ends are character boundaries. -/
def Span.slice? (span : Span) (source : String) : Option String :=
  if h : String.Pos.Raw.IsValid source ⟨span.start⟩ ∧ String.Pos.Raw.IsValid source ⟨span.stop⟩ ∧
      span.start ≤ span.stop then
    some (String.extract (⟨⟨span.start⟩, h.1⟩ : source.Pos) ⟨⟨span.stop⟩, h.2.1⟩)
  else none

theorem utf8ByteSize_ofList (text : List Char) :
    (String.ofList text).utf8ByteSize = utf8Length text := by
  induction text with
  | nil => rfl
  | cons c rest ih =>
    have split : String.ofList (c :: rest) = String.singleton c ++ String.ofList rest := by
      rw [String.singleton_eq_ofList, ← String.ofList_append]
      rfl
    rw [split, String.utf8ByteSize_append, String.utf8ByteSize_singleton, ih, utf8Length_cons]

theorem utf8Length_pos {text : List Char} (notEmpty : text ≠ []) : 0 < utf8Length text := by
  obtain ⟨c, rest, rfl⟩ := List.exists_cons_of_ne_nil notEmpty
  rw [utf8Length_cons]
  exact Nat.add_pos_left c.utf8Size_pos _

theorem isValid_of_toList {source : String} {before after : List Char}
    (split : source.toList = before ++ after) :
    String.Pos.Raw.IsValid source ⟨utf8Length before⟩ := by
  refine String.Pos.Raw.isValid_iff_exists_append.mpr
    ⟨String.ofList before, String.ofList after, ?_, ?_⟩
  · rw [← String.ofList_append, ← split, String.ofList_toList]
  · rw [← utf8ByteSize_ofList]
    rfl

/-- A span that begins and ends where a part of the source does cuts out that part. -/
theorem slice?_of_toList {source : String} {before text after : List Char}
    (split : source.toList = before ++ (text ++ after)) :
    Span.slice? ⟨utf8Length before, utf8Length before + utf8Length text⟩ source
      = some (String.ofList text) := by
  have start := isValid_of_toList split
  have stop : String.Pos.Raw.IsValid source ⟨utf8Length before + utf8Length text⟩ := by
    rw [← utf8Length_append]
    exact isValid_of_toList (by rw [split, List.append_assoc])
  have bytes : source.toByteArray
      = (String.ofList before).toByteArray
        ++ ((String.ofList text).toByteArray ++ (String.ofList after).toByteArray) := by
    rw [← String.toByteArray_append, ← String.toByteArray_append, ← String.ofList_append,
      ← String.ofList_append, ← split, String.ofList_toList]
  have sizeBefore : (String.ofList before).toByteArray.size = utf8Length before := by
    rw [String.size_toByteArray, utf8ByteSize_ofList]
  have sizeText : (String.ofList text).toByteArray.size = utf8Length text := by
    rw [String.size_toByteArray, utf8ByteSize_ofList]
  have cut : source.toByteArray.extract (utf8Length before) (utf8Length before + utf8Length text)
      = (String.ofList text).toByteArray := by
    rw [bytes]
    refine Eq.trans (ByteArray.extract_append_size_add' (i := 0) sizeBefore.symm) ?_
    exact ByteArray.extract_append_eq_left sizeText.symm
  rw [Span.slice?, dif_pos ⟨start, stop, Nat.le_add_right _ _⟩, Option.some.injEq,
    ← String.toByteArray_inj, String.toByteArray_extract]
  exact cut

/-- A span from the start of a source cuts out a beginning of it. -/
theorem slice?_of_prefix {source : String} {text after : List Char} (split : source.toList = text ++ after) :
    Span.slice? ⟨0, utf8Length text⟩ source = some (String.ofList text) := by
  have cut := @slice?_of_toList source [] text after split
  rwa [utf8Length_nil, Nat.zero_add] at cut

/-! ## Tokens with the gaps before them -/

/-- The spans between tokens, from `start` on: each from the end of one token to the start of the next. -/
def gapSpans (start : Nat) : List Token → List Span
  | [] => []
  | token :: tokens => ⟨start, token.span.start⟩ :: gapSpans token.span.stop tokens

/-- Whether spaced tokens fill a text that begins at an offset. -/
inductive LaidOut : Nat → List Spaced → List Char → Prop where
  | ended (start : Nat) : LaidOut start [] []
  | spaced {start : Nat} {first : Spaced} {others : List Spaced} {rest : List Char} (lexeme : List Char) :
    first.token.lexeme = String.ofList lexeme →
    first.token.span = ⟨start + utf8Length first.gap, start + utf8Length first.gap + utf8Length lexeme⟩ →
    LaidOut (start + utf8Length first.gap + utf8Length lexeme) others rest →
    LaidOut start (first :: others) (first.gap ++ (lexeme ++ rest))

/-- The tokens of a text that begins at `here`, each with its gap. -/
def spacedFrom (here : Position) (input : List Char) : Spaced × List Spaced :=
  (segmentsFrom here input).foldr Spaced.prepend (⟨[], .endOfInput (here.after input)⟩, [])

@[simp] theorem spacedFrom_nil (here : Position) :
    spacedFrom here [] = (⟨[], .endOfInput here⟩, []) := by
  simp [spacedFrom]

theorem spacedFrom_of_next? {rest : List Char} {segment : Segment} (here : Position)
    (found : Segment.next? (segment.text ++ rest) = some (segment, rest)) :
    spacedFrom here (segment.text ++ rest)
      = Spaced.prepend ⟨here, segment⟩ (spacedFrom (here.after segment.text) rest) := by
  rw [spacedFrom, segmentsFrom_of_next? found, List.foldr_cons, Position.after_append]
  rfl

theorem spacedTokens_eq (source : String) :
    spacedTokens source
      = (spacedFrom .start source.toList).1 :: (spacedFrom .start source.toList).2 := rfl

/-- Every rest of a source is filled by its spaced tokens. -/
theorem laidOut_spacedFrom (here : Position) (input : List Char) :
    LaidOut here.offset ((spacedFrom here input).1 :: (spacedFrom here input).2) input := by
  induction input using Segment.next?_induction generalizing here with
  | ended =>
    rw [spacedFrom_nil]
    show LaidOut here.offset _ ([] ++ ([] ++ []))
    exact .spaced [] rfl rfl (.ended _)
  | @step segment rest found _ _ ih =>
    have behind := ih (here.after segment.text)
    rw [spacedFrom_of_next? here found]
    generalize spacedFrom (here.after segment.text) rest = next at behind
    cases given : Located.token? ⟨here, segment⟩ with
    | none =>
      rw [Spaced.prepend, given]
      cases behind with
      | spaced lexeme spelled placed filled =>
        rw [← List.append_assoc]
        have moved : here.offset + utf8Length (segment.text ++ next.1.gap)
            = (here.after segment.text).offset + utf8Length next.1.gap := by
          simp [Position.after, Nat.add_assoc]
        refine .spaced lexeme spelled ?_ ?_
        · rw [moved]; exact placed
        · rw [moved]; exact filled
    | some token =>
      obtain ⟨_, lexeme, span⟩ := Located.of_token? given
      rw [Spaced.prepend, given]
      show LaidOut here.offset (⟨[], token⟩ :: _) ([] ++ (segment.text ++ rest))
      exact .spaced segment.text lexeme span behind

/-- The tokens are those of the scan. -/
theorem map_token_spacedFrom (here : Position) (input : List Char) :
    ((spacedFrom here input).1 :: (spacedFrom here input).2).map (·.token)
      = (segmentsFrom here input).filterMap Located.token? ++ [.endOfInput (here.after input)] := by
  induction input using Segment.next?_induction generalizing here with
  | ended => simp
  | @step segment rest found _ _ ih =>
    have behind := ih (here.after segment.text)
    rw [spacedFrom_of_next? here found, segmentsFrom_of_next? found, Position.after_append]
    cases given : Located.token? ⟨here, segment⟩ with
    | none => rw [Spaced.prepend, given, List.filterMap_cons_none given, ← behind]; rfl
    | some token => rw [Spaced.prepend, given, List.filterMap_cons_some given, List.cons_append, ← behind]; rfl

theorem map_token_spacedTokens (source : String) :
    (spacedTokens source).map (·.token) = (scan source).tokens := by
  rw [spacedTokens_eq, map_token_spacedFrom, scan_tokens, segments]

/-! ## What the layout says of spans -/

namespace LaidOut

variable {source : String} {start : Nat} {tokens : List Spaced} {before text : List Char}

theorem start_le (laid : LaidOut start tokens text) :
    ∀ spaced ∈ tokens, start ≤ spaced.token.span.start := by
  induction laid with
  | ended => simp
  | spaced lexeme _ placed _ ih =>
    intro other mem
    rcases List.mem_cons.mp mem with rfl | mem
    · rw [placed]
      exact Nat.le_add_right _ _
    · have := ih other mem
      omega

theorem pairwise (laid : LaidOut start tokens text) :
    (tokens.map (·.token)).Pairwise fun earlier later => earlier.span.stop ≤ later.span.start := by
  induction laid with
  | ended => exact .nil
  | spaced lexeme _ placed filled ih =>
    refine .cons ?_ ih
    intro later mem
    obtain ⟨other, among, rfl⟩ := List.mem_map.mp mem
    rw [placed]
    exact filled.start_le other among

theorem slice?_token (laid : LaidOut (utf8Length before) tokens text)
    (split : source.toList = before ++ text) :
    ∀ spaced ∈ tokens, spaced.token.span.slice? source = some spaced.token.lexeme := by
  generalize begins : utf8Length before = start at laid
  induction laid generalizing before with
  | ended => simp
  | @spaced start first others rest lexeme spelled placed _ ih =>
    subst begins
    have atLexeme : source.toList = (before ++ first.gap) ++ (lexeme ++ rest) := by
      rw [split, List.append_assoc]
    have behind : source.toList = (before ++ first.gap ++ lexeme) ++ rest := by
      rw [atLexeme, ← List.append_assoc]
    intro other mem
    rcases List.mem_cons.mp mem with rfl | mem
    · rw [placed, spelled, ← utf8Length_append]
      exact slice?_of_toList atLexeme
    · exact ih behind (by rw [utf8Length_append, utf8Length_append]) other mem

theorem slice?_gaps (laid : LaidOut (utf8Length before) tokens text)
    (split : source.toList = before ++ text) :
    (gapSpans (utf8Length before) (tokens.map (·.token))).map (·.slice? source)
      = tokens.map fun spaced => some (String.ofList spaced.gap) := by
  generalize begins : utf8Length before = start at laid
  induction laid generalizing before with
  | ended => rfl
  | @spaced start first others rest lexeme spelled placed _ ih =>
    subst begins
    have behind : source.toList = (before ++ first.gap ++ lexeme) ++ rest := by
      rw [split, List.append_assoc, List.append_assoc]
    have others' := ih behind (by rw [utf8Length_append, utf8Length_append])
    simp only [List.map_cons, gapSpans, placed, others', slice?_of_toList split]

theorem join (laid : LaidOut start tokens text) :
    String.join (tokens.map fun spaced => String.ofList spaced.gap ++ spaced.token.lexeme)
      = String.ofList text := by
  induction laid with
  | ended => rfl
  | spaced lexeme spelled _ _ ih =>
    rw [List.map_cons, String.join_cons, ih, spelled, String.ofList_append, String.ofList_append,
      String.append_assoc]

end LaidOut

/-! ## Gaps of a source without errors -/

/-- White space and comments. A comment runs up to a line end in the same gap, or, in the last gap of a
source, up to the end of it. -/
inductive IsTrivia (last : Bool) : List Char → Prop where
  | ended : IsTrivia last []
  | blank {c : Char} {rest : List Char} :
    c ∈ [' ', '\t', '\r', '\n'] → IsTrivia last rest → IsTrivia last (c :: rest)
  | comment {body rest : List Char} :
    '\n' ∉ body → IsTrivia last ('\n' :: rest) →
      IsTrivia last ('/' :: '/' :: (body ++ '\n' :: rest))
  | lastComment {body : List Char} :
    last = true → '\n' ∉ body → IsTrivia last ('/' :: '/' :: body)

/-- Whether all gaps hold white space and comments only. -/
def AllTrivia : List Spaced → Prop
  | [] => True
  | first :: others => IsTrivia others.isEmpty first.gap ∧ AllTrivia others

theorem AllTrivia.isTrivia {tokens : List Spaced} (all : AllTrivia tokens) {i : Nat} {spaced : Spaced}
    (found : tokens[i]? = some spaced) : IsTrivia (decide (i + 1 = tokens.length)) spaced.gap := by
  induction tokens generalizing i with
  | nil => cases found
  | cons first others ih =>
    cases i with
    | zero =>
      obtain rfl := Option.some.inj found
      have last : decide (0 + 1 = (first :: others).length) = others.isEmpty := by
        cases others <;> simp
      rw [last]
      exact all.1
    | succ i =>
      have := ih all.2 found
      simpa using this

/-- A blank in front of a text becomes part of its first gap. -/
theorem spacedFrom_blank {c : Char} {rest : List Char} (here : Position) (blank : isBlank c = true) :
    spacedFrom here (c :: rest)
      = ({(spacedFrom (here.after [c]) rest).1 with gap := c :: (spacedFrom (here.after [c]) rest).1.gap},
          (spacedFrom (here.after [c]) rest).2) := by
  have wellFormed : (Segment.blank c).IsWellFormed := blank
  exact spacedFrom_of_next? here (Segment.next?_of_endsBefore wellFormed trivial)

theorem allTrivia_spacedFrom (here : Position) (input : List Char)
    (clean : ∀ found ∈ segmentsFrom here input, found.diagnostic? = none) :
    AllTrivia ((spacedFrom here input).1 :: (spacedFrom here input).2) := by
  induction input using Segment.next?_induction generalizing here with
  | ended =>
    rw [spacedFrom_nil]
    exact ⟨.ended, trivial⟩
  | @step segment rest found wellFormed ends ih =>
    rw [segmentsFrom_of_next? found] at clean
    have behind := ih (here.after segment.text) fun other mem => clean other (List.mem_cons_of_mem _ mem)
    have quiet := clean _ List.mem_cons_self
    rw [spacedFrom_of_next? here found]
    cases segment with
    | operator op => exact ⟨.ended, behind⟩
    | word text => exact ⟨.ended, behind⟩
    | number numeral => exact ⟨.ended, behind⟩
    | quoted body => exact ⟨.ended, behind⟩
    | blank c => exact ⟨.blank (isBlank_iff.mp wellFormed) behind.1, behind.2⟩
    | comment body =>
      cases rest with
      | nil =>
        rw [spacedFrom_nil] at behind ⊢
        refine ⟨?_, behind.2⟩
        show IsTrivia true ('/' :: '/' :: (body ++ []))
        rw [List.append_nil]
        exact .lastComment rfl wellFormed
      | cons c rest =>
        obtain rfl := stops_newline_cons.mp ends
        rw [spacedFrom_blank _ (by decide)] at behind ⊢
        exact ⟨.comment wellFormed behind.1, behind.2⟩
    | stray c => cases quiet
    | unclosed body => cases quiet

/-! ## The law -/

section

variable {source : String}

theorem size_eq_utf8Length (source : String) : source.utf8ByteSize = utf8Length source.toList := by
  rw [← utf8ByteSize_ofList, String.ofList_toList]

/-- Reading a source from its start leads to its last byte. -/
theorem offset_start_after (source : String) :
    (Position.start.after source.toList).offset = source.utf8ByteSize := by
  rw [size_eq_utf8Length]
  exact Nat.zero_add _

theorem start_lt_stop {token : Token} (mem : token ∈ (scan source).tokens)
    (notEnd : token.kind ≠ .endOfInput) : token.span.start < token.span.stop := by
  rcases mem_scan_tokens.mp mem with ⟨found, among, given⟩ | rfl
  · obtain ⟨_, _, span⟩ := found.of_token? given
    obtain ⟨_, _, _, _, reads⟩ := next?_of_mem_segmentsFrom among
    rw [span]
    exact Nat.lt_add_of_pos_right (utf8Length_pos (Segment.text_ne_nil_of_next? reads))
  · exact absurd rfl notEnd

/-- The last token, and no other, is the end of the input. -/
theorem exists_tokens_eq_concat (source : String) :
    ∃ front last, (scan source).tokens = front ++ [last] ∧
      (∀ token ∈ front, token.kind ≠ .endOfInput) ∧ last.kind = .endOfInput ∧
      last.span = ⟨source.utf8ByteSize, source.utf8ByteSize⟩ := by
  refine ⟨_, _, scan_tokens source, ?_, rfl, ?_⟩
  · intro token mem
    obtain ⟨found, _, given⟩ := List.mem_filterMap.mp mem
    exact (found.of_token? given).1
  · simp [Token.endOfInput, Position.after, Position.start, size_eq_utf8Length]

/-- In a source without errors each gap is trivia. -/
theorem isTrivia_of_diagnostics_eq_nil (clean : (scan source).diagnostics = []) {i : Nat}
    {gap : String} (found : ((spacedTokens source).map (String.ofList ·.gap))[i]? = some gap) :
    IsTrivia (decide (i + 1 = (spacedTokens source).length)) gap.toList := by
  rw [scan_diagnostics, List.filterMap_eq_nil_iff] at clean
  have trivia : AllTrivia (spacedTokens source) := allTrivia_spacedFrom .start source.toList clean
  rw [List.getElem?_map] at found
  obtain ⟨spaced, place, rfl⟩ := Option.map_eq_some_iff.mp found
  rw [String.toList_ofList]
  exact trivia.isTrivia place

end

/-- **A source is its gaps and lexemes.** Every span slices its lexeme out of the source; all but the last
token take some room; spans are in order; the last token, and no other, is the end of the input; and the
slices between the spans, each in front of its lexeme, are the source again. Where nothing is wrong they
are white space and comments. -/
theorem layout_of_scan (source : String) :
    (∀ token ∈ (scan source).tokens, token.span.slice? source = some token.lexeme) ∧
      (∀ token ∈ (scan source).tokens,
        token.kind ≠ .endOfInput → token.span.start < token.span.stop) ∧
      ((scan source).tokens.Pairwise fun earlier later => earlier.span.stop ≤ later.span.start) ∧
      (∃ front last, (scan source).tokens = front ++ [last] ∧
        (∀ token ∈ front, token.kind ≠ .endOfInput) ∧ last.kind = .endOfInput ∧
        last.span = ⟨source.utf8ByteSize, source.utf8ByteSize⟩) ∧
      ∃ gaps : List String,
        (gapSpans 0 (scan source).tokens).map (·.slice? source) = gaps.map some ∧
        String.join (List.zipWith (fun gap token => gap ++ token.lexeme) gaps (scan source).tokens)
          = source ∧
        ((scan source).diagnostics = [] → ∀ (i : Nat) (gap : String), gaps[i]? = some gap →
          IsTrivia (decide (i + 1 = gaps.length)) gap.toList) := by
  have laid : LaidOut (utf8Length []) (spacedTokens source) source.toList :=
    laidOut_spacedFrom .start source.toList
  refine ⟨?_, ?_, ?_, exists_tokens_eq_concat source,
    (spacedTokens source).map (String.ofList ·.gap), ?_, ?_, ?_⟩
  · intro token mem
    rw [← map_token_spacedTokens] at mem
    obtain ⟨spaced, among, rfl⟩ := List.mem_map.mp mem
    exact laid.slice?_token rfl spaced among
  · intro token mem notEnd
    exact start_lt_stop mem notEnd
  · rw [← map_token_spacedTokens]
    exact laid.pairwise
  · rw [← map_token_spacedTokens, List.map_map]
    exact laid.slice?_gaps rfl
  · rw [← map_token_spacedTokens, List.zipWith_map, List.zipWith_self, laid.join,
      String.ofList_toList]
  · intro clean i gap found
    rw [List.length_map]
    exact isTrivia_of_diagnostics_eq_nil clean found

end LoxLexing
