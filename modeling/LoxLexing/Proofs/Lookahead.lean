import LoxLexing.Proofs.Layout
import LoxLexing.Proofs.Modes

/-!
# How far a scan looks ahead

A source may go on. Its last token may then turn into another one: a word grows, a slash begins a comment, a
point joins a digit to a numeral. A token is **settled** when two characters of the source stand behind it.

**The law** (`scan_append_settled`): whatever is added to a source, its settled tokens stay what they are, where
they are and at the same places of the list, and all characters that were unexpected are reported first, on the
same lines.

For tokens, what a segment asks of the rest is looked at: it depends on the first character, and on the second
one only behind a point (`Segment.EndsBefore.congr`). So the segments that leave two characters are the first
ones of every longer source too (`exists_settled`). For diagnostics no tokens are needed, as a reader that goes
character by character finds the same in both sources as far as the shorter one goes
(`Mode.isPrefix_reads_append`).

**What it does not establish.** One character does not settle a numeral, and nothing settles a string that is
not closed yet.
-/

namespace LoxLexing

/-! ## What a segment looks at -/

theorem Stops.congr {p : Char → Bool} {rest rest' : List Char} (stops : Stops p rest)
    (first : rest'.head? = rest.head?) : Stops p rest' := by
  rwa [Stops, first]

/-- A segment looks at the next character, and at the one behind it only if the next one is a point. -/
theorem Segment.EndsBefore.congr {segment : Segment} {rest rest' : List Char}
    (ends : segment.EndsBefore rest) (first : rest'.head? = rest.head?)
    (second : rest'.head? = some '.' → rest'.tail.head? = rest.tail.head?) :
    segment.EndsBefore rest' := by
  cases segment with
  | operator op => exact Stops.congr ends first
  | word text => exact Stops.congr ends first
  | comment body => exact Stops.congr ends first
  | number numeral =>
    obtain ⟨whole, fraction⟩ := numeral
    cases fraction with
    | some fraction => exact Stops.congr ends first
    | none =>
      obtain ⟨stops, noDigit⟩ := ends
      refine ⟨stops.congr first, ?_⟩
      rintro digit tail rfl
      obtain ⟨others, rfl⟩ := List.head?_eq_some_iff.mp first.symm
      obtain ⟨others, rfl⟩ := List.head?_eq_some_iff.mp (second rfl).symm
      exact noDigit digit others rfl
  | unclosed body =>
    obtain rfl : rest = [] := ends
    exact List.head?_eq_none_iff.mp first
  | _ => trivial

/-- Two characters settle a segment. -/
theorem Segment.EndsBefore.append {segment : Segment} {rest : List Char} (ends : segment.EndsBefore rest)
    (settled : 2 ≤ rest.length) (behind : List Char) : segment.EndsBefore (rest ++ behind) := by
  match rest, settled with
  | _ :: _ :: _, _ => exact ends.congr rfl fun _ => rfl

/-- Nothing is seen of what stands behind a character that is no point. -/
theorem Segment.EndsBefore.of_behind {segment : Segment} {front behind : List Char} {c : Char}
    (ends : segment.EndsBefore (front ++ c :: behind)) (notPoint : c ≠ '.') (behind' : List Char) :
    segment.EndsBefore (front ++ c :: behind') := by
  cases front with
  | nil => exact ends.congr rfl fun point => absurd (Option.some.inj point) notPoint
  | cons d front =>
    refine ends.congr rfl fun _ => ?_
    cases front <;> rfl

/-! ## Segments of a source that goes on -/

/-- The segments of a text are some that it has in common with every text that it begins, and then some that
leave less than two characters. -/
theorem exists_settled (here : Position) (front behind : List Char) :
    ∃ settled late late', segmentsFrom here front = settled ++ late ∧
      segmentsFrom here (front ++ behind) = settled ++ late' ∧
      ∀ found ∈ late, ∃ before after, front = before ++ (found.segment.text ++ after) ∧
        found.position = here.after before ∧ after.length < 2 := by
  induction front using Segment.next?_induction generalizing here with
  | ended => exact ⟨[], [], _, by simp, rfl, by simp⟩
  | @step segment rest reads wellFormed ends ih =>
    by_cases two : 2 ≤ rest.length
    · obtain ⟨settled, late, late', first, second, unsettled⟩ := ih (here.after segment.text)
      have reads' := Segment.next?_of_endsBefore wellFormed (ends.append two behind)
      refine ⟨⟨here, segment⟩ :: settled, late, late', ?_, ?_, ?_⟩
      · rw [segmentsFrom_of_next? reads, first, List.cons_append]
      · rw [List.append_assoc, segmentsFrom_of_next? reads', second, List.cons_append]
      · intro found mem
        obtain ⟨before, after, split, place, short⟩ := unsettled found mem
        refine ⟨segment.text ++ before, after, ?_, ?_, short⟩
        · rw [split, List.append_assoc]
        · rw [place, Position.after_append]
    · -- From here on no segment leaves more than this one does.
      refine ⟨[], segmentsFrom here (segment.text ++ rest), _, rfl, rfl, ?_⟩
      intro found mem
      rw [segmentsFrom_of_next? reads] at mem
      rcases List.mem_cons.mp mem with rfl | mem
      · exact ⟨[], rest, rfl, rfl, Nat.lt_of_not_le two⟩
      · obtain ⟨before, after, split, place, _⟩ := next?_of_mem_segmentsFrom mem
        refine ⟨segment.text ++ before, after, ?_, ?_, ?_⟩
        · rw [split, List.append_assoc]
        · rw [place, Position.after_append]
        · rw [split, List.length_append, List.length_append] at two
          omega

/-! ## Settled tokens -/

/-- Whether at least two characters of a source stand behind the span of a token. -/
def Token.IsSettled (source : String) (token : Token) : Prop :=
  ∃ behind, Span.slice? ⟨token.span.stop, source.utf8ByteSize⟩ source = some behind ∧
    2 ≤ behind.length

/-- What stands behind a token is the rest of the source. -/
theorem not_isSettled {source : String} {token : Token} {before after : List Char}
    (split : source.toList = before ++ after) (stop : token.span.stop = utf8Length before)
    (short : after.length < 2) : ¬ token.IsSettled source := by
  rintro ⟨behind, slice, two⟩
  have whole : source.toList = before ++ (after ++ []) := by rw [List.append_nil, split]
  have size : source.utf8ByteSize = utf8Length before + utf8Length after := by
    rw [size_eq_utf8Length, split, utf8Length_append]
  rw [stop, size, slice?_of_toList whole, Option.some.injEq] at slice
  rw [← slice, String.length_ofList] at two
  omega

theorem not_isSettled_of_token? {source : String} {found : Located} {token : Token}
    {before after : List Char} (given : found.token? = some token)
    (split : source.toList = before ++ (found.segment.text ++ after))
    (place : found.position = Position.start.after before) (short : after.length < 2) :
    ¬ token.IsSettled source := by
  have split' : source.toList = (before ++ found.segment.text) ++ after := by
    rw [split, List.append_assoc]
  refine not_isSettled split' ?_ short
  rw [(found.of_token? given).2.2, place, utf8Length_append, Position.after, Position.start,
    Nat.zero_add]

theorem not_isSettled_endOfInput (source : String) :
    ¬ (Token.endOfInput (Position.start.after source.toList)).IsSettled source := by
  refine not_isSettled (List.append_nil _).symm ?_ Nat.two_pos
  exact Nat.zero_add _

/-- A settled token is that of a settled segment, so it is found again. -/
theorem getElem?_tokens_append {front behind : String} {i : Nat} {token : Token}
    (found : (scan front).tokens[i]? = some token) (settled : token.IsSettled front) :
    (scan (front ++ behind)).tokens[i]? = some token := by
  obtain ⟨common, late, late', first, second, unsettled⟩ :=
    exists_settled .start front.toList behind.toList
  rw [scan_tokens, segments, first, List.filterMap_append, List.append_assoc] at found
  rw [scan_tokens, segments, String.toList_append, second, List.filterMap_append, List.append_assoc]
  by_cases early : i < (common.filterMap Located.token?).length
  · rw [List.getElem?_append_left early] at found ⊢
    exact found
  · -- A token of a later segment, or the end of the input, has too little behind it.
    rw [List.getElem?_append_right (Nat.le_of_not_lt early)] at found
    exfalso
    rcases List.mem_append.mp (List.mem_of_getElem? found) with mem | mem
    · obtain ⟨segment, mem, given⟩ := List.mem_filterMap.mp mem
      obtain ⟨before, after, split, place, short⟩ := unsettled segment mem
      exact not_isSettled_of_token? given split place short settled
    · obtain rfl := List.mem_singleton.mp mem
      exact not_isSettled_endOfInput front settled

/-! ## Diagnostics of a source that goes on -/

/-- A reader by characters finds the same in a longer text, as far as the shorter one goes. -/
theorem Mode.isPrefix_reads_append (mode : Mode) (before text behind : List Char) :
    mode.reads before text <+: mode.reads before (text ++ behind) := by
  induction text generalizing mode before with
  | nil => exact List.nil_prefix
  | cons c rest ih =>
    rw [List.cons_append, reads, reads]
    cases rest with
    | nil => exact List.cons_prefix_cons.mpr ⟨rfl, List.nil_prefix⟩
    | cons d rest => exact List.cons_prefix_cons.mpr ⟨rfl, ih _ _⟩

theorem diagnostics_eq_report (source : String) :
    (scan source).diagnostics = Mode.code.report [] source.toList := by
  rw [scan_diagnostics, Mode.report_code]
  rfl

/-- Without that of an open string, the diagnostics are those of the characters. -/
theorem filter_diagnostics_scan (source : String) :
    (scan source).diagnostics.filter (·.error != .unterminatedString)
      = (Mode.code.reads [] source.toList).filterMap CharacterRead.diagnostic? := by
  rw [diagnostics_eq_report, Mode.report, List.filter_append]
  have kept : ((Mode.code.reads [] source.toList).filterMap CharacterRead.diagnostic?).filter
      (·.error != .unterminatedString)
      = (Mode.code.reads [] source.toList).filterMap CharacterRead.diagnostic? := by
    rw [List.filter_eq_self]
    intro diagnostic mem
    obtain ⟨read, _, given⟩ := List.mem_filterMap.mp mem
    rw [CharacterRead.error_of_diagnostic? given]
    rfl
  rw [kept]
  split <;> exact List.append_nil _

/-! ## The law -/

/-- **What is added to a source reaches back over one character at most.** Settled tokens stay, and are at the
same places of the list; the end of the input is never settled. The characters that were unexpected are
reported first, in order and on the same lines. -/
theorem scan_append_settled (front behind : String) :
    (∀ (i : Nat) (token : Token), (scan front).tokens[i]? = some token → token.IsSettled front →
        (scan (front ++ behind)).tokens[i]? = some token) ∧
      (scan front).diagnostics.filter (·.error != .unterminatedString)
        <+: (scan (front ++ behind)).diagnostics := by
  refine ⟨fun i token => getElem?_tokens_append, ?_⟩
  rw [filter_diagnostics_scan, diagnostics_eq_report, Mode.report, String.toList_append]
  have reads := Mode.code.isPrefix_reads_append [] front.toList behind.toList
  exact (reads.filterMap _).trans (List.prefix_append _ _)

/-- A point and no digit behind a numeral settle it, whatever is added behind them: here a string that is not
closed. -/
theorem scan_append_settled_point :
    let one : Token := ⟨.number, "1", some (.number ⟨0x3FF0000000000000⟩), 2, ⟨3, 4⟩⟩
    (scan "@\n>1.;").tokens[1]? = some one ∧ one.IsSettled "@\n>1.;" ∧
      (scan ("@\n>1.;" ++ "5 \"")).tokens[1]? = some one ∧
      (scan "@\n>1.;").diagnostics.filter (·.error != .unterminatedString)
        <+: (scan ("@\n>1.;" ++ "5 \"")).diagnostics := by
  intro one
  have found : (scan "@\n>1.;").tokens[1]? = some one := by decide +kernel
  have split : "@\n>1.;".toList = ['@', '\n', '>', '1'] ++ (['.', ';'] ++ []) := rfl
  have settled : one.IsSettled "@\n>1.;" := ⟨_, slice?_of_toList split, by decide⟩
  obtain ⟨tokens, diagnostics⟩ := scan_append_settled "@\n>1.;" "5 \""
  exact ⟨found, settled, tokens 1 one found settled, diagnostics⟩

/-- One character does not settle a numeral. -/
example : (scan "1.").tokens[0]? ≠ (scan ("1." ++ "5")).tokens[0]? := by decide +kernel

end LoxLexing
