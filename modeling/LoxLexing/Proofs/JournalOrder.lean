import LoxLexing.Journal
import LoxLexing.Proofs.Content
import LoxLexing.Proofs.Lines

/-!
# What a journal tells

A journal is written while a source is scanned, and tokens and errors are told as they come. Here each of them is
taken together with the part of the source that it is about (`Told`).

**The law** (`journal_of_scan`): the journal of a source tells its tokens, but for the end of the input, and its
diagnostics, each once, and no other thing. Each is about a part of the source that is what it says, on the line that
it says (`Told.IsAbout`), and they come in the order of these parts, which do not overlap; so their lines never
decrease. At the end the journal sums up: the bytes of the source, the line and the end of the end of the input, and
the number of tokens with it.

A segment tells one thing at most. So the order is that of the segments (`pairwise_segmentsFrom`), and each list is
what the segments give of it.
-/

namespace LoxLexing

/-! ## Segments as parts of a source -/

section

variable {source : String} {found : Located}

/-- A segment's bytes are its text. -/
theorem slice?_of_mem_segments (mem : found ∈ segments source) :
    Span.slice? ⟨found.position.offset, found.finish.offset⟩ source = some (String.ofList found.segment.text) := by
  obtain ⟨before, after, split, place, -⟩ := next?_of_mem_segmentsFrom mem
  have start : found.position.offset = utf8Length before := by
    rw [place]
    exact Nat.zero_add _
  have stop : found.finish.offset = utf8Length before + utf8Length found.segment.text := by
    rw [← start]
    rfl
  rw [start, stop]
  exact slice?_of_toList split

theorem lineAt?_position (mem : found ∈ segments source) :
    lineAt? source found.position.offset = some found.position.line := by
  obtain ⟨before, after, split, place, -⟩ := next?_of_mem_segmentsFrom mem
  rw [place]
  exact lineAt?_after split

theorem lineAt?_finish (mem : found ∈ segments source) :
    lineAt? source found.finish.offset = some found.finish.line := by
  obtain ⟨before, after, split, place, -⟩ := next?_of_mem_segmentsFrom mem
  rw [← List.append_assoc] at split
  rw [Located.finish, place, ← Position.after_append]
  exact lineAt?_after split

end

/-! ## Things told -/

/-- A token, or an error and the part of a source that it is about. -/
inductive Told where
  | token (found : Token)
  | error (about : Span) (found : Diagnostic)
deriving DecidableEq, Repr

namespace Told

/-- The part of a source that is told about. -/
def span : Told → Span
  | token found => found.span
  | error about _ => about

def line : Told → Nat
  | token found => found.line
  | error _ found => found.line

def token? : Told → Option Token
  | token found => some found
  | error _ _ => none

def diagnostic? : Told → Option Diagnostic
  | token _ => none
  | error _ found => some found

/-- How a thing is told: tokens as finer detail, by line and display, and errors by line and message. -/
def written : Told → JournalLevel × List (String × String)
  | token found => (.trace, [("line", toString found.line), ("message", found.display)])
  | error _ found =>
    (.debug, [("error", found.message), ("line", toString found.line), ("message", "lexical error")])

/-- Whether a part of a source is what is told about it: the lexeme of a token or an unexpected character, on the line
on which it begins, or an open string up to the end of the source, on the line on which that is. -/
def IsAbout (source : String) : Told → Prop
  | token found => found.span.slice? source = some found.lexeme ∧ lineAt? source found.span.start = some found.line
  | error about ⟨line, .unexpectedCharacter c⟩ =>
    about.slice? source = some (String.singleton c) ∧ lineAt? source about.start = some line
  | error about ⟨line, .unterminatedString⟩ =>
    (∃ body, '"' ∉ body ∧ about.slice? source = some (String.ofList ('"' :: body))) ∧
      about.stop = source.utf8ByteSize ∧ lineAt? source about.stop = some line

end Told

/-- How an entry of a journal is written down. -/
def JournalEntry.written (entry : JournalEntry) : JournalLevel × List (String × String) :=
  (entry.level, entry.fields)

/-- What a segment makes a journal tell. -/
def Located.told? (found : Located) : Option Told :=
  match found.token?, found.diagnostic? with
  | some token, _ => some (.token token)
  | none, some diagnostic => some (.error ⟨found.position.offset, found.finish.offset⟩ diagnostic)
  | none, none => none

namespace Located

variable {source : String} {found : Located} {told : Told}

theorem written_journalEntry? (found : Located) :
    found.journalEntry?.map JournalEntry.written = found.told?.map Told.written := by
  unfold journalEntry? told?
  cases found.token? <;> cases found.diagnostic? <;> rfl

theorem token?_told? (found : Located) : found.told?.bind Told.token? = found.token? := by
  obtain ⟨here, segment⟩ := found
  cases segment <;> rfl

theorem diagnostic?_told? (found : Located) : found.told?.bind Told.diagnostic? = found.diagnostic? := by
  obtain ⟨here, segment⟩ := found
  cases segment <;> rfl

theorem span_of_told? (given : found.told? = some told) :
    told.span = ⟨found.position.offset, found.finish.offset⟩ := by
  obtain ⟨here, segment⟩ := found
  cases segment <;> cases given <;> rfl

/-- What a segment tells is on one of its lines. -/
theorem line_of_told? (given : found.told? = some told) :
    found.position.line ≤ told.line ∧ told.line ≤ found.finish.line := by
  have ordered := found.position.line_le_after found.segment.text
  obtain ⟨here, segment⟩ := found
  cases segment with
  | comment body => cases given
  | blank c => cases given
  | unclosed body => cases given; exact ⟨ordered, Nat.le_refl _⟩
  | _ => cases given; exact ⟨Nat.le_refl _, ordered⟩

/-- What a segment tells is about the segment. -/
theorem isAbout_of_told? (mem : found ∈ segments source) (given : found.told? = some told) : told.IsAbout source := by
  have slice := slice?_of_mem_segments mem
  have line := lineAt?_position mem
  obtain ⟨before, after, split, place, reads⟩ := next?_of_mem_segmentsFrom mem
  obtain ⟨wellFormed, ends, -⟩ := Segment.next?_eq_some_iff.mp reads
  have lastLine := lineAt?_finish mem
  obtain ⟨here, segment⟩ := found
  cases segment with
  | comment body => cases given
  | blank c => cases given
  | stray c => cases given; exact ⟨slice, line⟩
  | unclosed body =>
    cases given
    obtain rfl : after = [] := ends
    have stop : (Located.finish ⟨here, .unclosed body⟩).offset = source.utf8ByteSize := by
      rw [List.append_nil] at split
      rw [finish, place, ← Position.after_append, ← split, offset_start_after]
    exact ⟨⟨body, wellFormed, slice⟩, stop, lastLine⟩
  | _ => cases given; exact ⟨slice, line⟩

end Located

/-! ## The journal -/

theorem foldl_journal (found : List Located) (entries : Array JournalEntry) (count : Nat) :
    found.foldl (fun (state : Array JournalEntry × Nat) found =>
        (pushSome state.1 found.journalEntry?, state.2 + found.token?.toList.length)) (entries, count)
      = (entries ++ found.filterMap Located.journalEntry?, count + (found.filterMap Located.token?).length) := by
  induction found generalizing entries count with
  | nil => simp
  | cons first found ih =>
    rw [List.foldl_cons, ih]
    cases told : first.journalEntry? <;> cases given : first.token? <;>
      simp [pushSome, told, given, Nat.add_assoc, Nat.add_comm 1]

/-- A journal is what the segments make of it, and then the sum. -/
theorem journal_eq (source : String) :
    journal source = (segments source).filterMap Located.journalEntry?
      ++ [.complete source.utf8ByteSize (Position.start.after source.toList).line (scan source).tokens.length] := by
  rw [journal, walk_fst, walk_snd, ← segments, foldl_journal]
  simp [offset_start_after, scan_tokens]

/-- Whether some things are what a scan of a source gives, each about a part of the source, in the order of these
parts, and none of them below the given line. -/
structure Tells (source : String) (lastLine : Nat) (told : List Told) : Prop where
  tokens : told.filterMap Told.token? = (scan source).tokens.filter (·.kind != .endOfInput)
  diagnostics : told.filterMap Told.diagnostic? = (scan source).diagnostics
  isAbout : ∀ thing ∈ told, thing.IsAbout source
  inOrder : told.Pairwise fun earlier later => earlier.span.stop ≤ later.span.start
  linesInOrder : told.Pairwise fun earlier later => earlier.line ≤ later.line
  line_le : ∀ thing ∈ told, thing.line ≤ lastLine

theorem tells_segments (source : String) :
    Tells source (Position.start.after source.toList).line ((segments source).filterMap Located.told?) := by
  constructor
  case tokens =>
    rw [List.filterMap_filterMap, filter_tokens_scan]
    exact congrArg (List.filterMap · _) (funext Located.token?_told?)
  case diagnostics =>
    rw [List.filterMap_filterMap, scan_diagnostics]
    exact congrArg (List.filterMap · _) (funext Located.diagnostic?_told?)
  case isAbout =>
    intro thing mem
    obtain ⟨found, among, given⟩ := List.mem_filterMap.mp mem
    exact Located.isAbout_of_told? among given
  case inOrder =>
    rw [List.pairwise_filterMap]
    refine (pairwise_segmentsFrom .start source.toList).imp ?_
    rintro first second ⟨between, place⟩ earlier given later given'
    rw [Located.span_of_told? given, Located.span_of_told? given', place]
    exact Nat.le_add_right _ _
  case linesInOrder =>
    rw [List.pairwise_filterMap]
    refine (pairwise_line_segmentsFrom .start source.toList).imp ?_
    intro first second ordered earlier given later given'
    calc
      earlier.line ≤ first.finish.line := (Located.line_of_told? given).2
      _ ≤ second.position.line := ordered
      _ ≤ later.line := (Located.line_of_told? given').1
  case line_le =>
    intro thing mem
    obtain ⟨found, among, given⟩ := List.mem_filterMap.mp mem
    exact Nat.le_trans (Located.line_of_told? given).2 (finish_line_le_of_mem_segmentsFrom among)

/-! ## The law -/

/-- **A journal tells the tokens and the diagnostics of a scan**, each once and in the order of the source, and sums up
the scan at its end. The lines that it says never decrease. -/
theorem journal_of_scan (source : String) :
    ∃ told mark, (scan source).tokens.getLast? = some mark ∧ mark.kind = .endOfInput ∧
      mark.span.stop = source.utf8ByteSize ∧ Tells source mark.line told ∧
      (journal source).map JournalEntry.written = told.map Told.written ++
        [(.debug, [("bytes", toString source.utf8ByteSize), ("lines", toString mark.line),
          ("message", "scan complete"), ("tokens", toString (scan source).tokens.length)])] := by
  refine ⟨_, .endOfInput (Position.start.after source.toList), ?_, rfl, offset_start_after source,
    tells_segments source, ?_⟩
  · rw [scan_tokens]
    exact List.getLast?_concat
  · have written := funext Located.written_journalEntry?
    rw [journal_eq, List.map_append, List.map_filterMap, written, ← List.map_filterMap]
    rfl

end LoxLexing
