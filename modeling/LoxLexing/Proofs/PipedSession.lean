import LoxLexing.Proofs.Content
import LoxLexing.Proofs.Entries
import LoxLexing.Proofs.SessionScans

/-!
# A session scans what a scan of its input scans

A session over a pipe scans its input entry by entry, each from the start.

**The law** (`overPipe_scansAsText`): if no entry is a command, then what comes out is what a single scan of
all that was entered gives, apart from places: kinds, lexemes and values of tokens, and the characters that
begin no token. The one difference is that an entry of white space is not scanned at all, so a character
in it that is white space but has no place in Lox goes unnoticed.

It is so because an entry is complete: no string is open at its end, so the line end behind it cuts nothing
(`Falls.filterMap_segmentsFrom`). Whether its brackets are closed does not matter here.

**What it does not establish.** It does not say that the rest of the input, which no line end completes, is
without tokens: a scan of the whole input goes on where the session stops. Nor does it say anything of
lines and spans, for every entry is scanned from the start.
-/

namespace LoxLexing

/-! ## Entries -/

/-- What the texts of some entries give, each at its place. -/
def givenOn {α : Type} (give : Located → Option α) (here : Position) : List Entry → List α
  | [] => []
  | entry :: entries =>
    (segmentsFrom here entry.text).filterMap give ++ givenOn give (here.after entry.typed) entries

/-- An entry that is no command leaves no string open. -/
theorem Entry.hasOpenString_eq_false {entry : Entry} (complete : entry.IsComplete)
    (noCommand : Command.parse? (String.ofList entry.text) = none) :
    (scan (String.ofList entry.text)).hasOpenString = false := by
  have notOpen : (scan (String.ofList entry.text)).isOpen = false := by
    simpa [Entry.IsComplete, isComplete, noCommand, needsMore] using complete
  simp only [Scan.isOpen, Bool.or_eq_false_iff] at notOpen
  exact notOpen.1.1

theorem Entry.isClosed {entry : Entry} (complete : entry.IsComplete)
    (noCommand : Command.parse? (String.ofList entry.text) = none) :
    Segment.IsClosed entry.text := by
  have := isClosed_of_hasOpenString (entry.hasOpenString_eq_false complete noCommand)
  rwa [String.toList_ofList] at this

section

variable {text left : List Char} {entries : List Entry}

/-- **No line end behind an entry cuts anything.** -/
theorem Falls.filterMap_segmentsFrom {α : Type} {give : Located → Option α} (silent : IsSilent give)
    (falls : Falls text entries left) (closed : ∀ entry ∈ entries, Segment.IsClosed entry.text)
    (here : Position) :
    (segmentsFrom here text).filterMap give
      = givenOn give here entries
        ++ (segmentsFrom (here.after (typed entries)) left).filterMap give := by
  induction falls generalizing here with
  | rest left => rfl
  | last text => simp [givenOn]
  | @entry terminator behind left entries lineEnd _ text ih =>
    obtain ⟨closed, closed'⟩ := List.forall_mem_cons.mp closed
    have cut := filterMap_segmentsFrom_append silent closed lineEnd here behind
    rw [cut, ih closed', givenOn, List.append_assoc, typed_cons]
    simp only [Entry.typed, Position.after_append]

end

/-! ## Entries of white space -/

/-- What a session scans of an entry that is no command. -/
def Entry.source? (entry : Entry) : Option String :=
  if isBlankText entry.text then none else some (String.ofList entry.text)

theorem isWordPart_eq_false_of_isWhiteSpace {c : Char} (space : isWhiteSpace c = true) :
    isWordPart c = false := by
  rw [Bool.eq_false_iff]
  intro part
  have := toNat_of_isWordPart part
  simp only [isWhiteSpace, Bool.or_eq_true, Bool.and_eq_true, decide_eq_true_eq,
    beq_iff_eq] at space
  omega

/-- White space is a blank of Lox, or has no place in it. -/
theorem isBlank_or_isForeign {c : Char} (space : isWhiteSpace c = true) :
    isBlank c = true ∨ isForeign c = true := by
  have noMark : c ≠ '"' ∧ c ∉ punctuation := by
    have all : ∀ d ∈ '"' :: punctuation, isWhiteSpace d = false := forall_mem_of_all (by decide)
    constructor
    · rintro rfl
      cases space
    · intro mark
      rw [all c (List.mem_cons_of_mem _ mark)] at space
      cases space
  have noPart := isWordPart_eq_false_of_isWhiteSpace space
  cases blank : isBlank c with
  | true => exact .inl rfl
  | false => exact .inr (isForeign_iff.mpr ⟨blank, noPart, noMark.1, noMark.2⟩)

theorem contents_of_isBlankText {text : List Char} (space : isBlankText text = true)
    (here : Position) : (segmentsFrom here text).filterMap Located.content? = [] := by
  induction text generalizing here with
  | nil => simp
  | cons c text ih =>
    obtain ⟨first, space⟩ : isWhiteSpace c = true ∧ isBlankText text = true := by
      simpa [isBlankText] using space
    rcases isBlank_or_isForeign first with blank | foreign
    · have found : Segment.next? (c :: text) = some (.blank c, text) := by
        rw [Segment.next?, Segment.read_of_isBlank blank]
      rw [segmentsFrom_of_next? found, List.filterMap_cons_none rfl, ih space]
    · have found : Segment.next? (c :: text) = some (.stray c, text) := by
        rw [Segment.next?, Segment.read_of_isForeign foreign]
      rw [segmentsFrom_of_next? found, List.filterMap_cons_none rfl, ih space]

/-- **Contents.** No token is lost with the entries that are not scanned. -/
theorem contents_sources (here : Position) (entries : List Entry) :
    ((entries.filterMap Entry.source?).map scan).flatMap Scan.contents
      = givenOn Located.content? here entries := by
  induction entries generalizing here with
  | nil => rfl
  | cons entry entries ih =>
    rw [givenOn]
    by_cases space : isBlankText entry.text = true
    · have none : entry.source? = none := if_pos space
      rw [List.filterMap_cons_none none, contents_of_isBlankText space, List.nil_append, ih]
    · have some : entry.source? = some (String.ofList entry.text) := if_neg space
      rw [List.filterMap_cons_some some, List.map_cons, List.flatMap_cons, contents_scan, segments,
        String.toList_ofList, ih,
        filterMap_segmentsFrom_of_isPlaceless isPlaceless_content? .start here]

/-! ## Lines -/

theorem line_of_mem_givenOn {diagnostic : Diagnostic} {here : Position} {entries : List Entry}
    (mem : diagnostic ∈ givenOn Located.diagnostic? here entries) : here.line ≤ diagnostic.line := by
  induction entries generalizing here with
  | nil => cases mem
  | cons entry entries ih =>
    rcases List.mem_append.mp mem with mem | mem
    · exact (line_of_diagnostic mem).1
    · exact Nat.le_trans (Nat.le_add_right _ _) (ih mem)

/-- Whether a line belongs to an entry of white space. The first entry begins on line `first`. -/
def isOnBlankEntry (first line : Nat) : List Entry → Bool
  | [] => false
  | entry :: entries =>
    (isBlankText entry.text && decide (first ≤ line) && decide (line ≤ first + newlines entry.text))
      || isOnBlankEntry (first + newlines entry.typed) line entries

theorem isOnBlankEntry_eq_false {first line : Nat} (before : line < first) (entries : List Entry) :
    isOnBlankEntry first line entries = false := by
  induction entries generalizing first with
  | nil => rfl
  | cons entry entries ih =>
    have notThere : decide (first ≤ line) = false := decide_eq_false (Nat.not_le.mpr before)
    rw [isOnBlankEntry, notThere, Bool.and_false, Bool.false_and, Bool.false_or]
    exact ih (Nat.lt_of_lt_of_le before (Nat.le_add_right _ _))

theorem isOnBlankEntry_of_mem {line first : Nat} {entry : Entry} {entries : List Entry}
    (lower : first ≤ line) (upper : line ≤ first + newlines entry.text)
    (ends : entries = [] ∨ IsLineEnd entry.terminator) :
    isOnBlankEntry first line (entry :: entries) = isBlankText entry.text := by
  have others : isOnBlankEntry (first + newlines entry.typed) line entries = false := by
    rcases ends with rfl | ends
    · rfl
    · refine isOnBlankEntry_eq_false ?_ entries
      rw [Entry.typed, newlines_append, newlines_of_isLineEnd ends]
      omega
  rw [isOnBlankEntry, others, Bool.or_false, decide_eq_true lower, decide_eq_true upper,
    Bool.and_true, Bool.and_true]

theorem isOnBlankEntry_of_lt {line first : Nat} {entry : Entry} (entries : List Entry)
    (behind : first + newlines entry.text < line) :
    isOnBlankEntry first line (entry :: entries)
      = isOnBlankEntry (first + newlines entry.typed) line entries := by
  rw [isOnBlankEntry, decide_eq_false (Nat.not_le.mpr behind), Bool.and_false, Bool.false_or]

/-- The diagnostics of entries that are not of white space. -/
def reportedOn (here : Position) (entries : List Entry) : List Diagnostic :=
  (givenOn Located.diagnostic? here entries).filter fun diagnostic =>
    !isOnBlankEntry here.line diagnostic.line entries

theorem reportedOn_cons {entry : Entry} {entries : List Entry}
    (ends : entries = [] ∨ IsLineEnd entry.terminator) (here : Position) :
    reportedOn here (entry :: entries)
      = (if isBlankText entry.text then []
          else (segmentsFrom here entry.text).filterMap Located.diagnostic?)
        ++ reportedOn (here.after entry.typed) entries := by
  have first : ∀ diagnostic ∈ (segmentsFrom here entry.text).filterMap Located.diagnostic?,
      isOnBlankEntry here.line diagnostic.line (entry :: entries) = isBlankText entry.text := by
    intro diagnostic mem
    obtain ⟨lower, upper⟩ := line_of_diagnostic mem
    exact isOnBlankEntry_of_mem lower upper ends
  have others : ∀ diagnostic ∈ givenOn Located.diagnostic? (here.after entry.typed) entries,
      isOnBlankEntry here.line diagnostic.line (entry :: entries)
        = isOnBlankEntry (here.after entry.typed).line diagnostic.line entries := by
    intro diagnostic mem
    have lower := line_of_mem_givenOn mem
    rcases ends with rfl | ends
    · cases mem
    · refine isOnBlankEntry_of_lt entries ?_
      simp only [Position.after, Entry.typed, newlines_append, newlines_of_isLineEnd ends] at lower
      omega
  rw [reportedOn, givenOn, List.filter_append, reportedOn]
  congr 1
  · by_cases space : isBlankText entry.text = true
    · rw [if_pos space, List.filter_eq_nil_iff]
      intro diagnostic mem
      rw [first diagnostic mem, space]
      decide
    · rw [if_neg space, List.filter_eq_self]
      intro diagnostic mem
      rw [first diagnostic mem, Bool.eq_false_iff.mpr space]
      rfl
  · refine List.filter_congr ?_
    intro diagnostic mem
    rw [others diagnostic mem]

theorem unexpected_sources_cons {entry : Entry} {entries : List Entry} {here : Position}
    (ends : entries = [] ∨ IsLineEnd entry.terminator)
    (others : ((entries.filterMap Entry.source?).map scan).flatMap Scan.unexpected
      = (reportedOn (here.after entry.typed) entries).filterMap Diagnostic.unexpected?) :
    (((entry :: entries).filterMap Entry.source?).map scan).flatMap Scan.unexpected
      = (reportedOn here (entry :: entries)).filterMap Diagnostic.unexpected? := by
  rw [reportedOn_cons ends, List.filterMap_append]
  by_cases space : isBlankText entry.text = true
  · have none : entry.source? = none := if_pos space
    rw [List.filterMap_cons_none none, if_pos space, List.filterMap_nil, List.nil_append, others]
  · have some : entry.source? = some (String.ofList entry.text) := if_neg space
    have free := filterMap_segmentsFrom_of_isPlaceless isPlaceless_unexpected? .start here
      entry.text
    rw [List.filterMap_cons_some some, if_neg space, List.map_cons, List.flatMap_cons,
      unexpected_scan, segments, String.toList_ofList, free, others, List.filterMap_filterMap]
    rfl

/-- **Diagnostics.** Those that a session does not report lie on entries of white space. -/
theorem unexpected_sources {text left : List Char} {entries : List Entry}
    (falls : Falls text entries left) (here : Position) :
    ((entries.filterMap Entry.source?).map scan).flatMap Scan.unexpected
      = (reportedOn here entries).filterMap Diagnostic.unexpected? := by
  induction falls generalizing here with
  | rest left => rfl
  | last text => exact unexpected_sources_cons (.inl rfl) rfl
  | entry lineEnd _ _ ih => exact unexpected_sources_cons (.inr lineEnd) (ih _)

/-! ## Sessions over a pipe -/

section

variable {read : TextReader} {text : String} {entries : List Entry} {left : List Char}

theorem source?_reading {entry : Entry}
    (noCommand : Command.parse? (String.ofList entry.text) = none) :
    entry.reading.source? read = entry.source? := by
  simp only [Entry.reading, Reading.source?, Entry.source?, noCommand, String.toList_ofList]

theorem filterMap_source?_reading
    (noCommand : ∀ entry ∈ entries, Command.parse? (String.ofList entry.text) = none) :
    (entries.map Entry.reading).filterMap (Reading.source? read)
      = entries.filterMap Entry.source? := by
  rw [List.filterMap_map]
  exact List.filterMap_congr fun entry mem => source?_reading (noCommand entry mem)

/-- The scans of a session are all that it shows between the banner and the end of the input. -/
theorem overPipe_of_noCommand (read : TextReader) (entered : IsEntered text entries left)
    (noCommand : ∀ entry ∈ entries, Command.parse? (String.ofList entry.text) = none) :
    (Session.overPipe read text.toUTF8).scans read = (entries.filterMap Entry.source?).map scan ∧
      (Session.overPipe read text.toUTF8).printed
        = Session.banner
          ++ .join ((entries.filterMap Entry.source?).map fun source => (scan source).printed true)
          ++ Ending.endOfInput.farewell ++ Session.goodbye := by
  have lines : entries.map Entry.reading = (entries.map (String.ofList ·.text)).map .line := by
    rw [List.map_map]
    rfl
  have noCommand' : ∀ line ∈ entries.map (String.ofList ·.text), Command.parse? line = none :=
    List.forall_mem_map.mpr noCommand
  let before : Exchange := ⟨{}, Session.banner, []⟩
  have shows : before.session.showTokens = true := rfl
  obtain ⟨answered, printed⟩ := converseAfter_of_noCommand read .endOfInput noCommand' shows
  rw [← lines] at answered printed
  rw [filterMap_source?_reading noCommand] at printed
  constructor
  · simp only [Exchange.scans, Session.overPipe, Session.converse, entered.readings]
    rw [answered, List.append_nil, List.reverse_reverse, filterMap_source?_reading noCommand]
  · simp only [Session.overPipe, Session.converse, entered.readings]
    rw [printed]

/-- What a session over a text shows and scans, held against a scan of all that was entered. -/
structure ScansAsText (read : TextReader) (text : String) (entries : List Entry) : Prop where
  printed :
    (Session.overPipe read text.toUTF8).printed
      = Session.banner
        ++ .join (((Session.overPipe read text.toUTF8).scans read).map (Scan.printed · true))
        ++ Ending.endOfInput.farewell ++ Session.goodbye
  contents :
    ((Session.overPipe read text.toUTF8).scans read).flatMap Scan.contents
      = (scan (String.ofList (typed entries))).contents
  isPrefix : (scan (String.ofList (typed entries))).contents <+: (scan text).contents
  unexpected :
    ((Session.overPipe read text.toUTF8).scans read).flatMap Scan.unexpected
      = ((scan (String.ofList (typed entries))).diagnostics.filter fun diagnostic =>
          !isOnBlankEntry 1 diagnostic.line entries).filterMap Diagnostic.unexpected?
  closed : ∀ result ∈ (Session.overPipe read text.toUTF8).scans read, result.hasOpenString = false

theorem scansAsText (entered : IsEntered text entries left)
    (noCommand : ∀ entry ∈ entries, Command.parse? (String.ofList entry.text) = none) :
    ScansAsText read text entries := by
  obtain ⟨scans, printed⟩ := overPipe_of_noCommand read entered noCommand
  have closed (entry : Entry) (mem : entry ∈ entries) : Segment.IsClosed entry.text :=
    entry.isClosed (entered.complete entry mem) (noCommand entry mem)
  have whole {α : Type} {give : Located → Option α} (silent : IsSilent give) :
      (segmentsFrom .start (typed entries)).filterMap give = givenOn give .start entries := by
    rw [entered.falls.of_typed.filterMap_segmentsFrom silent closed]
    simp
  have contents : (scan (String.ofList (typed entries))).contents
      = givenOn Located.content? .start entries := by
    rw [contents_scan, segments, String.toList_ofList, whole isSilent_content?]
  have diagnostics : (scan (String.ofList (typed entries))).diagnostics
      = givenOn Located.diagnostic? .start entries := by
    rw [scan_diagnostics, segments, String.toList_ofList, whole isSilent_diagnostic?]
  refine ⟨?_, ?_, ?_, ?_, ?_⟩
  · rw [scans, printed, List.map_map]
    rfl
  · rw [scans, contents, contents_sources .start]
  · rw [contents, contents_scan, segments,
      entered.falls.filterMap_segmentsFrom isSilent_content? closed]
    exact List.prefix_append _ _
  · rw [scans, diagnostics, unexpected_sources entered.falls .start]
    rfl
  · rw [scans]
    intro result mem
    obtain ⟨source, mem', rfl⟩ := List.mem_map.mp mem
    obtain ⟨entry, mem'', scanned⟩ := List.mem_filterMap.mp mem'
    simp only [Entry.source?, Option.ite_none_left_eq_some] at scanned
    cases Option.some.inj scanned.2
    exact entry.hasOpenString_eq_false (entered.complete entry mem'') (noCommand entry mem'')

/-- A line that has no dot is no command. -/
theorem parse?_of_notMem {line : String} (noDot : '.' ∉ line.toList) : Command.parse? line = none := by
  unfold Command.parse?
  split
  · rename_i rest trimmed
    have mem : '.' ∈ trim line.toList := trimmed ▸ List.mem_cons_self
    have mem' : '.' ∈ trimStart line.toList := by
      have := (List.dropWhile_suffix _).subset (List.mem_reverse.mp mem)
      exact List.mem_reverse.mp this
    exact absurd ((List.dropWhile_suffix _).subset mem') noDot
  · rfl

theorem parse?_of_mem_readings (noDot : '.' ∉ text.toList) (line : String)
    (mem : Reading.line line ∈ (Input.ofPipe text.toUTF8).readings) :
    Command.parse? line = none := by
  obtain ⟨entries, left, entered⟩ := exists_isEntered text
  rw [entered.readings] at mem
  obtain ⟨entry, mem', same⟩ := List.mem_map.mp mem
  cases Reading.line.inj same
  apply parse?_of_notMem
  rw [String.toList_ofList]
  intro dot
  apply noDot
  rw [← entered.falls.typed_append]
  apply List.mem_append_left
  exact List.mem_flatMap.mpr ⟨entry, mem', List.mem_append_left _ dot⟩

/-- **A session scans what a scan of its input scans**, if nothing entered is a command. -/
theorem overPipe_scansAsText (read : TextReader) (text : String)
    (noCommand : ∀ line, Reading.line line ∈ (Input.ofPipe text.toUTF8).readings →
      Command.parse? line = none) :
    ∃ entries left, IsEntered text entries left ∧ ScansAsText read text entries := by
  obtain ⟨entries, left, entered⟩ := exists_isEntered text
  refine ⟨entries, left, entered, scansAsText entered ?_⟩
  intro entry mem
  refine noCommand _ ?_
  rw [entered.readings]
  exact List.mem_map_of_mem mem

/-- A string and a bracket go on over line ends of both kinds, a line holds white space that Lox has no place
for, and a bracket is still open at the end. -/
theorem overPipe_scansAsText_unfinished :
    let read : TextReader := fun _ => .error .notFound
    let text := "print \"a\r\nb\" $;\n\u00a0\nfoo(1,\r\n2) // c\r\n(x,"
    (∀ line, Reading.line line ∈ (Input.ofPipe text.toUTF8).readings →
      Command.parse? line = none) ∧
      ∃ entries left, IsEntered text entries left ∧ ScansAsText read text entries := by
  intro read text
  have noDot : '.' ∉ text.toList := by decide
  have noCommand := parse?_of_mem_readings noDot
  exact ⟨noCommand, overPipe_scansAsText read text noCommand⟩

end

end LoxLexing
