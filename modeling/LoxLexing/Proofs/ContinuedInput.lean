import LoxLexing.Prompt.Highlight
import LoxLexing.Prompt.Terminal
import LoxLexing.Proofs.OpenInput
import LoxLexing.Proofs.PipedSession
import LoxLexing.Proofs.ReadingProtocol
import LoxLexing.Proofs.Trimming

/-!
# Input that goes on is no command

A line is a command because of how it begins: with a dot and the word of a command, which is over when white
space comes (`commandWord?`, `map_fst_parse?`). What is added behind a text in a new line cannot become part of
that word. So an input that is open, and was no command when its last line was entered, does not become one,
whatever its further lines hold (`parse?_append`).

**The law** (`isSource_of_continued`): such an input is scanned once it is entered, and does not end the session.
This holds of every group of several lines that comes from a pipe, and of a text that is typed at a terminal,
where lines are added to an open one key by key. Moreover the white space around a line does not matter: what the
prompt takes a line for, when it is entered, while it is coloured and when it is answered, is what the trimmed
line is read as.

**What it does not establish.** At a terminal a line can be recalled from the history in the place of what was
typed. What is recalled may be any text.
-/

namespace LoxLexing

/-! ## The word of a command -/

/-- The word behind a dot at the start of a text, if there is a dot. -/
def commandWord? (text : List Char) : Option (List Char) :=
  if (trimStart text).head? = some '.' then some (firstWord (trimStart text).tail) else none

/-- A line without the white space around it. -/
def trimmedLine (line : String) : String :=
  String.ofList (trim line.toList)

/-- The white space around a line does not matter for what it commands. -/
theorem parse?_trimmedLine (line : String) :
    Command.parse? (trimmedLine line) = Command.parse? line := by
  rw [Command.parse?, trimmedLine, String.toList_ofList, trim_trim, Command.parse?]

/-- What is commanded is decided by the word behind the dot. -/
theorem map_fst_parse? (line : String) :
    (Command.parse? line).map Prod.fst
      = (commandWord? line.toList).bind fun word =>
        Command.ofSpelling? (String.ofList (lowerCase word)) := by
  have stops := stops_trimStart line.toList
  unfold Command.parse? commandWord? trim
  cases begins : trimStart line.toList with
  | nil => rfl
  | cons c rest =>
    rw [begins] at stops
    rw [trimEnd_cons (stops_cons.mp stops), List.head?_cons, List.tail_cons]
    by_cases dot : c = '.'
    · subst dot
      have word : (trimEnd rest).takeWhile (!isWhiteSpace ·) = firstWord rest := firstWord_trimEnd rest
      simp only [word, if_true, Option.bind_some, Option.map_map]
      exact Option.map_id'
    · rw [if_neg fun same => dot (Option.some.inj same)]
      split
      · rename_i same
        exact absurd (List.cons.inj same).1 dot
      · rfl

/-- The word of a command ends before white space. -/
theorem commandWord?_append {front : List Char} {c : Char} (notBlank : isBlankText front = false)
    (space : isWhiteSpace c = true) (behind : List Char) :
    commandWord? (front ++ c :: behind) = commandWord? front := by
  have stops : Stops (!isWhiteSpace ·) (c :: behind) := by
    rw [stops_cons, space]
    rfl
  have visible : trimStart front ≠ [] := by
    intro nothing
    rw [isBlankText, List.all_eq_false] at notBlank
    obtain ⟨d, mem, visible⟩ := notBlank
    exact visible (List.dropWhile_eq_nil_iff.mp nothing d mem)
  have begins : trimStart (front ++ c :: behind) = trimStart front ++ c :: behind := by
    unfold trimStart at visible ⊢
    rw [List.dropWhile_append, if_neg (mt List.isEmpty_iff.mp visible)]
  obtain ⟨d, rest, same⟩ := List.exists_cons_of_ne_nil visible
  simp only [commandWord?, begins, same, List.cons_append, List.head?_cons, List.tail_cons,
    firstWord_append rest stops]

/-- What is added to a text behind white space does not make it a command. -/
theorem parse?_append {front : List Char} {c : Char} {behind : List Char}
    (notBlank : isBlankText front = false) (noCommand : Command.parse? (String.ofList front) = none)
    (space : isWhiteSpace c = true) : Command.parse? (String.ofList (front ++ c :: behind)) = none := by
  rw [← Option.map_eq_none_iff (f := Prod.fst), map_fst_parse?, String.toList_ofList] at noCommand ⊢
  rw [commandWord?_append notBlank space, noCommand]

/-! ## Open input -/

section

variable {input line : String}

/-- White space leaves nothing open, for Lox has blanks and characters without a place in it, and no more. -/
theorem needsMore_of_isBlankText (space : isBlankText input.toList = true) : needsMore input = false := by
  have noToken : (segments input).filterMap Located.token? = [] := by
    have noContent := contents_of_isBlankText space .start
    unfold Located.content? at noContent
    rw [← List.map_filterMap] at noContent
    exact List.map_eq_nil_iff.mp noContent
  have noKind : Segment.kinds (Segment.sequence input.toList) = [] := by
    rw [kinds_sequence, noToken, List.map_nil]
  rw [needsMore_eq_false_iff]
  refine ⟨?_, ?_, ?_⟩
  · intro body mem
    have quote : '"' ∈ input.toList := by
      rw [← Segment.flatMap_text_sequence input.toList]
      exact List.mem_flatMap.mpr ⟨_, mem, List.mem_cons_self⟩
    exact absurd (List.all_eq_true.mp space '"' quote) (by decide)
  · rw [noKind]
    rfl
  · rw [noKind]
    intro kind mem
    cases mem

theorem isComplete_eq_false_iff :
    isComplete input = false ↔ Command.parse? input = none ∧ needsMore input = true := by
  rw [isComplete, Bool.or_eq_false_iff, Option.isSome_eq_false_iff, Option.isNone_iff_eq_none,
    Bool.not_eq_false']

theorem isBlankText_eq_false_of_needsMore (more : needsMore input = true) :
    isBlankText input.toList = false := by
  rw [Bool.eq_false_iff]
  intro space
  rw [needsMore_of_isBlankText space] at more
  cases more

/-- A line end begins with white space. -/
theorem exists_terminator_eq_cons {terminator : List Char} (lineEnd : IsLineEnd terminator) :
    ∃ c rest, terminator = c :: rest ∧ isWhiteSpace c = true := by
  rcases lineEnd with rfl | rfl
  · exact ⟨'\n', [], rfl, rfl⟩
  · exact ⟨'\r', ['\n'], rfl, rfl⟩

/-- A text that the prompt scans, and goes on: it prints the scan, and holds the diagnostics of it. -/
structure IsSource (text : String) : Prop where
  noCommand : Command.parse? text = none
  scanned : ∀ (read : TextReader) (session : Session),
    session.respond read (.line text)
      = { session := { session with diagnostics := (scan text).diagnostics },
          printed := (scan text).printed session.showTokens }
  stays : ∀ (read : TextReader) (session : Session),
    (session.respond read (.line text)).leaves = false

theorem isSource_of_notBlank (notBlank : isBlankText input.toList = false)
    (noCommand : Command.parse? input = none) : IsSource input := by
  refine ⟨noCommand, fun _ _ => respond_of_source notBlank noCommand, ?_⟩
  intro read session
  rw [respond_of_source notBlank noCommand]

/-- Whatever comes behind white space, an open input that is no command is source. -/
theorem isSource_append {c : Char} (noCommand : Command.parse? input = none)
    (more : needsMore input = true) (space : isWhiteSpace c = true) (behind : List Char) :
    IsSource (String.ofList (input.toList ++ c :: behind)) := by
  have notBlank := isBlankText_eq_false_of_needsMore more
  apply isSource_of_notBlank
  · rw [isBlankText, List.all_eq_false] at notBlank ⊢
    obtain ⟨d, mem, visible⟩ := notBlank
    rw [String.toList_ofList]
    exact ⟨d, List.mem_append_left _ mem, visible⟩
  · apply parse?_append notBlank _ space
    rw [String.ofList_toList]
    exact noCommand

end

/-! ## From a pipe -/

section

variable {lines group behind left : List (List Char)} {groups : List (List (List Char))}

/-- A group of several lines is source, since its first lines are open. -/
theorem isSource_of_isGroup (isGroup : IsGroup group) (areLines : AreLines (group ++ behind))
    (several : 1 < group.length) : IsSource (entered group) := by
  obtain ⟨front, line, rfl⟩ := (List.eq_nil_or_concat' group).resolve_left isGroup.nonempty
  have nonempty : front ≠ [] := by
    rintro rfl
    exact Nat.lt_irrefl 1 several
  have incomplete : ¬ IsSubmitted front := by
    intro submitted
    have whole := isGroup.shortest front (List.prefix_append front [line]) nonempty submitted
    have shorter := congrArg List.length whole
    rw [List.length_append, List.length_singleton] at shorter
    omega
  rw [← isComplete_entered_iff, Bool.not_eq_true, isComplete_eq_false_iff] at incomplete
  obtain ⟨noCommand, more⟩ := incomplete
  rw [List.append_assoc, List.singleton_append] at areLines
  have feed := areLines.getLast?_flatten (List.cons_ne_nil line behind) nonempty
  obtain ⟨c, rest, terminator, space⟩ := exists_terminator_eq_cons (isLineEnd_splitTerminator feed)
  have source := isSource_append noCommand more space (rest ++ (splitTerminator line).1)
  rw [entered, String.toList_ofList, ← List.cons_append, ← terminator, ← List.append_assoc,
    append_splitTerminator] at source
  rw [entered_concat areLines rfl]
  exact source

theorem isSource_of_grouped (grouped : Grouped lines groups left) (areLines : AreLines lines) :
    ∀ group ∈ groups, 1 < group.length → IsSource (entered group) := by
  induction grouped with
  | rest _ => exact List.forall_mem_nil _
  | group first _ ih =>
    exact List.forall_mem_cons.mpr ⟨isSource_of_isGroup first areLines, ih areLines.of_append⟩

end

/-! ## At a terminal -/

/-- Whether a text is an input that was found open when its line ended, and what was added since then. -/
def IsContinued (text : String) : Prop :=
  ∃ front behind, isComplete front = false ∧ text = front ++ "\n" ++ behind

theorem IsContinued.append {text : String} (continued : IsContinued text) (more : String) :
    IsContinued (text ++ more) := by
  obtain ⟨front, behind, incomplete, rfl⟩ := continued
  exact ⟨front, behind ++ more, incomplete, String.append_assoc⟩

theorem IsContinued.push {text : String} (continued : IsContinued text) (c : Char) :
    IsContinued (text.push c) := by
  rw [← String.append_singleton]
  exact continued.append _

/-- A text goes on being continued until it is entered, unless another one is recalled in its place. -/
theorem isContinued_of_edit {history : History} {draft : Draft} {keys : List Key} {text : String}
    (continued : IsContinued draft.text) (noRecall : Key.previous ∉ keys)
    (entered : draft.edit history keys = .reading (.line text)) : IsContinued text := by
  induction keys generalizing draft with
  | nil => cases entered
  | cons key keys ih =>
    have noRecall' : Key.previous ∉ keys := fun mem => noRecall (List.mem_cons_of_mem _ mem)
    cases key with
    | enter =>
      rw [Draft.edit] at entered
      split at entered
      · cases entered
        exact continued
      · exact ih (continued.push _) noRecall' entered
    | interrupt => cases entered
    | endOfInput =>
      rw [Draft.edit] at entered
      split at entered
      · cases entered
      · exact ih continued noRecall' entered
    | complete =>
      have completed : IsContinued draft.complete.text := by
        unfold Draft.complete
        split
        · exact continued
        · exact continued.append _
      exact ih completed noRecall' entered
    | previous => exact absurd List.mem_cons_self noRecall
    | character c => exact ih (continued.push c) noRecall' entered

theorem IsContinued.isSource {text : String} (continued : IsContinued text) : IsSource text := by
  obtain ⟨front, behind, incomplete, rfl⟩ := continued
  obtain ⟨noCommand, more⟩ := isComplete_eq_false_iff.mp incomplete
  rw [← String.ofList_toList (s := front ++ "\n" ++ behind), toList_append_newline]
  exact isSource_append noCommand more rfl behind.toList

/-- Behind the end of a line that is open, all that is typed is part of a source. -/
theorem isSource_of_edit {history : History} {draft : Draft} {keys : List Key} {text : String}
    (noCommand : Command.parse? draft.text = none) (more : needsMore draft.text = true)
    (noRecall : Key.previous ∉ keys)
    (entered : draft.edit history (.enter :: keys) = .reading (.line text)) : IsSource text := by
  have incomplete : isComplete draft.text = false := isComplete_eq_false_iff.mpr ⟨noCommand, more⟩
  rw [Draft.edit, if_neg (Bool.eq_false_iff.mp incomplete)] at entered
  have continued : IsContinued (draft.text.push '\n') := by
    refine ⟨draft.text, "", incomplete, ?_⟩
    rw [String.append_empty, ← String.append_singleton]
    rfl
  exact (isContinued_of_edit continued noRecall entered).isSource

/-! ## The law -/

/-- What the prompt takes a line for, if it is read as `reading`. -/
structure IsTakenAs (line : String) (reading : Option (Command × Option String)) : Prop where
  /-- While it is entered. -/
  complete : isComplete line = (reading.isSome || !needsMore line)
  /-- While it is coloured. -/
  highlighted : highlight line
    = if reading.isSome then [.coloured .magenta line]
      else (spacedTokens line).flatMap (Spaced.highlight (scan line).hasOpenString)
  /-- When it is answered. -/
  command : ∀ command argument, reading = some (command, argument) →
    ∀ (read : TextReader) (session : Session),
      session.respond read (.line line) = session.execute read command argument
  source : reading = none → ∀ (read : TextReader) (session : Session),
    session.respond read (.line line)
      = if isBlankText line.toList then { session }
        else
          { session := { session with diagnostics := (scan line).diagnostics },
            printed := (scan line).printed session.showTokens }

theorem isTakenAs_parse? (line : String) : IsTakenAs line (Command.parse? line) where
  complete := rfl
  highlighted := rfl
  command _ _ parsed _ _ := respond_of_parse? parsed
  source noCommand read session := by
    split
    · rename_i blank
      exact respond_of_isBlankText blank
    · rename_i visible
      exact respond_of_source (Bool.eq_false_iff.mpr visible) noCommand

/-- **A line that goes on with open input makes no command of it.** The whole is source, however it comes. And for
every line, commands are told from source by the trimmed line alone. -/
theorem isSource_of_continued :
    (∀ front behind : String, Command.parse? front = none → needsMore front = true →
      IsSource (front ++ "\n" ++ behind)) ∧
      (∀ (text : String) (groups : List (List (List Char))) (left : List (List Char)),
        Grouped (textLines text.toList) groups left →
        ∀ group ∈ groups, 1 < group.length → IsSource (entered group)) ∧
      (∀ (history : History) (draft : Draft) (keys : List Key) (text : String),
        Command.parse? draft.text = none → needsMore draft.text = true → Key.previous ∉ keys →
        draft.edit history (.enter :: keys) = .reading (.line text) → IsSource text) ∧
      ∀ line : String, Command.parse? (trimmedLine line) = Command.parse? line ∧
        IsTakenAs line (Command.parse? (trimmedLine line)) := by
  refine ⟨?_, ?_, ?_, ?_⟩
  · intro front behind noCommand more
    have incomplete := isComplete_eq_false_iff.mpr ⟨noCommand, more⟩
    exact IsContinued.isSource ⟨front, behind, incomplete, rfl⟩
  · intro text groups left grouped
    exact isSource_of_grouped grouped (areLines_textLines text.toList)
  · intro history draft keys text noCommand more noRecall entered
    exact isSource_of_edit noCommand more noRecall entered
  · intro line
    rw [parse?_trimmedLine]
    exact ⟨rfl, isTakenAs_parse? line⟩

/-- The command to leave in a call that goes over two lines, from a pipe and from a terminal. -/
theorem isSource_of_continued_exit :
    let text := "f(\n.exit)"
    let group := ["f(\n".toList, ".exit)".toList]
    let keys := [Key.character '.', .character 'e', .complete, .character ')', .enter]
    (Command.parse? "f(" = none ∧ needsMore "f(" = true ∧ IsSource ("f(" ++ "\n" ++ ".exit)")) ∧
      (Grouped (textLines text.toList) [group] [] ∧ 1 < group.length ∧ IsSource (entered group)) ∧
      (Key.previous ∉ keys ∧
        Draft.edit {} ⟨"f(", 0⟩ (.enter :: keys) = .reading (.line text) ∧ IsSource text) := by
  intro text group keys
  obtain ⟨added, piped, typed, -⟩ := isSource_of_continued
  have noCommand : Command.parse? "f(" = none := by decide +kernel
  have more : needsMore "f(" = true := by decide +kernel
  have first : isComplete (entered ([] ++ ["f(\n".toList])) = false := by decide +kernel
  have both : isComplete (entered ([] ++ ["f(\n".toList] ++ [".exit)".toList])) = true := by decide +kernel
  have pending := isPending_nil.concat (mt isComplete_entered_iff.mpr (Bool.eq_false_iff.mp first))
  have isGroup : IsGroup group := pending.isGroup_concat (isComplete_entered_iff.mp both)
  have lines : textLines text.toList = group ++ [] := by decide +kernel
  have grouped : Grouped (textLines text.toList) [group] [] := lines ▸ .group isGroup (.rest isPending_nil)
  have noRecall : Key.previous ∉ keys := by decide
  have isEntered : Draft.edit {} ⟨"f(", 0⟩ (.enter :: keys) = .reading (.line text) := by decide +kernel
  exact ⟨⟨noCommand, more, added "f(" ".exit)" noCommand more⟩,
    ⟨grouped, by decide, piped text [group] [] grouped group List.mem_cons_self (by decide)⟩,
    noRecall, isEntered, typed {} ⟨"f(", 0⟩ keys text noCommand more noRecall isEntered⟩

end LoxLexing
