import LoxLexing.Proofs.Brackets
import LoxLexing.Proofs.Groups
import LoxLexing.Proofs.SessionScans

/-!
# How a session deals with what comes from a pipe

A session over a pipe reads its input in groups of lines.

**The law** (`overPipe_keepsProtocol`): a session over a text deals with the groups one after another, each in
the one way that its text calls for (`Handled`): a blank one is passed over, a command is done, anything else is
scanned. So no string is open at the end of what is scanned, and every bracket is closed. The lines left over
might as well be absent, and so might all that comes behind the first group that is the command to leave.

**What it does not establish.** Nothing is said of what a command does; of an input that is no text; and of
where a terminal would cut its lines.
-/

namespace LoxLexing

/-! ## How a session deals with groups -/

/-- Dealing with groups one after another: what a session prints and is left with, and whether a command
ended it. -/
inductive Handled (read : TextReader) : Session → List (List (List Char)) → Answer → Prop where
  | finished (session : Session) : Handled read session [] { session }
  /-- A blank group is passed over. -/
  | blank {session : Session} {group : List (List Char)} {groups : List (List (List Char))}
      {reply : Answer} (space : isBlankText (entered group).toList = true)
      (later : Handled read session groups reply) : Handled read session (group :: groups) reply
  /-- A command is done. -/
  | command {session : Session} {group : List (List Char)} {groups : List (List (List Char))}
      {reply : Answer} {command : Command} {argument : Option String}
      (parsed : Command.parse? (entered group) = some (command, argument)) (stays : command ≠ .exit)
      (later : Handled read (session.execute read command argument).session groups reply) :
      Handled read session (group :: groups)
        { reply with printed := (session.execute read command argument).printed ++ reply.printed }
  /-- The command to leave ends the session, whatever comes behind it. -/
  | leave {group : List (List Char)} {argument : Option String}
      (parsed : Command.parse? (entered group) = some (.exit, argument)) (session : Session)
      (groups : List (List (List Char))) :
      Handled read session (group :: groups) { session, leaves := true }
  /-- Anything else is source that is not open. Its scan is printed, and the diagnostics of it are held. -/
  | source {session : Session} {group : List (List Char)} {groups : List (List (List Char))}
      {reply : Answer} (notBlank : isBlankText (entered group).toList = false)
      (noCommand : Command.parse? (entered group) = none) (closed : needsMore (entered group) = false)
      (later : Handled read { session with diagnostics := (scan (entered group)).diagnostics } groups reply) :
      Handled read session (group :: groups)
        { reply with printed := (scan (entered group)).printed session.showTokens ++ reply.printed }

/-! ## One answer -/

section

variable {read : TextReader} {session : Session} {line : String} {command : Command}
  {argument : Option String}

/-- White space is no command. -/
theorem parse?_of_isBlankText (space : isBlankText line.toList = true) :
    Command.parse? line = none := by
  have nothing : trim line.toList = [] := by
    rw [trim, trimStart, List.dropWhile_eq_nil_iff.mpr (List.all_eq_true.mp space)]
    rfl
  simp only [Command.parse?, nothing]

theorem respond_of_isBlankText (space : isBlankText line.toList = true) :
    session.respond read (.line line) = { session } := by
  rw [Session.respond, Session.answer, if_pos space]

theorem respond_of_parse? (parsed : Command.parse? line = some (command, argument)) :
    session.respond read (.line line) = session.execute read command argument := by
  have notBlank : ¬ isBlankText line.toList = true := by
    intro space
    rw [parse?_of_isBlankText space] at parsed
    cases parsed
  simp only [Session.respond, Session.answer, if_neg notBlank, parsed]

/-- Only the command to leave ends a session. -/
theorem leaves_execute_of_ne_exit (stays : command ≠ .exit) :
    (session.execute read command argument).leaves = false := by
  cases command with
  | exit => exact absurd rfl stays
  | load =>
    cases argument with
    | none => rfl
    | some path =>
      simp only [Session.execute, Session.load]
      split <;> rfl
  | _ => rfl

theorem respond_of_source (notBlank : isBlankText line.toList = false)
    (noCommand : Command.parse? line = none) :
    session.respond read (.line line)
      = { session := { session with diagnostics := (scan line).diagnostics },
          printed := (scan line).printed session.showTokens } := by
  refine respond_of_source? ?_
  simp only [Reading.source?, notBlank, noCommand, Bool.false_eq_true, if_false]

end

/-! ## A whole run -/

section

variable {read : TextReader} {ending : Ending} {before : Exchange} {reading : Reading}

theorem converseAfter_of_stays (readings : List Reading)
    (stays : (before.session.respond read reading).leaves = false) :
    Session.converseAfter read ending before (reading :: readings)
      = Session.converseAfter read ending
          ⟨(before.session.respond read reading).session,
            before.printed ++ (before.session.respond read reading).printed,
            reading :: before.answered⟩ readings := by
  rw [Session.converseAfter, if_neg (Bool.eq_false_iff.mp stays)]

theorem converseAfter_of_leaves (readings : List Reading)
    (leaves : (before.session.respond read reading).leaves = true) :
    Session.converseAfter read ending before (reading :: readings)
      = ⟨(before.session.respond read reading).session,
          before.printed ++ (before.session.respond read reading).printed,
          reading :: before.answered⟩ := by
  rw [Session.converseAfter, if_pos leaves]

/-- What comes behind a reading that ends the session is not looked at. -/
theorem converseAfter_append_of_leaves {ending' : Ending} (front behind behind' : List Reading)
    (leaves : ∀ session : Session, (session.respond read reading).leaves = true) :
    Session.converseAfter read ending before (front ++ reading :: behind)
      = Session.converseAfter read ending' before (front ++ reading :: behind') := by
  induction front generalizing before with
  | nil =>
    rw [List.nil_append, List.nil_append, converseAfter_of_leaves behind (leaves _),
      converseAfter_of_leaves behind' (leaves _)]
  | cons first front ih =>
    rw [List.cons_append, List.cons_append]
    cases ends : (before.session.respond read first).leaves with
    | false => rw [converseAfter_of_stays _ ends, converseAfter_of_stays _ ends, ih]
    | true => rw [converseAfter_of_leaves _ ends, converseAfter_of_leaves _ ends]

/-- How an exchange that stood at `before` is done, if what is left of it comes to `reply`. -/
structure IsDone (ending : Ending) (before : Exchange) (reply : Answer) (done : Exchange) : Prop where
  session : done.session = reply.session
  printed : done.printed = before.printed ++ (reply.printed ++ if reply.leaves then {} else ending.farewell)

/-- An answer after which the session goes on comes in front of what is left. -/
theorem isDone_of_stays {first reply : Answer} {readings : List Reading}
    (answered : before.session.respond read reading = first) (stays : first.leaves = false)
    (later : ∀ sofar : Exchange, sofar.session = first.session →
      IsDone ending sofar reply (Session.converseAfter read ending sofar readings)) :
    IsDone ending before { reply with printed := first.printed ++ reply.printed }
      (Session.converseAfter read ending before (reading :: readings)) := by
  subst answered
  let sofar : Exchange :=
    ⟨(before.session.respond read reading).session,
      before.printed ++ (before.session.respond read reading).printed, reading :: before.answered⟩
  obtain ⟨session, printed⟩ := later sofar rfl
  rw [converseAfter_of_stays readings stays]
  refine ⟨session, ?_⟩
  rw [printed, Transcript.append_assoc, Transcript.append_assoc]

/-- A session that reads groups deals with them. -/
theorem isDone_of_handled {session : Session} {groups : List (List (List Char))} {reply : Answer}
    (handled : Handled read session groups reply) (begins : before.session = session) :
    IsDone ending before reply
      (Session.converseAfter read ending before (groups.map groupReading)) := by
  induction handled generalizing before with
  | finished session =>
    refine ⟨begins, ?_⟩
    simp [Session.converseAfter]
  | @blank session group groups reply space _ ih =>
    have answered : before.session.respond read (groupReading group) = { session } := by
      rw [begins, groupReading, respond_of_isBlankText space]
    have := isDone_of_stays answered rfl fun sofar same => ih same
    rwa [Transcript.nothing_append] at this
  | command parsed stays _ ih =>
    refine isDone_of_stays ?_ (leaves_execute_of_ne_exit stays) fun sofar same => ih same
    rw [begins, groupReading, respond_of_parse? parsed]
  | @leave group argument parsed session groups =>
    have answered : before.session.respond read (groupReading group) = { session, leaves := true } := by
      rw [begins, groupReading, respond_of_parse? parsed]
      rfl
    have leaves : (before.session.respond read (groupReading group)).leaves = true := by rw [answered]
    rw [List.map_cons, converseAfter_of_leaves _ leaves, answered]
    exact ⟨rfl, by simp⟩
  | source notBlank noCommand _ _ ih =>
    subst begins
    exact isDone_of_stays (respond_of_source notBlank noCommand) rfl fun sofar same => ih same

/-- There is a way to deal with all groups. -/
theorem exists_handled (read : TextReader) (session : Session) {groups : List (List (List Char))}
    (submitted : ∀ group ∈ groups, IsSubmitted group) :
    ∃ reply, Handled read session groups reply := by
  induction groups generalizing session with
  | nil => exact ⟨_, .finished session⟩
  | cons group groups ih =>
    obtain ⟨first, submitted⟩ := List.forall_mem_cons.mp submitted
    match parsed : Command.parse? (entered group) with
    | some (.exit, argument) => exact ⟨_, .leave parsed session groups⟩
    | some (command, argument) =>
      by_cases leaves : command = .exit
      · subst leaves
        exact ⟨_, .leave parsed session groups⟩
      · obtain ⟨reply, later⟩ := ih (session.execute read command argument).session submitted
        exact ⟨_, .command parsed leaves later⟩
    | none =>
      cases space : isBlankText (entered group).toList with
      | true =>
        obtain ⟨reply, later⟩ := ih session submitted
        exact ⟨reply, .blank space later⟩
      | false =>
        have closed : needsMore (entered group) = false := first.resolve_left fun some => some parsed
        obtain ⟨reply, later⟩ := ih { session with diagnostics := (scan (entered group)).diagnostics } submitted
        exact ⟨_, .source space parsed closed later⟩

end

/-! ## Sessions over a pipe -/

section

variable {text : String} {groups : List (List (List Char))} {left : List (List Char)}

/-- A session over a text reads its groups. -/
theorem overPipe_of_grouped (read : TextReader)
    (grouped : Grouped (textLines text.toList) groups left) :
    Session.overPipe read text.toUTF8
      = Session.converse read {} ⟨groups.map groupReading, .endOfInput⟩ := by
  obtain ⟨groups', left', grouped', readings⟩ := exists_grouped text
  obtain ⟨rfl, rfl⟩ := grouped.unique grouped'
  rw [Session.overPipe, readings]

/-- Source that is not open leaves no string and no bracket open. -/
theorem closed_of_needsMore {input : String} (closed : needsMore input = false) :
    (∀ diagnostic ∈ (scan input).diagnostics, diagnostic.error ≠ .unterminatedString) ∧
      BracketsClosed (scan input).tokens := by
  simp only [needsMore, Scan.isOpen, Bool.or_eq_false_iff, Bool.not_eq_false'] at closed
  refine ⟨?_, isBalanced_iff_bracketsClosed.mp closed.1.2⟩
  intro diagnostic mem same
  have := List.any_eq_false.mp closed.1.1 diagnostic mem
  rw [same] at this
  exact this rfl

/-- What a session over a text does with the lines of the text. -/
structure KeepsProtocol (read : TextReader) (text : String) (groups : List (List (List Char)))
    (left : List (List Char)) : Prop where
  grouped : Grouped (textLines text.toList) groups left
  unique : ∀ groups' left', Grouped (textLines text.toList) groups' left' →
    groups' = groups ∧ left' = left
  handled : ∃ reply, Handled read {} groups reply
  /-- The groups decide all that is printed, and the session that is left. -/
  exchange : ∀ reply, Handled read {} groups reply →
    (Session.overPipe read text.toUTF8).session = reply.session ∧
      (Session.overPipe read text.toUTF8).printed
        = Session.banner ++ (reply.printed ++ if reply.leaves then {} else Ending.endOfInput.farewell)
          ++ Session.goodbye
  /-- Nothing is open at the end of a group that is source. -/
  closed : ∀ group ∈ groups, Command.parse? (entered group) = none →
    (∀ diagnostic ∈ (scan (entered group)).diagnostics, diagnostic.error ≠ .unterminatedString) ∧
      BracketsClosed (scan (entered group)).tokens
  /-- The lines left over change nothing. -/
  leftOver : Session.overPipe read (String.ofList groups.flatten.flatten).toUTF8
    = Session.overPipe read text.toUTF8
  /-- Nor does any text that goes on differently behind the command to leave. -/
  behindExit : ∀ front group behind argument, groups = front ++ group :: behind →
    Command.parse? (entered group) = some (.exit, argument) →
    ∀ (text' : String) (others : List (List Char)),
      textLines text'.toList = (front ++ [group]).flatten ++ others →
      Session.overPipe read text'.toUTF8 = Session.overPipe read text.toUTF8

/-- **A session over a text deals with the groups of its lines**, each once and in order, up to the command to
leave. -/
theorem overPipe_keepsProtocol (read : TextReader) (text : String) :
    ∃ groups left, KeepsProtocol read text groups left := by
  obtain ⟨groups, left, grouped, readings⟩ := exists_grouped text
  have session := overPipe_of_grouped read grouped
  have submitted : ∀ group ∈ groups, IsSubmitted group :=
    fun group mem => (grouped.isGroup group mem).submitted
  refine ⟨groups, left, grouped, fun _ _ => grouped.unique, exists_handled read {} submitted,
    ?_, ?_, ?_, ?_⟩
  · intro reply handled
    let before : Exchange := ⟨{}, Session.banner, []⟩
    have ends : IsDone .endOfInput before reply _ := isDone_of_handled handled rfl
    rw [session]
    exact ⟨ends.session, congrArg (· ++ Session.goodbye) ends.printed⟩
  · intro group mem noCommand
    exact closed_of_needsMore ((submitted group mem).resolve_left fun some => some noCommand)
  · have lines : textLines (String.ofList groups.flatten.flatten).toList = groups.flatten := by
      rw [String.toList_ofList]
      exact textLines_flatten grouped.flatten_append.symm
    have grouped' := grouped.of_flatten
    rw [← lines] at grouped'
    rw [session, overPipe_of_grouped read grouped']
  · rintro front group behind argument rfl parsed text' others lines
    obtain ⟨groups', left', grouped', -⟩ := exists_grouped text'
    have session' := overPipe_of_grouped read grouped'
    rw [lines] at grouped'
    have areGroups : ∀ g ∈ front ++ [group], IsGroup g := by
      intro g mem
      refine grouped.isGroup g ?_
      rw [List.append_cons]
      exact List.mem_append_left _ mem
    obtain ⟨later, rfl, -⟩ := grouped'.of_flatten_append areGroups
    have leaves (session : Session) :
        (session.respond read (groupReading group)).leaves = true := by
      rw [groupReading, respond_of_parse? parsed]
      rfl
    rw [session, session', List.append_assoc, List.singleton_append, Session.converse,
      Session.converse, List.map_append, List.map_append, List.map_cons, List.map_cons,
      converseAfter_append_of_leaves _ _ _ leaves]

end

end LoxLexing
