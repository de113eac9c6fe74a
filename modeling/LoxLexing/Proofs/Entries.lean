import LoxLexing.Proofs.Groups

/-!
# Entries

What is entered at the prompt is the text of a group of lines, without the line end behind it. Together the two
are an **entry**.

**The law** (`exists_isEntered`): a text from a pipe falls into entries and an unfinished rest. Nothing is lost
between them, the texts of the entries are the entered lines, and the input is at its end behind them. Only the
last entry may lack its line end, and then there is no rest.
-/

namespace LoxLexing

/-! ## Entries -/

/-- An entered line with the line end behind it. -/
structure Entry where
  text : List Char
  terminator : List Char
deriving DecidableEq, Repr

namespace Entry

/-- All that was typed. -/
def typed (entry : Entry) : List Char :=
  entry.text ++ entry.terminator

/-- What is read of it. -/
def reading (entry : Entry) : Reading :=
  .line (String.ofList entry.text)

/-- Whether it was rightly entered. -/
def IsComplete (entry : Entry) : Prop :=
  isComplete (String.ofList entry.text) = true

end Entry

/-- How a text falls into entries and a rest. Only at the end of the text may an entry lack its line end, and
then there is no rest. -/
inductive Falls : List Char → List Entry → List Char → Prop where
  | rest (left : List Char) : Falls left [] left
  | last (text : List Char) : Falls text [⟨text, []⟩] []
  | entry {terminator behind left : List Char} {entries : List Entry}
      (lineEnd : IsLineEnd terminator) (later : Falls behind entries left) (text : List Char) :
      Falls (text ++ (terminator ++ behind)) (⟨text, terminator⟩ :: entries) left

/-- What a text without its rest is. -/
def typed (entries : List Entry) : List Char :=
  entries.flatMap Entry.typed

@[simp] theorem typed_nil : typed [] = [] := rfl

@[simp] theorem typed_cons (entry : Entry) (entries : List Entry) :
    typed (entry :: entries) = entry.text ++ (entry.terminator ++ typed entries) := by
  rw [typed, List.flatMap_cons, Entry.typed, List.append_assoc]
  rfl

/-- Nothing is lost between entries. -/
theorem Falls.typed_append {text left : List Char} {entries : List Entry}
    (falls : Falls text entries left) : typed entries ++ left = text := by
  induction falls with
  | rest left => rfl
  | last text => simp
  | entry _ _ _ ih => rw [typed_cons, List.append_assoc, List.append_assoc, ih]

/-- What was entered falls into the same entries, without a rest. -/
theorem Falls.of_typed {text left : List Char} {entries : List Entry}
    (falls : Falls text entries left) : Falls (typed entries) entries [] := by
  induction falls with
  | rest left => exact .rest []
  | last text => simpa using Falls.last text
  | entry lineEnd _ _ ih =>
    rw [typed_cons]
    exact .entry lineEnd ih _

/-- Whether a rest of a text still asks for more. Its last line end, if it has one, is no part of the
question. -/
def IsUnfinished (left : List Char) : Prop :=
  left ≠ [] → isComplete (String.ofList (splitTerminator left).1) = false

/-- A text that comes from a pipe, taken apart: what is read from it, with the line ends behind, and the
rest that is never read. -/
structure IsEntered (text : String) (entries : List Entry) (left : List Char) : Prop where
  readings : Input.ofPipe text.toUTF8 = ⟨entries.map Entry.reading, .endOfInput⟩
  falls : Falls text.toList entries left
  complete : ∀ entry ∈ entries, entry.IsComplete
  unfinished : IsUnfinished left

/-! ## Entries of groups -/

/-- What a group of lines enters, with what is behind it. -/
def Entry.ofGroup (lines : List (List Char)) : Entry where
  text := (splitTerminator lines.flatten).1
  terminator := (splitTerminator lines.flatten).2

section

variable {lines left : List (List Char)} {groups : List (List (List Char))}

theorem IsGroup.isComplete_ofGroup (group : IsGroup lines) : (Entry.ofGroup lines).IsComplete :=
  isComplete_entered_iff.mpr group.submitted

theorem IsPending.isUnfinished (pending : IsPending lines) : IsUnfinished lines.flatten := by
  intro nonempty
  have some : lines ≠ [] := by
    rintro rfl
    exact nonempty rfl
  exact Bool.eq_false_iff.mpr (mt isComplete_entered_iff.mp (pending lines List.prefix_rfl some))

/-- As lines fall into groups, what they make up falls into entries. -/
theorem Falls.of_grouped (areLines : AreLines lines) (grouped : Grouped lines groups left) :
    Falls lines.flatten (groups.map Entry.ofGroup) left.flatten := by
  induction grouped with
  | rest _ => exact .rest _
  | @group group lines left groups first later ih =>
    have typed : (Entry.ofGroup group).text ++ (Entry.ofGroup group).terminator = group.flatten :=
      append_splitTerminator group.flatten
    by_cases feed : group.flatten.getLast? = some '\n'
    · have lineEnd : IsLineEnd (Entry.ofGroup group).terminator := isLineEnd_splitTerminator feed
      rw [List.flatten_append, ← typed, List.append_assoc, List.map_cons]
      exact .entry lineEnd (ih areLines.of_append) _
    · -- Without a line feed the group is the last one, and has no terminator.
      obtain rfl : lines = [] := by
        by_contra goesOn
        exact feed (areLines.getLast?_flatten goesOn first.nonempty)
      obtain ⟨rfl, rfl⟩ := later.of_isPending isPending_nil
      have whole : Entry.ofGroup group = ⟨group.flatten, []⟩ := by
        rw [Entry.ofGroup, splitTerminator_of_getLast? feed]
      rw [List.append_nil, List.map_singleton, whole]
      exact .last _

end

/-- **Every text is taken apart by a pipe.** -/
theorem exists_isEntered (text : String) : ∃ entries left, IsEntered text entries left := by
  obtain ⟨groups, left, grouped, readings⟩ := exists_grouped text
  refine ⟨groups.map Entry.ofGroup, left.flatten, ?_, ?_, ?_, grouped.isPending.isUnfinished⟩
  · rw [readings, List.map_map]
    rfl
  · have falls := Falls.of_grouped (areLines_textLines text.toList) grouped
    rwa [flatten_textLines] at falls
  · exact List.forall_mem_map.mpr fun group mem => (grouped.isGroup group mem).isComplete_ofGroup

end LoxLexing
