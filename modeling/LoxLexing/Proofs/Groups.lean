import LoxLexing.Proofs.PhysicalLines

/-!
# Groups of lines

The physical lines of an input fall into **groups**. A group is the shortest run of lines, from the first one
that no group has taken yet, that amounts to a command or to source that is not open (`IsGroup`, `Grouped`).
Lines that no further line completes are left over.

**The law** (`exists_grouped`, `Grouped.unique`): there is one way only to group lines, and what is read from a
pipe is the groups of its lines.

The reader judges a buffer that grows by a line and starts afresh when it is complete. That it finds just the
groups is an induction along the lines in which what the buffer holds is always a run without a complete
beginning (`IsPending`).
-/

namespace LoxLexing

/-! ## Groups of lines -/

/-- What a run of physical lines amounts to: the line ends inside it are kept, the last one is not. -/
def entered (lines : List (List Char)) : String :=
  String.ofList (splitTerminator lines.flatten).1

/-- Whether a run of lines needs no further line: it is a command, or source that is not open. -/
def IsSubmitted (lines : List (List Char)) : Prop :=
  Command.parse? (entered lines) ≠ none ∨ needsMore (entered lines) = false

/-- Whether no beginning of some lines is complete. -/
def IsPending (lines : List (List Char)) : Prop :=
  ∀ front, front <+: lines → front ≠ [] → ¬ IsSubmitted front

/-- A run of lines that is complete when its last line comes, and not before. -/
structure IsGroup (lines : List (List Char)) : Prop where
  nonempty : lines ≠ []
  submitted : IsSubmitted lines
  shortest : ∀ front, front <+: lines → front ≠ [] → IsSubmitted front → front = lines

/-- How lines fall into groups, and what is left over. -/
inductive Grouped : List (List Char) → List (List (List Char)) → List (List Char) → Prop where
  | rest {lines : List (List Char)} (pending : IsPending lines) : Grouped lines [] lines
  | group {group lines left : List (List Char)} {groups : List (List (List Char))}
      (first : IsGroup group) (later : Grouped lines groups left) :
      Grouped (group ++ lines) (group :: groups) left

section

variable {lines group behind left : List (List Char)} {groups : List (List (List Char))}

theorem isComplete_entered_iff : isComplete (entered lines) = true ↔ IsSubmitted lines := by
  rw [isComplete, IsSubmitted, Bool.or_eq_true, Option.isSome_iff_ne_none, Bool.not_eq_true']

theorem isPending_nil : IsPending [] := by
  intro front isPrefix nonempty
  exact absurd (List.prefix_nil.mp isPrefix) nonempty

/-- A run that has no complete beginning stays so by a line that does not complete it. -/
theorem IsPending.concat {line : List Char} (pending : IsPending lines)
    (incomplete : ¬ IsSubmitted (lines ++ [line])) : IsPending (lines ++ [line]) := by
  intro front isPrefix nonempty
  rcases List.prefix_concat_iff.mp isPrefix with rfl | shorter
  · exact incomplete
  · exact pending front shorter nonempty

/-- A run that has no complete beginning becomes a group by a line that completes it. -/
theorem IsPending.isGroup_concat {line : List Char} (pending : IsPending lines)
    (complete : IsSubmitted (lines ++ [line])) : IsGroup (lines ++ [line]) := by
  refine ⟨List.append_ne_nil_of_right_ne_nil _ (List.cons_ne_nil _ _), complete, ?_⟩
  intro front isPrefix nonempty submitted
  rcases List.prefix_concat_iff.mp isPrefix with rfl | shorter
  · rfl
  · exact absurd submitted (pending front shorter nonempty)

/-! ## There is one way to group lines -/

theorem Grouped.flatten_append (grouped : Grouped lines groups left) :
    groups.flatten ++ left = lines := by
  induction grouped with
  | rest _ => rfl
  | group _ _ ih => rw [List.flatten_cons, List.append_assoc, ih]

theorem Grouped.isGroup (grouped : Grouped lines groups left) : ∀ group ∈ groups, IsGroup group := by
  induction grouped with
  | rest _ => exact List.forall_mem_nil _
  | group first _ ih => exact List.forall_mem_cons.mpr ⟨first, ih⟩

theorem Grouped.isPending (grouped : Grouped lines groups left) : IsPending left := by
  induction grouped with
  | rest pending => exact pending
  | group _ _ ih => exact ih

/-- Without the lines left over, the lines fall into the same groups. -/
theorem Grouped.of_flatten (grouped : Grouped lines groups left) :
    Grouped groups.flatten groups [] := by
  induction grouped with
  | rest _ => exact .rest isPending_nil
  | group first _ ih => exact .group first ih

/-- Lines that begin with a group have it for their first one. -/
theorem Grouped.of_group_append (first : IsGroup group)
    (grouped : Grouped (group ++ behind) groups left) :
    ∃ later, groups = group :: later ∧ Grouped behind later left := by
  generalize begun : group ++ behind = lines at grouped
  cases grouped with
  | rest pending =>
    have isPrefix := List.prefix_append group behind
    rw [begun] at isPrefix
    exact absurd first.submitted (pending group isPrefix first.nonempty)
  | @group group' lines' _ later first' grouped' =>
    -- Of two groups at the head of the same lines the shorter one begins the other.
    have same : group = group' := by
      have isPrefix : group <+: group' ++ lines' := ⟨behind, begun⟩
      rcases List.prefix_or_prefix_of_prefix isPrefix (List.prefix_append group' lines') with
        shorter | shorter
      · exact first'.shortest group shorter first.nonempty first.submitted
      · exact (first.shortest group' shorter first'.nonempty first'.submitted).symm
    subst same
    obtain rfl := List.append_cancel_left begun
    exact ⟨later, rfl, grouped'⟩

theorem Grouped.of_flatten_append {front : List (List (List Char))}
    (areGroups : ∀ group ∈ front, IsGroup group)
    (grouped : Grouped (front.flatten ++ behind) groups left) :
    ∃ later, groups = front ++ later ∧ Grouped behind later left := by
  induction front generalizing groups with
  | nil => exact ⟨groups, rfl, grouped⟩
  | cons group front ih =>
    obtain ⟨first, areGroups⟩ := List.forall_mem_cons.mp areGroups
    rw [List.flatten_cons, List.append_assoc] at grouped
    obtain ⟨others, rfl, grouped'⟩ := grouped.of_group_append first
    obtain ⟨later, rfl, grouped''⟩ := ih areGroups grouped'
    exact ⟨later, rfl, grouped''⟩

theorem Grouped.of_isPending (pending : IsPending lines) (grouped : Grouped lines groups left) :
    groups = [] ∧ left = lines := by
  cases grouped with
  | rest _ => exact ⟨rfl, rfl⟩
  | @group group lines' _ _ first _ =>
    exact absurd first.submitted (pending group (List.prefix_append group lines') first.nonempty)

/-- **Lines are grouped in one way.** -/
theorem Grouped.unique {groups' : List (List (List Char))} {left' : List (List Char)}
    (grouped : Grouped lines groups left) (grouped' : Grouped lines groups' left') :
    groups' = groups ∧ left' = left := by
  rw [← grouped.flatten_append] at grouped'
  obtain ⟨later, rfl, grouped''⟩ := grouped'.of_flatten_append grouped.isGroup
  obtain ⟨rfl, rfl⟩ := grouped''.of_isPending grouped.isPending
  exact ⟨List.append_nil _, rfl⟩

end

/-! ## A pipe finds the groups -/

section

variable {pending line body terminator : List Char} {lines : List (List UInt8)}

theorem gather_encode (split : splitTerminator line = (body, terminator)) :
    gather (String.ofList pending) (encode line)
      = if isComplete (String.ofList (pending ++ body)) then
          .entered (String.ofList (pending ++ body))
        else .pending (String.ofList (pending ++ line)) := by
  have whole := append_splitTerminator line
  rw [split] at whole
  simp only [gather, fromUTF8?_encode, String.toList_ofList, split, ← String.ofList_append,
    List.append_assoc, whole]

theorem groupLines_of_isComplete (split : splitTerminator line = (body, terminator))
    (complete : isComplete (String.ofList (pending ++ body)) = true) :
    groupLines (String.ofList pending) (encode line :: lines)
      = (String.ofList (pending ++ body) :: (groupLines (String.ofList []) lines).1,
          (groupLines (String.ofList []) lines).2) := by
  rw [groupLines, gather_encode split, if_pos complete]

theorem groupLines_of_incomplete (split : splitTerminator line = (body, terminator))
    (incomplete : isComplete (String.ofList (pending ++ body)) = false) :
    groupLines (String.ofList pending) (encode line :: lines)
      = groupLines (String.ofList (pending ++ line)) lines := by
  rw [groupLines, gather_encode split, if_neg (Bool.eq_false_iff.mp incomplete)]

end

/-- What a group is left with when a line comes to what is pending. -/
theorem entered_concat {pending behind : List (List Char)} {line body terminator : List Char}
    (areLines : AreLines (pending ++ line :: behind))
    (split : splitTerminator line = (body, terminator)) :
    entered (pending ++ [line]) = String.ofList (pending.flatten ++ body) := by
  have nonempty : line ≠ [] := areLines.nonempty line (by simp)
  have noReturn : pending.flatten.getLast? ≠ some '\r' := by
    by_cases none : pending = []
    · simp [none]
    · rw [areLines.getLast?_flatten (List.cons_ne_nil line behind) none]
      decide
  rw [entered, List.flatten_append, List.flatten_singleton, splitTerminator_append nonempty noReturn,
    split]

/-- What is entered from lines, behind lines that are pending. -/
theorem exists_grouped_pending (lines : List (List Char)) {pending : List (List Char)}
    (areLines : AreLines (pending ++ lines)) (isPending : IsPending pending) :
    ∃ groups left,
      groupLines (String.ofList pending.flatten) (lines.map encode)
          = (groups.map entered, .endOfInput) ∧
        Grouped (pending ++ lines) groups left := by
  induction lines generalizing pending with
  | nil =>
    refine ⟨[], pending, rfl, ?_⟩
    rw [List.append_nil]
    exact .rest isPending
  | cons line lines ih =>
    obtain ⟨body, terminator, split⟩ :
        ∃ body terminator, splitTerminator line = (body, terminator) := ⟨_, _, rfl⟩
    have whatIsEntered := entered_concat areLines split
    rw [List.map_cons]
    rw [List.append_cons] at areLines ⊢
    by_cases submitted : IsSubmitted (pending ++ [line])
    · have complete := isComplete_entered_iff.mpr submitted
      rw [whatIsEntered] at complete
      have areLines' : AreLines ([] ++ lines) := areLines.of_append
      obtain ⟨groups, left, groups', grouped⟩ := ih areLines' isPending_nil
      rw [List.flatten_nil] at groups'
      refine ⟨(pending ++ [line]) :: groups, left, ?_,
        .group (isPending.isGroup_concat submitted) grouped⟩
      rw [groupLines_of_isComplete split complete, groups', List.map_cons, whatIsEntered]
    · have incomplete := Bool.eq_false_iff.mpr (mt isComplete_entered_iff.mp submitted)
      rw [whatIsEntered] at incomplete
      obtain ⟨groups, left, groups', grouped⟩ := ih areLines (isPending.concat submitted)
      rw [List.flatten_append, List.flatten_singleton] at groups'
      refine ⟨groups, left, ?_, grouped⟩
      rw [groupLines_of_incomplete split incomplete, groups']

/-- What a session reads for a group. -/
def groupReading (lines : List (List Char)) : Reading :=
  .line (entered lines)

/-- **What is read from a pipe is the groups of its lines.** -/
theorem exists_grouped (text : String) :
    ∃ groups left, Grouped (textLines text.toList) groups left ∧
      Input.ofPipe text.toUTF8 = ⟨groups.map groupReading, .endOfInput⟩ := by
  have areLines : AreLines ([] ++ textLines text.toList) := areLines_textLines text.toList
  obtain ⟨groups, left, entered, grouped⟩ := exists_grouped_pending _ areLines isPending_nil
  refine ⟨groups, left, grouped, ?_⟩
  rw [List.flatten_nil, String.ofList_nil] at entered
  rw [Input.ofPipe, toList_toUTF8, physicalLines_encode, entered]
  simp only [List.map_map]
  rfl

end LoxLexing
