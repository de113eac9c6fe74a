import LoxLexing.Proofs.Boundary
import LoxLexing.Styled

/-!
# Taking the control sequences out of a text

A terminal does not show control sequences. What it shows of a text is the text without them
(`withoutSequences`): wherever an escape, a bracket, some parameters and an `m` follow one another, they are left
out.

**The law** (`withoutSequences_render`): if no piece of a styled text holds an escape, then what is left of it is
what its pieces say. A piece is put between sequences (`Piece.render_eq`), and these are taken out one by one; in
a text without escapes no sequence begins, so nothing of a piece is taken for a part of one.
-/

namespace LoxLexing

/-! ## Control sequences -/

/-- Whether a character may stand between the bracket and the `m` of a sequence that sets attributes. -/
def isParameter (c : Char) : Bool :=
  c.isDigit || c == ';'

/-- What stands behind a control sequence at the start of a text, if one stands there. -/
def behindSequence? : List Char → Option (List Char)
  | '\x1b' :: '[' :: rest =>
    match rest.dropWhile isParameter with
    | 'm' :: behind => some behind
    | _ => none
  | _ => none

theorem length_lt_of_behindSequence? {text behind : List Char}
    (found : behindSequence? text = some behind) : behind.length < text.length := by
  unfold behindSequence? at found
  split at found
  · rename_i rest
    split at found
    · rename_i same
      obtain rfl := Option.some.inj found
      have shorter := (List.dropWhile_suffix (l := rest) isParameter).length_le
      rw [same, List.length_cons] at shorter
      rw [List.length_cons, List.length_cons]
      omega
    · cases found
  · cases found

/-- A text without its control sequences. -/
def withoutSequences (text : List Char) : List Char :=
  match text with
  | [] => []
  | c :: rest =>
    match _h : behindSequence? (c :: rest) with
    | some behind => withoutSequences behind
    | none => c :: withoutSequences rest
termination_by text.length
decreasing_by
  · exact length_lt_of_behindSequence? _h
  · exact Nat.lt_succ_self _

/-! ## Laws of taking out -/

section

variable {text behind rest : List Char}

theorem withoutSequences_of_behindSequence? (found : behindSequence? text = some behind) :
    withoutSequences text = withoutSequences behind := by
  cases text with
  | nil => cases found
  | cons c text =>
    rw [withoutSequences]
    split
    · rename_i same
      rw [found] at same
      rw [Option.some.inj same]
    · rename_i none
      rw [found] at none
      cases none

/-- A text without escapes stays as it is. -/
theorem withoutSequences_append (noEscape : '\x1b' ∉ text) (rest : List Char) :
    withoutSequences (text ++ rest) = text ++ withoutSequences rest := by
  induction text with
  | nil => rfl
  | cons c text ih =>
    have notEscape : c ≠ '\x1b' := by
      rintro rfl
      exact noEscape List.mem_cons_self
    have none : behindSequence? (c :: (text ++ rest)) = none := by
      unfold behindSequence?
      split
      · rename_i same
        exact absurd (List.cons.inj same).1 notEscape
      · rfl
    rw [List.cons_append, withoutSequences]
    split
    · rename_i some
      rw [none] at some
      cases some
    · rw [ih fun mem => noEscape (List.mem_cons_of_mem c mem), List.cons_append]

/-- A control sequence is taken out. -/
theorem withoutSequences_sequence {code : String} (parameters : ∀ c ∈ code.toList, isParameter c = true)
    (rest : List Char) :
    withoutSequences ((Style.sequence code).toList ++ rest) = withoutSequences rest := by
  have stops : Stops isParameter ('m' :: rest) := stops_cons.mpr (by decide)
  have shape : (Style.sequence code).toList ++ rest = '\x1b' :: '[' :: (code.toList ++ 'm' :: rest) := by
    rw [Style.sequence, String.toList_append, String.toList_append, List.append_assoc, List.append_assoc]
    rfl
  apply withoutSequences_of_behindSequence?
  simp only [shape, behindSequence?, dropWhile_append_of_stops parameters stops]

end

/-! ## Styles -/

namespace Style

/-- What switches some styles on, the first of them first. -/
def switchOn (styles : List Style) : String :=
  String.join (styles.map opening)

/-- What switches some styles off, the first of them last. -/
def switchOff (styles : List Style) : String :=
  String.join (styles.reverse.map closing)

theorem switchOn_cons (style : Style) (styles : List Style) :
    switchOn (style :: styles) = style.opening ++ switchOn styles :=
  String.join_cons

theorem switchOff_cons (style : Style) (styles : List Style) :
    switchOff (style :: styles) = switchOff styles ++ style.closing := by
  rw [switchOff, List.reverse_cons, List.map_append, String.join_append]
  simp [switchOff]

theorem wrap_eq (styles : List Style) (text : String) :
    wrap styles text = switchOn styles ++ text ++ switchOff styles := by
  induction styles with
  | nil => simp [wrap, switchOn, switchOff]
  | cons style styles ih =>
    have outermost : wrap (style :: styles) text = style.opening ++ wrap styles text ++ style.closing := rfl
    rw [outermost, ih, switchOn_cons, switchOff_cons]
    simp only [String.append_assoc]

/-- Every style is switched on by one control sequence. -/
theorem exists_opening (style : Style) :
    ∃ code : String, (∀ c ∈ code.toList, isParameter c = true) ∧ style.opening = sequence code := by
  cases style with
  | bold => exact ⟨"1", forall_mem_of_all (by decide), rfl⟩
  | dimmed => exact ⟨"2", forall_mem_of_all (by decide), rfl⟩
  | coloured colour => exact ⟨colour.code, forall_mem_of_all (by cases colour <;> decide), rfl⟩

/-- Every style is switched off by one control sequence. -/
theorem exists_closing (style : Style) :
    ∃ code : String, (∀ c ∈ code.toList, isParameter c = true) ∧ style.closing = sequence code := by
  cases style with
  | bold => exact ⟨"0", forall_mem_of_all (by decide), rfl⟩
  | dimmed => exact ⟨"0", forall_mem_of_all (by decide), rfl⟩
  | coloured _ => exact ⟨"39", forall_mem_of_all (by decide), rfl⟩

theorem withoutSequences_switchOn (styles : List Style) (rest : List Char) :
    withoutSequences ((switchOn styles).toList ++ rest) = withoutSequences rest := by
  induction styles with
  | nil => rfl
  | cons style styles ih =>
    obtain ⟨code, parameters, same⟩ := style.exists_opening
    rw [switchOn_cons, String.toList_append, List.append_assoc, same,
      withoutSequences_sequence parameters, ih]

theorem withoutSequences_switchOff (styles : List Style) (rest : List Char) :
    withoutSequences ((switchOff styles).toList ++ rest) = withoutSequences rest := by
  induction styles generalizing rest with
  | nil => rfl
  | cons style styles ih =>
    obtain ⟨code, parameters, same⟩ := style.exists_closing
    rw [switchOff_cons, String.toList_append, List.append_assoc, ih, same,
      withoutSequences_sequence parameters]

end Style

/-- A piece is its text between what switches its styles on and what switches them off. -/
theorem Piece.render_eq (piece : Piece) :
    piece.render = Style.switchOn piece.styles ++ piece.text ++ Style.switchOff piece.styles :=
  Style.wrap_eq piece.styles piece.text

/-! ## Styled texts -/

namespace StyledText

theorem render_cons (piece : Piece) (text : StyledText) : render (piece :: text) = piece.render ++ render text :=
  String.join_cons

theorem plain_cons (piece : Piece) (text : StyledText) : plain (piece :: text) = piece.text ++ plain text :=
  String.join_cons

theorem plain_singleton (piece : Piece) : plain [piece] = piece.text := by
  rw [plain_cons]
  exact String.append_empty

theorem plain_append (front behind : StyledText) : plain (front ++ behind) = plain front ++ plain behind := by
  rw [plain, List.map_append, String.join_append]
  rfl

/-- **Without its control sequences a styled text is what it says.** -/
theorem withoutSequences_render {text : StyledText} (noEscape : '\x1b' ∉ text.plain.toList) :
    withoutSequences text.render.toList = text.plain.toList := by
  induction text with
  | nil => simp [render, plain, withoutSequences]
  | cons piece text ih =>
    rw [plain_cons, String.toList_append, List.mem_append, not_or] at noEscape
    obtain ⟨inPiece, behind⟩ := noEscape
    rw [render_cons, plain_cons, piece.render_eq, String.toList_append, String.toList_append,
      String.toList_append, String.toList_append, List.append_assoc, List.append_assoc,
      Style.withoutSequences_switchOn, withoutSequences_append inPiece, Style.withoutSequences_switchOff,
      ih behind]

end StyledText

end LoxLexing
