import Mathlib.Data.List.DropRight
import LoxLexing.Proofs.Boundary
import LoxLexing.Text.Blank

/-!
# Trimmed texts

White space around a text is all that trimming takes away. So it takes away nothing a second time
(`trim_trim`), and what stands in front of the first white space of a text is not touched by what is taken off
its end (`takeWhile_trimEnd`).
-/

namespace LoxLexing

/-- The beginning of a text, up to its first white space. -/
def firstWord (text : List Char) : List Char :=
  text.takeWhile (!isWhiteSpace ·)

/-- What stands behind the first word of a text. -/
def behindFirstWord (text : List Char) : List Char :=
  text.dropWhile (!isWhiteSpace ·)

section

variable {text behind : List Char} {c : Char}

/-! ## What is taken away -/

/-- Only white space is taken off the end of a text. -/
theorem exists_trimEnd_append (text : List Char) :
    ∃ space, (∀ c ∈ space, isWhiteSpace c = true) ∧ trimEnd text ++ space = text := by
  refine ⟨text.rtakeWhile isWhiteSpace, ?_, List.rdropWhile_append_rtakeWhile⟩
  intro c mem
  exact List.mem_rtakeWhile_imp mem

theorem trimEnd_trimEnd (text : List Char) : trimEnd (trimEnd text) = trimEnd text :=
  List.rdropWhile_idempotent isWhiteSpace text

/-- A character that is no white space keeps all that stands in front of it. -/
theorem trimEnd_cons (visible : isWhiteSpace c = false) (text : List Char) :
    trimEnd (c :: text) = c :: trimEnd text := by
  unfold trimEnd
  rw [List.reverse_cons, List.dropWhile_append]
  split
  · rename_i nothing
    rw [List.isEmpty_iff.mp nothing, List.dropWhile_cons_of_neg (Bool.eq_false_iff.mp visible)]
    rfl
  · rw [List.reverse_append]
    rfl

/-- Nor does a text of such characters lose anything of itself. -/
theorem trimEnd_append {front : List Char} (visible : ∀ c ∈ front, isWhiteSpace c = false) (text : List Char) :
    trimEnd (front ++ text) = front ++ trimEnd text := by
  induction front with
  | nil => rfl
  | cons c front ih =>
    obtain ⟨first, others⟩ := List.forall_mem_cons.mp visible
    rw [List.cons_append, trimEnd_cons first, ih others, List.cons_append]

/-- White space at the end is taken off, whatever stands in front of it. -/
theorem trimEnd_append_space {space : List Char} (isSpace : ∀ c ∈ space, isWhiteSpace c = true) (text : List Char) :
    trimEnd (text ++ space) = trimEnd text := by
  unfold trimEnd
  rw [List.reverse_append, List.dropWhile_append_of_pos]
  intro c mem
  exact isSpace c (List.mem_reverse.mp mem)

theorem trimStart_of_stops (stops : Stops isWhiteSpace text) : trimStart text = text := by
  have nothing : ∀ c ∈ [], isWhiteSpace c = true := nofun
  exact dropWhile_append_of_stops nothing stops

/-- A text that does not end with white space keeps its end. -/
theorem trimEnd_of_getLast? (visible : ∀ c ∈ text.getLast?, isWhiteSpace c = false) : trimEnd text = text := by
  have stops : Stops isWhiteSpace text.reverse := by
    rw [Stops, List.head?_reverse]
    exact visible
  have same : text.reverse.dropWhile isWhiteSpace = text.reverse := trimStart_of_stops stops
  rw [trimEnd, same, List.reverse_reverse]

theorem stops_trimStart (text : List Char) : Stops isWhiteSpace (trimStart text) :=
  stops_dropWhile isWhiteSpace text

/-- White space at the end is no reason for white space at the start. -/
theorem stops_trimEnd (stops : Stops isWhiteSpace text) : Stops isWhiteSpace (trimEnd text) := by
  cases text with
  | nil => exact stops
  | cons c text =>
    rw [trimEnd_cons (stops_cons.mp stops)]
    exact stops_cons.mpr (stops_cons.mp stops)

/-- What is left of a text does not end with white space. -/
theorem isWhiteSpace_getLast?_trimEnd (text : List Char) : ∀ c ∈ (trimEnd text).getLast?, isWhiteSpace c = false := by
  rw [trimEnd, List.getLast?_reverse]
  exact stops_dropWhile isWhiteSpace text.reverse

/-- **Trimming a trimmed text changes nothing.** -/
theorem trim_trim (text : List Char) : trim (trim text) = trim text := by
  have stops : Stops isWhiteSpace (trim text) := stops_trimEnd (stops_trimStart text)
  unfold trim at stops ⊢
  rw [trimStart_of_stops stops, trimEnd_trimEnd]

/-! ## First words -/

theorem firstWord_append_behindFirstWord (text : List Char) :
    firstWord text ++ behindFirstWord text = text :=
  List.takeWhile_append_dropWhile

/-- White space stands behind a first word, or nothing does. -/
theorem stops_behindFirstWord (text : List Char) : Stops (!isWhiteSpace ·) (behindFirstWord text) :=
  stops_dropWhile _ text

/-- What stands behind the first white space of a text, or behind its end if white space follows there, is not
part of its first word. -/
theorem firstWord_append (text : List Char) (stops : Stops (!isWhiteSpace ·) behind) :
    firstWord (text ++ behind) = firstWord text := by
  have ends : Stops (!isWhiteSpace ·) (behindFirstWord text ++ behind) := by
    cases rest : behindFirstWord text with
    | nil => exact stops
    | cons c tail =>
      have := stops_behindFirstWord text
      rw [rest] at this
      exact stops_cons.mpr (stops_cons.mp this)
  have visible : ∀ c ∈ firstWord text, (!isWhiteSpace c) = true := forall_mem_takeWhile _ text
  conv_lhs => rw [← firstWord_append_behindFirstWord text, List.append_assoc]
  exact takeWhile_append_of_stops visible ends

/-- The first word of a text is not touched by what is taken off the end. -/
theorem firstWord_trimEnd (text : List Char) : firstWord (trimEnd text) = firstWord text := by
  obtain ⟨space, isSpace, split⟩ := exists_trimEnd_append text
  have stops : Stops (!isWhiteSpace ·) space := by
    intro c head
    show (!isWhiteSpace c) = false
    rw [isSpace c (List.mem_of_mem_head? head)]
    rfl
  conv_rhs => rw [← split]
  exact (firstWord_append _ stops).symm

end

end LoxLexing
